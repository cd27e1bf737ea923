import KernelMemory.AllocError
import KernelMemory.Frames.Order
import KernelMemory.Rings
import KernelMemory.Stats

/-!
# Frame allocator

A pool of frames, handed out in blocks whose size is a power of two. Every frame has a record; a
block is known by the record of its first frame. Free blocks are kept on one list per order. An
allocation takes a block of the smallest order that is large enough and returns the upper halves
of its splits; a block that comes back is merged with its buddy as long as that is free too.

A request that is refused gives no allocator back, as nothing has changed.
-/

set_option autoImplicit false
set_option relaxedAutoImplicit false

namespace KernelMemory

-- Powers and sums of numbers mean the same beside a library that has powers and zeros of its own.
attribute [local instance (high)] instPowNat Zero.ofOfNat0

inductive FrameStatus
  | free
  | allocated
deriving DecidableEq, Repr

/-- The order counts only in the record of the first frame of a block. -/
structure FrameRecord where
  order : Nat := 0
  status : FrameStatus := .free
deriving DecidableEq, Repr

/-- A block of frames. -/
structure FrameBlock where
  start : Nat
  order : Nat
deriving DecidableEq, Repr

structure FrameAllocator where
  /-- The address of the first frame. -/
  base : Nat
  records : Array FrameRecord
  /-- The heads of the free lists, one for each order, and then the frames. -/
  rings : Rings
  /-- The length of every free list. -/
  freeCounts : Array Nat
deriving DecidableEq, Repr

namespace FrameAllocator

/-- The node of a frame. -/
def nodeOf (frame : Nat) : Nat := orderCount + frame

/-- The frame of a node, which may not be a head. -/
def frameOf (node : Nat) : Except Fault Nat := Word.sub node orderCount

/-- An allocator whose frames are on no list yet. -/
def unlisted (base count : Nat) : FrameAllocator where
  base
  records := ⟨List.replicate count {}⟩
  rings := .alone (orderCount + count)
  freeCounts := ⟨List.replicate orderCount 0⟩

def frameCount (frames : FrameAllocator) : Nat := frames.records.size

def setRecord (frames : FrameAllocator) (frame : Nat) (record : FrameRecord) :
    Except Fault FrameAllocator :=
  if frame < frames.frameCount then
    .ok { frames with records := frames.records.setIfInBounds frame record }
  else
    .error (.indexOutOfBounds frames.frameCount frame)

/-- The number of free blocks of an order. -/
def freeCount (frames : FrameAllocator) (order : Nat) : Except Fault Nat :=
  match frames.freeCounts[order]? with
  | some count => .ok count
  | none => .error (.indexOutOfBounds frames.freeCounts.size order)

def setFreeCount (frames : FrameAllocator) (order count : Nat) : Except Fault FrameAllocator :=
  if order < frames.freeCounts.size then
    .ok { frames with freeCounts := frames.freeCounts.setIfInBounds order count }
  else
    .error (.indexOutOfBounds frames.freeCounts.size order)

/-- The frame is the first one of a free block of the order. -/
def isFreeBlock (frames : FrameAllocator) (frame order : Nat) : Bool :=
  frames.records[frame]? == some { order, status := .free }

/-- Put a block in front of the free list of its order. -/
def pushFree (frames : FrameAllocator) (frame order : Nat) : Except Fault FrameAllocator := do
  let frames ← frames.setRecord frame { order, status := .free }
  let rings ← frames.rings.insertAfter order (nodeOf frame)
  { frames with rings }.setFreeCount order ((← frames.freeCount order) + 1)

/-- Take a block off the free list of its order. -/
def takeFree (frames : FrameAllocator) (frame order : Nat) : Except Fault FrameAllocator := do
  let rings ← frames.rings.remove (nodeOf frame)
  { frames with rings }.setFreeCount order (← Word.sub (← frames.freeCount order) 1)

/-- The first block on the free list of an order. -/
def firstFree? (frames : FrameAllocator) (order : Nat) : Except Fault (Option Nat) := do
  (← frames.rings.first? order).mapM frameOf

/-- The smallest order from the given one on that has a free block. -/
def orderWithFree? (frames : FrameAllocator) (order : Nat) : Option Nat :=
  (List.range' order (orderCount - order)).find? fun order ↦
    0 < (frames.freeCounts[order]?).getD 0

/-- Split a block the given number of times, down to `order`, and free the upper half each
time. -/
def splitDown (frames : FrameAllocator) (frame order : Nat) : (splits : Nat) →
    Except Fault FrameAllocator
  | 0 => .ok frames
  | splits + 1 => do
    let frames ← frames.pushFree (buddyOf frame (order + splits)) (order + splits)
    frames.splitDown frame order splits

/-- Allocate a block of the given order. -/
def allocate (frames : FrameAllocator) (order : Nat) : Checked (Nat × FrameAllocator) := do
  if orderCount ≤ order then throw .orderTooLarge
  let some found := frames.orderWithFree? order | throw .noMemoryAvailable
  let some frame ← frames.firstFree? found | throw .noMemoryAvailable
  let frames ← frames.takeFree frame found
  let frames ← frames.setRecord frame { order, status := .allocated }
  let frames ← frames.splitDown frame order (found - order)
  return (frame, frames)

/-- Allocate the smallest block with at least `count` frames. -/
def allocatePages (frames : FrameAllocator) (count : Nat) : Checked (Nat × FrameAllocator) := do
  if count = 0 then throw .zeroSize
  frames.allocate (← Word.exponentFor count)

/-- Merge a block that is on no list with its buddy as long as that is free. The block has an
order that is `steps` below the top. -/
def mergeUp (frames : FrameAllocator) (frame : Nat) : (steps : Nat) →
    Except Fault (FrameBlock × FrameAllocator)
  | 0 => .ok (⟨frame, topOrder⟩, frames)
  | steps + 1 =>
    let order := topOrder - (steps + 1)
    let buddy := buddyOf frame order
    if frames.isFreeBlock buddy order then do
      let frames ← frames.takeFree buddy order
      frames.mergeUp (min frame buddy) steps
    else
      .ok (⟨frame, order⟩, frames)

/-- Free the allocated block that starts at a frame, and give the free block that it became or
became a part of. -/
def free (frames : FrameAllocator) (frame : Nat) : Checked (FrameBlock × FrameAllocator) := do
  let some record := frames.records[frame]? | throw .invalidFrame
  if record.status ≠ .allocated then throw .invalidFrame
  let frames ← frames.setRecord frame { record with status := .free }
  let (block, frames) ← frames.mergeUp frame (topOrder - record.order)
  let frames ← frames.pushFree block.start block.order
  if block.order < topOrder && frames.isFreeBlock (buddyOf block.start block.order) block.order then
    throwThe Fault (.missedMerge block.start)
  return (block, frames)

/-- Add blocks to a pool of `count` frames from a start on, of the orders below the given one, each
order as long as one of its blocks fits before the end. The blocks that were added come with the
pool. -/
def addFrom (count : Nat) (frames : FrameAllocator) (start : Nat) : (orders : Nat) →
    Except Fault (List FrameBlock × FrameAllocator)
  | 0 => .ok ([], frames)
  | order + 1 =>
    match hrest : Word.sub count start with
    | .error fault => .error fault
    | .ok rest =>
      if hfits : 2 ^ order ≤ rest then do
        have := Word.sub_add_lt hrest (Nat.two_pow_pos order) hfits
        let frames ← frames.pushFree start order
        let (blocks, frames) ← addFrom count frames (start + 2 ^ order) (order + 1)
        return (⟨start, order⟩ :: blocks, frames)
      else addFrom count frames start order
termination_by orders => orders + (count - start)

/-- A pool of `count` free frames, the first of which is at address `base`, and its blocks. -/
def fill (base count : Nat) : Except Fault (List FrameBlock × FrameAllocator) :=
  addFrom count (unlisted base count) 0 orderCount

def ofFrames (base count : Nat) : Except Fault FrameAllocator := do
  return (← fill base count).2

/-- A pool has to start at the address of a frame, and its end has to be an address too. -/
def checkPlace (base count : Nat) : Checked Unit := do
  if base % frameSize ≠ 0 then throw .invalidConfig
  if ((Word.mul? count frameSize).bind fun size ↦ Word.add? size base).isNone then
    throw .invalidConfig

/-- A pool at an address. -/
def withBase (base count : Nat) : Checked FrameAllocator := do
  checkPlace base count
  ofFrames base count

/-- The address of a frame. -/
def addressOf (frames : FrameAllocator) (frame : Nat) : Except Fault Nat := do
  Word.add frames.base (← Word.mul frame frameSize)

/-- The frame at an address. -/
def frameAt? (frames : FrameAllocator) (address : Nat) : Option Nat := do
  let offset ← Word.sub? address frames.base
  guard (offset % frameSize = 0)
  guard (offset / frameSize < frames.frameCount)
  return offset / frameSize

def freeBytes (frames : FrameAllocator) : Nat :=
  ((List.range orderCount).map fun order ↦
    (frames.freeCounts[order]?).getD 0 * (2 ^ order * frameSize)).sum

def totalBytes (frames : FrameAllocator) : Nat := frames.frameCount * frameSize

def allocatedBytes (frames : FrameAllocator) : Nat := frames.totalBytes - frames.freeBytes

def stats (frames : FrameAllocator) : Stats where
  name := "Buddy Allocator"
  allocated := frames.allocatedBytes
  free := frames.freeBytes
  total := frames.totalBytes

end FrameAllocator

end KernelMemory
