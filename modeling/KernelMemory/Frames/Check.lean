import KernelMemory.Frames.Allocator

/-!
# Checking a frame allocator

A walk over all free lists, which finds the first thing about a frame allocator that is not as it
should be.
-/

set_option autoImplicit false
set_option relaxedAutoImplicit false

namespace KernelMemory

-- Powers and sums of numbers mean the same beside a library that has powers and zeros of its own.
attribute [local instance (high)] instPowNat Zero.ofOfNat0

inductive FrameDefect
  | notFreeWithOrder (block : FrameBlock)
  | notAligned (block : FrameBlock)
  | beyondPool (block : FrameBlock)
  | notMerged (block : FrameBlock)
  | wrongFreeCount (order : Nat)
  | wrongFreeBytes
deriving DecidableEq, Repr

namespace FrameAllocator

def checkFree (frames : FrameAllocator) (block : FrameBlock) : Except FrameDefect Unit := do
  unless frames.isFreeBlock block.start block.order do throw (.notFreeWithOrder block)
  unless block.start % 2 ^ block.order = 0 do throw (.notAligned block)
  unless block.start + 2 ^ block.order ≤ frames.frameCount do throw (.beyondPool block)
  if block.order < topOrder && frames.isFreeBlock (buddyOf block.start block.order) block.order then
    throw (.notMerged block)

/-- The block of an order whose first frame has a node. -/
def blockOf (order node : Nat) : Except Fault FrameBlock := do
  return ⟨← frameOf node, order⟩

/-- The free blocks of an order, in the order of their list. -/
def freeBlocks (frames : FrameAllocator) (order : Nat) : Except Fault (List FrameBlock) := do
  (← frames.rings.members order).mapM (blockOf order)

/-- Check a free list and give the number of frames on it. -/
def checkOrder (frames : FrameAllocator) (order : Nat) :
    ExceptT FrameDefect (Except Fault) Nat := do
  let blocks ← frames.freeBlocks order
  liftExcept (blocks.forM frames.checkFree)
  unless blocks.length = (← frames.freeCount order) do throw (.wrongFreeCount order)
  return blocks.length * 2 ^ order

def verify (frames : FrameAllocator) : ExceptT FrameDefect (Except Fault) Unit := do
  let counts ← (List.range orderCount).mapM frames.checkOrder
  unless counts.sum * frameSize = frames.freeBytes do throw .wrongFreeBytes

end FrameAllocator

end KernelMemory
