import KernelMemory.Heap.Bitmap
import KernelMemory.Heap.SizeClass
import KernelMemory.Rings

/-!
# Free lists

One list of free blocks for every size class. A bitmap for each level marks the classes whose
list has a member, and one more bitmap marks the levels that have such a class, so the first list
at or after a class that can serve a request is found without looking at any list on the way. A
block goes to the front of its list, and the front of the list is served first.
-/

set_option autoImplicit false
set_option relaxedAutoImplicit false

namespace KernelMemory

structure FreeLists where
  /-- The heads of the lists, one for each class, and then the blocks. -/
  rings : Rings
  /-- The levels with a class that has a member. -/
  levels : Bitmap
  /-- For each level, the slots whose list has a member. -/
  slots : Array Bitmap
deriving DecidableEq, Repr

namespace FreeLists

/-- The node of a block. -/
def nodeOf (block : Nat) : Nat := classCount + block

/-- The block of a node, which may not be a head. -/
def blockOf (node : Nat) : Except Fault Nat := Word.sub node classCount

def empty : FreeLists where
  rings := .alone classCount
  levels := 0#32
  slots := ⟨List.replicate levelCount 0#32⟩

/-- The marks of a level. -/
def slotsOf (lists : FreeLists) (level : Nat) : Except Fault Bitmap :=
  match lists.slots[level]? with
  | some slots => .ok slots
  | none => .error (.indexOutOfBounds lists.slots.size level)

def mark (lists : FreeLists) (sizeClass : SizeClass) : Except Fault FreeLists := do
  let slots := (← lists.slotsOf sizeClass.level).mark (← Bitmap.place sizeClass.slot)
  return { lists with
    slots := lists.slots.setIfInBounds sizeClass.level slots
    levels := lists.levels.mark (← Bitmap.place sizeClass.level) }

/-- A level loses its mark with the mark of its last slot. -/
def unmark (lists : FreeLists) (sizeClass : SizeClass) : Except Fault FreeLists := do
  let slots := (← lists.slotsOf sizeClass.level).unmark (← Bitmap.place sizeClass.slot)
  let levels ←
    if slots.isEmpty then pure (lists.levels.unmark (← Bitmap.place sizeClass.level))
    else pure lists.levels
  return { lists with slots := lists.slots.setIfInBounds sizeClass.level slots, levels }

/-- Put a block in front of the list for its size. -/
def insert (lists : FreeLists) (block size : Nat) : Except Fault FreeLists := do
  let sizeClass := SizeClass.ofSize size
  let rings ← (lists.rings.extend (nodeOf block + 1)).insertAfter (← sizeClass.index) (nodeOf block)
  { lists with rings }.mark sizeClass

/-- The block is on a list. -/
def isListed (lists : FreeLists) (block : Nat) : Bool :=
  match lists.rings.isAlone (nodeOf block) with
  | .ok alone => !alone
  | .error _ => false

/-- The node of a block, which has to be on a list. -/
def node (lists : FreeLists) (block : Nat) : Except Fault RingNode := do
  unless lists.isListed block do throw (.notOnFreeList block)
  lists.rings.node (nodeOf block)

/-- The head of the list for a size. -/
def head (lists : FreeLists) (size : Nat) : Except Fault RingNode := do
  lists.rings.node (← (SizeClass.ofSize size).index)

/-- Take a block off the list for its size. -/
def remove (lists : FreeLists) (block size : Nat) : Except Fault FreeLists := do
  let sizeClass := SizeClass.ofSize size
  let lists := { lists with rings := ← lists.rings.remove (nodeOf block) }
  if ← lists.rings.isAlone (← sizeClass.index) then lists.unmark sizeClass else return lists

/-- The first class with a member, at or after the given one. -/
def classFrom? (lists : FreeLists) (sizeClass : SizeClass) : Except Fault (Option SizeClass) := do
  if levelCount ≤ sizeClass.level then return none
  match (← lists.slotsOf sizeClass.level).firstFrom? (← Bitmap.place sizeClass.slot) with
  | some slot => return some { sizeClass with slot }
  | none =>
    match lists.levels.firstFrom? (sizeClass.level + 1) with
    | none => return none
    | some level => return some { level, slot := (← lists.slotsOf level).first }

/-- The first block of the first list whose blocks are all large enough. -/
def find? (lists : FreeLists) (size : Nat) : Except Fault (Option Nat) := do
  match ← lists.classFrom? (← SizeClass.searchFrom size) with
  | none => return none
  | some sizeClass => (← lists.rings.first? (← sizeClass.index)).mapM blockOf

/-- The blocks on the list of a class, in order. -/
def members (lists : FreeLists) (sizeClass : SizeClass) : Except Fault (List Nat) := do
  (← lists.rings.members (← sizeClass.index)).mapM blockOf

end FreeLists

end KernelMemory
