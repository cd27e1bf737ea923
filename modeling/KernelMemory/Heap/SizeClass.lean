import KernelMemory.Word

/-!
# Size classes

Block sizes are sorted into classes, each with a level and a slot within the level. Sizes below
`smallSize` share level zero, in slots one alignment step wide. Every further level holds the
sizes with one highest bit, divided into slots of equal width by the bits that follow it. Rounding
a size up to the start of a class makes every block of that class, and of each later one, large
enough for it.
-/

set_option autoImplicit false
set_option relaxedAutoImplicit false

namespace KernelMemory

-- Powers of numbers mean the same beside a library that has powers of its own.
attribute [local instance (high)] instPowNat

def alignShift : Nat := 4

/-- Block addresses and block sizes are multiples of this. -/
def blockAlign : Nat := 2 ^ alignShift

def slotBits : Nat := 4

/-- The number of slots of a level. -/
def slotCount : Nat := 2 ^ slotBits

def smallShift : Nat := slotBits + alignShift

/-- Sizes below this are on level zero. -/
def smallSize : Nat := 2 ^ smallShift

/-- The highest bit that a block size may have. -/
def maxSizeBit : Nat := 32

def maxBlockSize : Nat := 2 ^ maxSizeBit

def levelCount : Nat := maxSizeBit - smallShift + 2

/-- The number of classes that have a free list. -/
def classCount : Nat := levelCount * slotCount

structure SizeClass where
  level : Nat
  slot : Nat
deriving DecidableEq, Repr

/-- Classes on the level of a size start `2 ^ slotShift size` bytes apart. -/
def slotShift (size : Nat) : Nat := size.log2 - slotBits

namespace SizeClass

/-- The class of a block with the given size. -/
def ofSize (size : Nat) : SizeClass :=
  if size < smallSize then ⟨0, size / (smallSize / slotCount)⟩
  else ⟨size.log2 - smallShift + 1, (size >>> slotShift size) ^^^ slotCount⟩

end SizeClass

/-- The smallest size that starts a class and is at least `size`. -/
def roundUp (size : Nat) : Except Fault Nat :=
  if size < smallSize then
    .ok ((size + blockAlign - 1) &&& Word.complement (blockAlign - 1))
  else do
    let round := 1 <<< slotShift size - 1
    return (← Word.add size round) &&& Word.complement round

namespace SizeClass

/-- The first class whose blocks are all large enough for `size`. -/
def searchFrom (size : Nat) : Except Fault SizeClass := do
  return ofSize (← roundUp size)

/-- The place of a class in a row of all classes. -/
def index (sizeClass : SizeClass) : Except Fault Nat := do
  Word.add (← Word.mul sizeClass.level slotCount) sizeClass.slot

end SizeClass

end KernelMemory
