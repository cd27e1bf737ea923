/-!
# Memory

The words of memory, by the address of their first byte, and the tag in front of a payload: the
number of the block it belongs to and a mark that shows the block is in use. A tag is only a hint,
as anyone may have written over it.
-/

set_option autoImplicit false
set_option relaxedAutoImplicit false

namespace KernelMemory

-- Powers of numbers mean the same beside a library that has powers of its own.
attribute [local instance (high)] instPowNat

structure Memory where
  word : Nat → Nat

/-- What lies in front of a payload. -/
structure Tag where
  block : Nat
  mark : Nat
deriving DecidableEq, Repr

namespace Tag

/-- The mark of a block in use. -/
def liveMark : Nat := 0x57494e4459484541

def live (block : Nat) : Tag := ⟨block, liveMark⟩

def dead : Tag := ⟨2 ^ (64 : Nat) - 1, 0⟩

end Tag

namespace Memory

def blank : Memory := ⟨fun _ ↦ 0⟩

def write (memory : Memory) (address value : Nat) : Memory :=
  ⟨fun other ↦ if other = address then value else memory.word other⟩

def tagAt (memory : Memory) (address : Nat) : Tag :=
  ⟨memory.word address, memory.word (address + 8)⟩

def writeTag (memory : Memory) (address : Nat) (tag : Tag) : Memory :=
  (memory.write address tag.block).write (address + 8) tag.mark

end Memory

end KernelMemory
