/-!
# Faults

A fault ends a run: a word left its range, or something that the code relies on did not hold.
It is not an answer to the caller, so it is kept apart from the errors an allocator may return.
-/

set_option autoImplicit false
set_option relaxedAutoImplicit false

namespace KernelMemory

/-- The digits of a number in base sixteen, lower case, after `0x`. -/
def hexText (number : Nat) : String :=
  "0x" ++ String.ofList (Nat.toDigits 16 number)

inductive Fault
  | addOverflow
  | subOverflow
  | mulOverflow
  | shiftOverflow
  | alignmentNotPowerOfTwo
  | insertedAfterItself
  | alreadyLinked (node : Nat)
  | indexOutOfBounds (length index : Nat)
  /-- An index of an arena that holds no record. -/
  | noRecord (index : Nat)
  /-- The chain of vacant slots leads to a slot that is taken. -/
  | vacancyTaken (index : Nat)
  | notOnFreeList (block : Nat)
  | endlessChain (page : Nat)
  /-- A cut that would leave a piece too small to be a block. -/
  | pieceTooSmall (block : Nat)
  | cutOfUsedBlock (block : Nat)
  | notNeighbours (block next : Nat)
  | freeNeighbour (address : Nat)
  | missedMerge (frame : Nat)
deriving DecidableEq, Repr

namespace Fault

def message : Fault → String
  | addOverflow => "attempt to add with overflow"
  | subOverflow => "attempt to subtract with overflow"
  | mulOverflow => "attempt to multiply with overflow"
  | shiftOverflow => "attempt to shift left with overflow"
  | alignmentNotPowerOfTwo => "assertion failed: align.is_power_of_two()"
  | insertedAfterItself =>
    "assertion `left != right` failed: can't insert a node after itself"
  | alreadyLinked node => s!"node {node} is already linked"
  | indexOutOfBounds length index =>
    s!"index out of bounds: the len is {length} but the index is {index}"
  | noRecord index => s!"no record at arena index {index}"
  | vacancyTaken index => s!"vacant chain leads to the taken slot {index}"
  | notOnFreeList block => s!"block {block} is not on a free list"
  | endlessChain page => s!"the blocks of page {page} have no first block"
  | pieceTooSmall block => s!"cutting block {block} leaves a piece that is too small"
  | cutOfUsedBlock block => s!"block {block} is in use and cannot be cut"
  | notNeighbours block next => s!"block {next} does not follow block {block}"
  | freeNeighbour address => s!"free block at {hexText address} has a free neighbour"
  | missedMerge frame => s!"missed merge of frame {frame} with its buddy"

end Fault

end KernelMemory
