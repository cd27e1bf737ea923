import KernelMemory.Fault

/-!
# Allocation errors

The answers with which an allocator refuses a request. Those caused by an invalid argument are
given before anything is changed.
-/

set_option autoImplicit false
set_option relaxedAutoImplicit false

namespace KernelMemory

inductive AllocError
  | zeroSize
  | invalidAlignment
  | orderTooLarge
  | invalidConfig
  | noMemoryAvailable
  | invalidFrame
  | invalidPointer
  | misalignedRegion
deriving DecidableEq, Repr

namespace AllocError

def all : List AllocError :=
  [zeroSize, invalidAlignment, orderTooLarge, invalidConfig, noMemoryAvailable, invalidFrame,
    invalidPointer, misalignedRegion]

def name : AllocError → String
  | zeroSize => "ZeroSize"
  | invalidAlignment => "InvalidAlignment"
  | orderTooLarge => "OrderTooLarge"
  | invalidConfig => "InvalidConfig"
  | noMemoryAvailable => "NoMemoryAvailable"
  | invalidFrame => "InvalidFrame"
  | invalidPointer => "InvalidPointer"
  | misalignedRegion => "MisalignedRegion"

def ofName? (text : String) : Option AllocError :=
  all.find? fun error ↦ error.name == text

def message : AllocError → String
  | zeroSize => "tried to allocate zero bytes."
  | invalidAlignment => "alignment is not a power of two or exceeds the maximum alignment."
  | orderTooLarge => "tried to allocate an order that exceeded the maximum order."
  | invalidConfig => "the allocator configuration is inconsistent."
  | noMemoryAvailable => "tried to allocate, but there was no free memory left."
  | invalidFrame => "the frame does not belong to this allocator or is already free."
  | invalidPointer => "the pointer was not allocated by this heap or is already free."
  | misalignedRegion => "a page supplier returned a region that is not properly aligned."

def isOutOfMemory : AllocError → Bool
  | noMemoryAvailable => true
  | _ => false

/-- The request itself was wrong, so the allocator was left untouched. -/
def isInvalidArgument : AllocError → Bool
  | zeroSize | invalidAlignment | orderTooLarge | invalidConfig => true
  | _ => false

end AllocError

/-- A computation that gives a value, is refused or faults. -/
abbrev Checked := ExceptT AllocError (Except Fault)

end KernelMemory
