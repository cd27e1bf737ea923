import KernelMemory.Fault

/-!
# Words

Addresses and sizes are numbers below `2 ^ 64`. They are kept as natural numbers, and every sum,
difference, product and shift that may leave the range is checked: it either gives the number or
faults (`add`, `sub`, `mul`, `power`), or answers `none` where the caller handles it (`add?`,
`sub?`, `mul?`).

The alignment functions clear the low bits of an address with a mask, which is rounding to a
multiple of the alignment because the alignment is a power of two.
-/

set_option autoImplicit false
set_option relaxedAutoImplicit false

namespace KernelMemory

-- Powers of numbers mean the same beside a library that has powers of its own.
attribute [local instance (high)] instPowNat

namespace Word

/-- The first number that does not fit into a word. -/
def limit : Nat := 2 ^ (64 : Nat)

def max : Nat := limit - 1

def add? (a b : Nat) : Option Nat :=
  if a + b < limit then some (a + b) else none

def sub? (a b : Nat) : Option Nat :=
  if b ≤ a then some (a - b) else none

def mul? (a b : Nat) : Option Nat :=
  if a * b < limit then some (a * b) else none

def add (a b : Nat) : Except Fault Nat :=
  if a + b < limit then .ok (a + b) else .error .addOverflow

def sub (a b : Nat) : Except Fault Nat :=
  if b ≤ a then .ok (a - b) else .error .subOverflow

theorem eq_of_sub_eq_ok {first second rest : Nat} (hrest : sub first second = .ok rest) :
    rest = first - second := by
  unfold sub at hrest
  split at hrest
  · exact (Except.ok.inj hrest).symm
  · cases hrest

/-- A part of the rest that is taken off leaves less. -/
theorem sub_add_lt {first second rest part : Nat} (hrest : sub first second = .ok rest)
    (hpos : 0 < part) (hpart : part ≤ rest) : first - (second + part) < first - second := by
  obtain rfl := eq_of_sub_eq_ok hrest
  omega

def mul (a b : Nat) : Except Fault Nat :=
  if a * b < limit then .ok (a * b) else .error .mulOverflow

/-- One shifted left: the amount has to be below the width of a word. -/
def power (exponent : Nat) : Except Fault Nat :=
  if exponent < 64 then .ok (1 <<< exponent) else .error .shiftOverflow

/-- All bits of a word that are not set in `mask`. -/
def complement (mask : Nat) : Nat := max - mask

def isPowerOfTwo (number : Nat) : Bool :=
  number != 0 && 2 ^ number.log2 == number

/-- The exponent of the least power of two that is at least `number`. -/
def ceilLog2 (number : Nat) : Nat :=
  if number ≤ 1 then 0 else (number - 1).log2 + 1

/-- The exponent of the least power of two that is at least `number`, which itself has to fit
into a word. -/
def exponentFor (number : Nat) : Except Fault Nat :=
  if ceilLog2 number < 64 then .ok (ceilLog2 number) else .error .addOverflow

/-- Round an address up to a multiple of a power of two; `none` if no word is large enough. -/
def alignUp (address align : Nat) : Except Fault (Option Nat) :=
  if isPowerOfTwo align then
    .ok ((add? address (align - 1)).map fun sum ↦ sum &&& complement (align - 1))
  else
    .error .alignmentNotPowerOfTwo

/-- Round an address down to a multiple of a power of two. -/
def alignDown (address align : Nat) : Except Fault Nat :=
  if isPowerOfTwo align then .ok (address &&& complement (align - 1))
  else .error .alignmentNotPowerOfTwo

end Word

end KernelMemory
