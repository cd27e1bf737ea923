/-!
# Byte counts as text

A count of bytes is shown in the largest unit it reaches, with two decimals. The count is first
rounded to 53 significant bits and the amount is then rounded to hundredths of the unit; both
roundings send a tie to the even neighbour.
-/

set_option autoImplicit false
set_option relaxedAutoImplicit false

namespace KernelMemory

-- Powers of numbers mean the same beside a library that has powers of its own.
attribute [local instance (high)] instPowNat

/-- The quotient rounded to the nearest number, a tie to the even one. -/
def roundDiv (number divisor : Nat) : Nat :=
  let quotient := number / divisor
  let twice := 2 * (number % divisor)
  if twice < divisor then quotient
  else if divisor < twice then quotient + 1
  else quotient + quotient % 2

/-- The nearest number with at most `bits` significant binary digits, a tie to the one whose last
such digit is zero. -/
def roundToBits (bits number : Nat) : Nat :=
  let shift := number.log2 + 1 - bits
  roundDiv number (2 ^ shift) * 2 ^ shift

inductive ByteUnit
  | byte
  | kib
  | mib
  | gib
  | tib
deriving DecidableEq, Repr

namespace ByteUnit

def size : ByteUnit → Nat
  | byte => 1
  | kib => 2 ^ (10 : Nat)
  | mib => 2 ^ (20 : Nat)
  | gib => 2 ^ (30 : Nat)
  | tib => 2 ^ (40 : Nat)

def symbol : ByteUnit → String
  | byte => "B"
  | kib => "KiB"
  | mib => "MiB"
  | gib => "GiB"
  | tib => "TiB"

/-- The largest unit that a count reaches. -/
def ofCount (count : Nat) : ByteUnit :=
  if count < kib.size then byte
  else if count < mib.size then kib
  else if count < gib.size then mib
  else if count < tib.size then gib
  else tib

end ByteUnit

/-- An amount of a unit, in hundredths. -/
structure ByteAmount where
  hundredths : Nat
  unit : ByteUnit
deriving DecidableEq, Repr

namespace ByteAmount

def ofCount (count : Nat) : ByteAmount where
  hundredths := roundDiv (100 * roundToBits 53 count) (ByteUnit.ofCount count).size
  unit := ByteUnit.ofCount count

/-- Single bytes are shown without decimals. -/
def text (amount : ByteAmount) : String :=
  let whole := amount.hundredths / 100
  let rest := amount.hundredths % 100
  match amount.unit with
  | .byte => s!"{whole} {amount.unit.symbol}"
  | _ => s!"{whole}.{rest / 10}{rest % 10} {amount.unit.symbol}"

end ByteAmount

/-- The text of a count of bytes, such as `1.50 MiB`. -/
def byteText (count : Nat) : String :=
  (ByteAmount.ofCount count).text

end KernelMemory
