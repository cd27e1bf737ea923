import KernelMemory.Word

/-!
# Orders

A block of order `k` spans `2 ^ k` frames. Two blocks of one order are buddies if the numbers of
their first frames differ only in the bit for that order; together they make a block of the next
order.
-/

set_option autoImplicit false
set_option relaxedAutoImplicit false

namespace KernelMemory

-- Powers of numbers mean the same beside a library that has powers of its own.
attribute [local instance (high)] instPowNat

/-- The size of a frame in bytes. -/
def frameSize : Nat := 4096

/-- The number of orders, from zero on. -/
def orderCount : Nat := 11

/-- The largest order of a block. -/
def topOrder : Nat := orderCount - 1

/-- The number of frames in a block. -/
def framesOfOrder (order : Nat) : Except Fault Nat := Word.power order

/-- The size of a block in bytes. -/
def sizeOfOrder (order : Nat) : Except Fault Nat := do
  Word.mul (← framesOfOrder order) frameSize

/-- The least order whose blocks have room for `size` bytes, which may be larger than any that
is handed out. -/
def orderForSize (size : Nat) : Except Fault Nat := do
  let padded ← Word.add (max size 1) frameSize
  Word.exponentFor ((padded - 1) / frameSize)

/-- The first frame of the buddy of a block. -/
def buddyOf (frame order : Nat) : Nat := frame ^^^ 2 ^ order

end KernelMemory
