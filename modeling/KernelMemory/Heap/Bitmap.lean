import KernelMemory.Fault

/-!
# Bitmaps

Thirty-two marks, and the search for the first mark at or after a place. A mark is shifted to its
place, which has to be one of the thirty-two.
-/

set_option autoImplicit false
set_option relaxedAutoImplicit false

namespace KernelMemory

abbrev Bitmap : Type := BitVec 32

namespace Bitmap

/-- The place of a mark. -/
def place (number : Nat) : Except Fault Nat :=
  if number < 32 then .ok number else .error .shiftOverflow

def has (bitmap : Bitmap) (place : Nat) : Bool := bitmap.getLsbD place

def mark (bitmap : Bitmap) (place : Nat) : Bitmap := bitmap ||| (1#32 <<< place)

def unmark (bitmap : Bitmap) (place : Nat) : Bitmap := bitmap &&& ~~~(1#32 <<< place)

def isEmpty (bitmap : Bitmap) : Bool := bitmap == 0#32

/-- The first mark at or after a place. -/
def firstFrom? (bitmap : Bitmap) (place : Nat) : Option Nat :=
  (List.range' place (32 - place)).find? bitmap.has

/-- The place of the first mark, thirty-two if there is none. -/
def first (bitmap : Bitmap) : Nat := (bitmap.firstFrom? 0).getD 32

end Bitmap

end KernelMemory
