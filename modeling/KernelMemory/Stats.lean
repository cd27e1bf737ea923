import KernelMemory.ByteCount

/-!
# Allocation statistics

How many bytes an allocator has handed out, has left, and manages in all.
-/

set_option autoImplicit false
set_option relaxedAutoImplicit false

namespace KernelMemory

structure Stats where
  name : String
  allocated : Nat := 0
  free : Nat := 0
  total : Nat := 0
deriving DecidableEq, Repr

namespace Stats

/-- A line of tildes as long as the name. -/
def rule (stats : Stats) : String :=
  String.ofList (List.replicate stats.name.length '~')

def text (stats : Stats) : String :=
  String.join
    [stats.name, "\n", stats.rule,
      "\nAllocated: ", byteText stats.allocated,
      "\nFree: ", byteText stats.free,
      "\nTotal: ", byteText stats.total,
      "\n", stats.rule, "\n"]

end Stats

end KernelMemory
