import KernelMemory.Act

/-!
# Page suppliers

A supplier hands out regions of memory and takes them back. It has a state of its own, and it may
use a world that it shares with others. What it gives need not be what was asked for: whoever
asks has to look at the region. It does not call other suppliers: of its own work no more than
notices are seen. `request` and `giveBack` are the calls as an observer sees them.
-/

set_option autoImplicit false
set_option relaxedAutoImplicit false

namespace KernelMemory

class PageSupplier (κ ω : Type) where
  supply : Nat → Act (κ × ω) Region
  /-- Take back the region that starts at an address. -/
  release : Nat → Act (κ × ω) Unit
  supply_quiet : ∀ size, (supply size).Quiet
  release_quiet : ∀ base, (release base).Quiet

namespace PageSupplier

variable {κ ω : Type} [PageSupplier κ ω]

/-- Ask for a region, which is seen together with the answer. -/
def request (size : Nat) : Act (κ × ω) Region := do
  match ← (supply size).settle with
  | .ok region =>
    Act.emit (.supplied size region)
    return region
  | .error error =>
    Act.emit (.refused size error)
    throw error

/-- Give a region back, which is seen and cannot be refused. -/
def giveBack (base : Nat) : Act (κ × ω) Unit := do
  let _ ← (release base).settle
  Act.emit (.released base)

end PageSupplier

end KernelMemory
