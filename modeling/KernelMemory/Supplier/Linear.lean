import KernelMemory.Supplier.Basic

/-!
# Linear suppliers

A supplier that walks once through a stretch of memory and never hands out an address twice. It
may move every region off its alignment, make it larger than asked for, and limit the number of
regions that are out at one time.
-/

set_option autoImplicit false
set_option relaxedAutoImplicit false

namespace KernelMemory

structure LinearSupplier where
  /-- The end of the region handed out last. -/
  next : Nat
  /-- Regions end at this address at the latest. -/
  stop : Nat
  align : Nat := 4096
  /-- Added to every base after it was aligned. -/
  skew : Nat := 0
  /-- Added to every size. -/
  extra : Nat := 0
  limit : Option Nat := none
  /-- The number of regions that are out. -/
  live : Nat := 0
deriving DecidableEq, Repr

namespace LinearSupplier

def isExhausted (supplier : LinearSupplier) : Bool :=
  match supplier.limit with
  | none => false
  | some limit => limit ≤ supplier.live

/-- The region that would be handed out next. -/
def nextRegion (supplier : LinearSupplier) (size : Nat) : Region where
  base := (supplier.next + supplier.align - 1) / supplier.align * supplier.align + supplier.skew
  size := size + supplier.extra

def take (supplier : LinearSupplier) (size : Nat) :
    Except AllocError Region × LinearSupplier :=
  let region := supplier.nextRegion size
  if supplier.isExhausted || supplier.stop < region.base + region.size then
    (.error .noMemoryAvailable, supplier)
  else
    (.ok region, { supplier with next := region.base + region.size, live := supplier.live + 1 })

instance {ω : Type} : PageSupplier LinearSupplier ω where
  supply size := fun state ↦
    let (answer, supplier) := state.1.take size
    ⟨.ok answer, (supplier, state.2), []⟩
  release _ := modify fun (supplier, world) ↦
    ({ supplier with live := supplier.live - 1 }, world)
  supply_quiet _ := Act.quiet_of_events_nil fun _ ↦ rfl
  release_quiet _ := Act.quiet_of_events_nil fun _ ↦ rfl

end LinearSupplier

end KernelMemory
