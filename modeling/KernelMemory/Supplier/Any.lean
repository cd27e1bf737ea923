import KernelMemory.Supplier.Frames
import KernelMemory.Supplier.Linear
import KernelMemory.Supplier.Scripted

/-!
# Any supplier

One of the three kinds of suppliers, chosen at run time, beside a pool of frames that the kind
backed by frames takes its blocks from.
-/

set_option autoImplicit false
set_option relaxedAutoImplicit false

namespace KernelMemory

inductive AnySupplier
  | scripted (supplier : ScriptedSupplier)
  | linear (supplier : LinearSupplier)
  | frames (supplier : FrameSupplier)

namespace AnySupplier

/-- An act of a supplier of one kind, beside the pool. -/
def ofKind {κ α : Type} (kind : κ → AnySupplier) (supplier : κ) (act : Act (κ × FrameAllocator) α) :
    Act (AnySupplier × FrameAllocator) α :=
  act.within (fun state ↦ (supplier, state.2)) fun state _ ↦ (kind state.1, state.2)

theorem quiet_ofKind {κ α : Type} {act : Act (κ × FrameAllocator) α} (hact : act.Quiet)
    (kind : κ → AnySupplier) (supplier : κ) : (ofKind kind supplier act).Quiet :=
  hact.within _ _

instance : PageSupplier AnySupplier FrameAllocator where
  supply size := fun state ↦
    match state.1 with
    | scripted supplier => ofKind scripted supplier (PageSupplier.supply size) state
    | linear supplier => ofKind linear supplier (PageSupplier.supply size) state
    | frames supplier => ofKind frames supplier (PageSupplier.supply size) state
  release base := fun state ↦
    match state.1 with
    | scripted supplier => ofKind scripted supplier (PageSupplier.release base) state
    | linear supplier => ofKind linear supplier (PageSupplier.release base) state
    | frames supplier => ofKind frames supplier (PageSupplier.release base) state
  supply_quiet size := fun (supplier, _) ↦
    match supplier with
    | scripted _ => quiet_ofKind (PageSupplier.supply_quiet size) _ _ _
    | linear _ => quiet_ofKind (PageSupplier.supply_quiet size) _ _ _
    | frames _ => quiet_ofKind (PageSupplier.supply_quiet size) _ _ _
  release_quiet base := fun (supplier, _) ↦
    match supplier with
    | scripted _ => quiet_ofKind (PageSupplier.release_quiet base) _ _ _
    | linear _ => quiet_ofKind (PageSupplier.release_quiet base) _ _ _
    | frames _ => quiet_ofKind (PageSupplier.release_quiet base) _ _ _

end AnySupplier

end KernelMemory
