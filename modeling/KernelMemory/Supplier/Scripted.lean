import KernelMemory.Supplier.Basic

/-!
# Scripted suppliers

A supplier that gives the answers of a list in turn, whatever is asked for, and has no memory left
at the end of the list.
-/

set_option autoImplicit false
set_option relaxedAutoImplicit false

namespace KernelMemory

structure ScriptedSupplier where
  answers : List (Except AllocError Region)

namespace ScriptedSupplier

/-- The next answer and what is left of the list. -/
def next (supplier : ScriptedSupplier) : Except AllocError Region × ScriptedSupplier :=
  match supplier.answers with
  | [] => (.error .noMemoryAvailable, supplier)
  | answer :: answers => (answer, { answers })

instance {ω : Type} : PageSupplier ScriptedSupplier ω where
  supply _ := fun state ↦
    let (answer, supplier) := state.1.next
    ⟨.ok answer, (supplier, state.2), []⟩
  release _ := pure ()
  supply_quiet _ := Act.quiet_of_events_nil fun _ ↦ rfl
  release_quiet _ := Act.quiet_pure ()

end ScriptedSupplier

end KernelMemory
