import KernelMemory.Frames.Pool
import KernelMemory.Supplier.Basic

/-!
# Pages backed by frames

A supplier that takes blocks of frames out of a pool. Every frame is seen at its own address plus
an offset, the same for all.
-/

set_option autoImplicit false
set_option relaxedAutoImplicit false

namespace KernelMemory

structure FrameSupplier where
  offset : Nat
deriving DecidableEq, Repr

namespace FrameSupplier

def supply (supplier : FrameSupplier) (size : Nat) : Act FrameAllocator Region := do
  let order ← orderForSize size
  if orderCount ≤ order then throw .orderTooLarge
  let frame ← FramePool.allocate order
  let address ← (← get).addressOf frame
  return { base := ← Word.add address supplier.offset, size := ← sizeOfOrder order }

/-- A region that is not a block of the pool is left alone. -/
def release (supplier : FrameSupplier) (base : Nat) : Act FrameAllocator Unit := do
  let frames ← get
  match (Word.sub? base supplier.offset).bind frames.frameAt? with
  | none => Act.note (.regionUnknown base)
  | some frame =>
    match ← (FramePool.free frame).settle with
    | .ok () => return ()
    | .error error => Act.note (.regionNotFreed base error)

theorem quiet_supply (supplier : FrameSupplier) (size : Nat) : (supplier.supply size).Quiet := by
  unfold supply
  refine (Act.quiet_ofChecked _).bind fun order ↦ ?_
  split
  · exact Act.quiet_of_events_nil fun _ ↦ rfl
  · refine (FramePool.quiet_allocate order).bind fun frame ↦ Act.quiet_get.bind fun frames ↦ ?_
    refine (Act.quiet_ofChecked _).bind fun address ↦ (Act.quiet_ofChecked _).bind fun base ↦ ?_
    exact (Act.quiet_ofChecked _).bind fun _ ↦ Act.quiet_pure _

theorem quiet_release (supplier : FrameSupplier) (base : Nat) :
    (supplier.release base).Quiet := by
  unfold release
  refine Act.quiet_get.bind fun frames ↦ ?_
  split
  · exact Act.quiet_note _
  · refine (FramePool.quiet_free _).settle.bind fun settled ↦ ?_
    cases settled with
    | ok freed => exact Act.quiet_pure _
    | error error => exact Act.quiet_note _

instance : PageSupplier FrameSupplier FrameAllocator where
  supply size := fun state ↦
    (state.1.supply size).within Prod.snd (fun frames state ↦ (state.1, frames)) state
  release base := fun state ↦
    (state.1.release base).within Prod.snd (fun frames state ↦ (state.1, frames)) state
  supply_quiet size := fun state ↦ (quiet_supply state.1 size).within Prod.snd _ state
  release_quiet base := fun state ↦ (quiet_release state.1 base).within Prod.snd _ state

end FrameSupplier

end KernelMemory
