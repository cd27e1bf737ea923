import KernelMemory.Act
import KernelMemory.Frames.Allocator

/-!
# Frame pools

A frame allocator that is shared by several users, each of which acts on it in turn, and that
notes what is done.
-/

set_option autoImplicit false
set_option relaxedAutoImplicit false

namespace KernelMemory

namespace FramePool

/-- Set up a pool of `count` frames, the first of which is at address `base`. -/
def create {σ : Type} (base count : Nat) : Act σ FrameAllocator := do
  FrameAllocator.checkPlace base count
  let (blocks, frames) ← FrameAllocator.fill base count
  blocks.forM fun block ↦ Act.note (.framesAdded block.start block.order)
  return frames

def allocate (order : Nat) : Act FrameAllocator Nat := do
  let (frame, frames) ← (← get).allocate order
  set frames
  Act.note (.frameAllocated frame order)
  return frame

def allocatePages (count : Nat) : Act FrameAllocator Nat := do
  if count = 0 then throw .zeroSize
  allocate (← Word.exponentFor count)

def free (frame : Nat) : Act FrameAllocator Unit := do
  match ← (Act.ofChecked ((← get).free frame)).settle with
  | .ok (block, frames) =>
    set frames
    Act.note (.frameFreed frame block.order)
  | .error error =>
    Act.note (.invalidFrame frame)
    throw error

theorem quiet_allocate (order : Nat) : (allocate order).Quiet := by
  unfold allocate
  refine Act.quiet_get.bind fun frames ↦ (Act.quiet_ofChecked _).bind fun granted ↦ ?_
  exact (Act.quiet_set _).bind fun _ ↦ (Act.quiet_note _).bind fun _ ↦ Act.quiet_pure _

theorem quiet_free (frame : Nat) : (free frame).Quiet := by
  unfold free
  refine Act.quiet_get.bind fun frames ↦ (Act.quiet_ofChecked _).settle.bind fun settled ↦ ?_
  cases settled with
  | ok freed => exact (Act.quiet_set _).bind fun _ ↦ Act.quiet_note _
  | error error => exact (Act.quiet_note _).bind fun _ ↦ Act.quiet_throw _

end FramePool

end KernelMemory
