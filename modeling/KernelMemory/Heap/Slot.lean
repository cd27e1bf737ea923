import KernelMemory.Heap.Basic

/-!
# Heap slots

A place for a heap that is set up at run time. Without a heap it has no memory and knows no
pointer. A new heap replaces the old one only when it has its first page; the old one then gives
all its pages back.
-/

set_option autoImplicit false
set_option relaxedAutoImplicit false

namespace KernelMemory

structure HeapSlot (κ ω : Type) where
  heap : Option (Heap κ) := none
  memory : Memory
  world : ω

namespace HeapSlot

variable {κ ω α : Type}

def isInitialized (slot : HeapSlot κ ω) : Bool := slot.heap.isSome

def stats? (slot : HeapSlot κ ω) : Option Stats := slot.heap.map Heap.stats

/-- An act on the world alone. -/
def onWorld (act : Act ω α) : Act (HeapSlot κ ω) α :=
  act.within world fun world slot ↦ { slot with world }

/-- Use the heap, if there is one. -/
def withHeap (missing : AllocError) (act : Act (HeapState κ ω) α) :
    Act (HeapSlot κ ω) α := do
  let some heap := (← get).heap | throw missing
  act.within (fun slot ↦ ⟨heap, slot.memory, slot.world⟩)
    fun state _ ↦ ⟨some state.heap, state.memory, state.world⟩

variable [PageSupplier κ ω]

/-- Set up a heap, which replaces the one there was. -/
def init (supplier : κ) (config : HeapConfig) : Act (HeapSlot κ ω) Unit := do
  let heap ← onWorld (Heap.create supplier config)
  let old := (← get).heap
  modify fun slot ↦ { slot with heap := some heap }
  if let some old := old then
    Act.note .heapReplaced
    let _ ← onWorld old.destruct

def allocate (size : Nat) : Act (HeapSlot κ ω) Nat :=
  withHeap .noMemoryAvailable (HeapState.allocate size)

def allocateAligned (size align : Nat) : Act (HeapSlot κ ω) Nat :=
  withHeap .noMemoryAvailable (HeapState.allocateAligned size align)

def deallocate (pointer : Nat) : Act (HeapSlot κ ω) Unit :=
  withHeap .invalidPointer (HeapState.deallocate pointer)

/-- End the heap, if there is one, and give its supplier. -/
def destruct : Act (HeapSlot κ ω) (Option κ) := do
  let some heap := (← get).heap | return none
  modify fun slot ↦ { slot with heap := none }
  return some (← onWorld heap.destruct)

end HeapSlot

end KernelMemory
