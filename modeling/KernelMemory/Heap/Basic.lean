import KernelMemory.Heap.Layout
import KernelMemory.Heap.Memory
import KernelMemory.Stats
import KernelMemory.Supplier.Basic

/-!
# Heaps

A heap serves allocations of any size from the pages it got from its supplier. It asks for a page
when no free block reaches its watermark and when no free block is large enough, and it gives a
page back when more pages than it may spare are wholly free.

An allocation is known by the address of its payload. A pointer that comes back is checked against
the tag in front of it and against the block that the tag names, so that a wrong one is refused.
-/

set_option autoImplicit false
set_option relaxedAutoImplicit false

namespace KernelMemory

structure Heap (κ : Type) where
  layout : Layout := {}
  config : HeapConfig
  supplier : κ

/-- An allocation that can be tried: the size of the block it gets, the size of the free block to
look for, which leaves room to align the payload, and the alignment. -/
structure HeapRequest where
  need : Nat
  search : Nat
  align : Nat
deriving DecidableEq, Repr

namespace HeapRequest

/-- The size of the block for a payload, with its tag. -/
def blockSize (size : Nat) : Checked Nat := do
  let some payload ← Word.alignUp size blockAlign | throw .noMemoryAvailable
  let some padded := Word.add? payload headerSize | throw .noMemoryAvailable
  let need ← roundUp padded
  if maxBlockSize < need then throw .noMemoryAvailable
  return need

/-- Check an allocation before anything is done for it. -/
def check (config : HeapConfig) (size align : Nat) : Checked HeapRequest := do
  if size = 0 then throw .zeroSize
  if !Word.isPowerOfTwo align || config.maxAlign < align then throw .invalidAlignment
  let align := max align blockAlign
  let need ← blockSize size
  let search ←
    if blockAlign < align then
      (do Word.add (← Word.add need align) minBlockSize : Except Fault Nat)
    else pure need
  if maxBlockSize < search then throw .noMemoryAvailable
  return { need, search, align }

end HeapRequest

namespace Heap

variable {κ ω : Type}

/-- A heap beside the world that its supplier shares with others. -/
abbrev Site (κ ω : Type) : Type := Heap κ × ω

def pageCount (heap : Heap κ) : Nat := heap.layout.pages.size

def stats (heap : Heap κ) : Stats where
  name := "Heap"
  allocated := heap.layout.total - heap.layout.free
  free := heap.layout.free
  total := heap.layout.total

/-- The block in use whose payload starts at a pointer. The tag has to name a block, and the block
has to be one that is in use at this place. -/
def locate? (heap : Heap κ) (memory : Memory) (pointer : Nat) : Option Nat := do
  let address ← Word.sub? pointer headerSize
  guard (address % blockAlign = 0)
  let tag := memory.tagAt address
  guard (tag.mark = Tag.liveMark)
  let block ← heap.layout.blocks.get? tag.block
  guard (block.address = address && !block.isFree && !block.isSentinel)
  return tag.block

/-- Take a step of the layout. -/
def step {α : Type} (change : Layout → Except Fault (α × Layout)) : Act (Site κ ω) α := do
  let (heap, world) ← get
  let (value, layout) ← change heap.layout
  set ({ heap with layout }, world)
  return value

/-- An act of the supplier of a heap. -/
def onSupplier {α : Type} (act : Act (κ × ω) α) : Act (Site κ ω) α :=
  act.within (fun site ↦ (site.1.supplier, site.2))
    fun state site ↦ ({ site.1 with supplier := state.1 }, state.2)

def findFree? (size : Nat) : Act (Site κ ω) (Option Nat) := do
  let (heap, _) ← get
  heap.layout.findFree? size

variable [PageSupplier κ ω]

/-- Make a page out of a region. A region that cannot be used is given back. -/
def addRegion (region : Region) : Act (Site κ ω) Unit := do
  if region.base % blockAlign ≠ 0 || region.base = 0 then
    Act.note (.regionMisaligned region.base)
    onSupplier (PageSupplier.giveBack region.base)
    throw .misalignedRegion
  let size ← Word.alignDown (min region.size maxBlockSize) blockAlign
  if size < minBlockSize then
    onSupplier (PageSupplier.giveBack region.base)
    throw .noMemoryAvailable
  step fun layout ↦ return ((), ← layout.addPage region.base size)
  Act.note (.pageAdded region.base size)

/-- Ask the supplier for a page of at least the given size. -/
def grow (size : Nat) : Act (Site κ ω) Unit := do
  let (heap, _) ← get
  addRegion (← onSupplier (PageSupplier.request (max size heap.config.pageSize)))

/-- Ask for a page if no free block reaches the watermark. To get none is no failure, as the
blocks there are may do. -/
def growIfLow : Act (Site κ ω) Unit := do
  let (heap, _) ← get
  if (← findFree? heap.config.growWatermark).isNone then
    match ← (grow heap.config.pageSize).settle with
    | .ok () => return ()
    | .error error => Act.note (.watermarkNotReached error)

/-- A free block of at least the given size, if need be from a page made for it. -/
def findOrGrow (size : Nat) : Act (Site κ ω) Nat := do
  match ← findFree? size with
  | some block => return block
  | none =>
    let .ok () ← (grow (← roundUp size)).settle | throw .noMemoryAvailable
    let some block ← findFree? size | throw .noMemoryAvailable
    return block

/-- Give a page that is one free block back to the supplier. -/
def releasePage (index : Nat) : Act (Site κ ω) Unit := do
  let page ← step fun layout ↦ layout.dropPage index
  Act.note (.pageReleased page.base page.size)
  onSupplier (PageSupplier.giveBack page.base)

/-- A heap with its first page. -/
def create (supplier : κ) (config : HeapConfig) : Act ω (Heap κ) := do
  config.validate
  let firstGrowth : Act ω (Heap κ) := fun world ↦
    let outcome := grow config.pageSize ({ config, supplier }, world)
    ⟨outcome.answer.map fun settled ↦ settled.map fun () ↦ outcome.state.1, outcome.state.2,
      outcome.events⟩
  firstGrowth

/-- End a heap: all its pages go back, and the supplier is given. -/
def destruct (heap : Heap κ) : Act ω κ := fun world ↦
  let giveBackAll : Act (κ × ω) κ := do
    heap.layout.pages.toList.forM fun (_, page) ↦ do
      Act.note (.pageDropped page.base)
      PageSupplier.giveBack page.base
    return (← get).1
  let outcome := giveBackAll (heap.supplier, world)
  ⟨outcome.answer, outcome.state.2, outcome.events⟩

end Heap

/-- A heap with the memory it works on and the world that its supplier shares with others. -/
structure HeapState (κ ω : Type) where
  heap : Heap κ
  memory : Memory
  world : ω

namespace HeapState

variable {κ ω : Type}

/-- An act that leaves memory alone. -/
def onSite {α : Type} (act : Act (Heap.Site κ ω) α) : Act (HeapState κ ω) α :=
  act.within (fun state ↦ (state.heap, state.world))
    fun site state ↦ { state with heap := site.1, world := site.2 }

def writeTag (address : Nat) (tag : Tag) : Act (HeapState κ ω) Unit :=
  modify fun state ↦ { state with memory := state.memory.writeTag address tag }

/-- The block in use behind a pointer; a pointer that has none is noted and refused. -/
def locate (pointer : Nat) : Act (HeapState κ ω) Nat := do
  let state ← get
  match state.heap.locate? state.memory pointer with
  | some block => return block
  | none =>
    Act.note (.invalidPointer pointer)
    throw .invalidPointer

/-- The number of bytes that can be used behind a pointer. -/
def usableSize (pointer : Nat) : Act (HeapState κ ω) Nat := do
  let block ← locate pointer
  let block ← (← get).heap.layout.block block
  Word.sub block.size headerSize

variable [PageSupplier κ ω]

/-- Allocate `size` bytes at an address that is a multiple of `align`. -/
def allocateAligned (size align : Nat) : Act (HeapState κ ω) Nat := do
  let request ← HeapRequest.check (← get).heap.config size align
  onSite Heap.growIfLow
  let block ← onSite (Heap.findOrGrow request.search)
  let block ← onSite (Heap.step fun layout ↦ layout.take block request.need request.align)
  let address := (← (← get).heap.layout.block block).address
  writeTag address (.live block)
  Word.add address headerSize

/-- Allocate `size` bytes. -/
def allocate (size : Nat) : Act (HeapState κ ω) Nat := allocateAligned size blockAlign

/-- Free the allocation at a pointer. The null pointer stands for no allocation. -/
def deallocate (pointer : Nat) : Act (HeapState κ ω) Unit := do
  if pointer = 0 then return
  let block ← locate pointer
  writeTag (← (← get).heap.layout.block block).address .dead
  if let some page ← onSite (Heap.step fun layout ↦ layout.reclaim block) then
    let heap := (← get).heap
    if heap.config.sparePages < heap.layout.freePages then
      onSite (Heap.releasePage page)

end HeapState

end KernelMemory
