import KernelMemory.Proofs.Heap.Growth

/-!
# Heap requests

An allocation that is granted takes a new block with room for the payload and writes the tag in
front of it (`HeapState.ensures_allocateAligned`). One that is refused leaves memory and the blocks
in use as they were.
-/

set_option autoImplicit false
set_option relaxedAutoImplicit false

namespace KernelMemory

/-- The payload of a block starts at an address. -/
theorem Layout.Settled.payload_lt {layout : Layout} (hsettled : layout.Settled) {index : Nat}
    {block : Block} (hblock : layout.blocks.get? index = some block)
    (hmin : minBlockSize ≤ block.size) : block.address + headerSize < Word.limit := by
  obtain ⟨page, hpage, hlast⟩ := hsettled.shaped.tiled.end_le _ _ hblock
  have husable := hsettled.shaped.tiled.usable _ _ hpage
  have hlt := husable.end_lt
  rw [minBlockSize_eq] at hmin
  rw [headerSize_eq]
  omega

namespace Heap

variable {κ ω : Type} [PageSupplier κ ω] {contract : Contract κ ω} {config : HeapConfig}
  {used : Set UsedBlock}

/-- A large free block has room for a block in use. -/
theorem gives_take {request : HeapRequest} {size align index : Nat}
    (hserves : request.Serves size align) :
    Act.Gives contract.terms (fun site log ↦ KeepsUnder contract config used site log ∧
        ∃ block, site.1.layout.blocks.get? index = some block ∧ block.isFree = true ∧
          request.search ≤ block.size)
      (step fun layout ↦ layout.take index request.need request.align)
      fun taken site log ↦ ∃ block : UsedBlock, block.index = taken ∧ block ∉ used ∧
        request.need ≤ block.size ∧ (block.address + headerSize) % request.align = 0 ∧
        (∃ record, site.1.layout.blocks.get? taken = some record ∧
          record.address = block.address) ∧ block.address + headerSize < Word.limit ∧
        KeepsUnder contract config (insert block used) site log := by
  intro site log hpre hadmits
  obtain ⟨⟨⟨hconfig, hvalid, hsettled, rfl, hbacked, hbalanced⟩, hholds⟩, block, hblock, hfree,
    hsize⟩ := hpre
  obtain ⟨taken, part, after, htake, hsettledAfter, hpart, hnew, hused, hpages, hle, -, haligned,
    -⟩ := hsettled.take hblock hfree hserves.need (hserves.need_le.trans hsize)
      (hserves.room.imp_right fun hroom ↦ hroom.trans hsize)
  refine (gives_step_of_eq htake site log ⟨hconfig, rfl, hholds, rfl, hbalanced⟩ hadmits).mono
    fun answer site log hgiven ↦ ?_
  obtain ⟨value, rfl, rfl, hat⟩ := hgiven
  have hend := hsettledAfter.payload_lt hpart (hserves.need.min_le.trans hle)
  refine ⟨value, rfl, ⟨value, part.address, part.size⟩, rfl, hnew, hle, haligned, ?_, hend, ?_⟩
  · rw [hat.layout_eq]
    exact ⟨part, hpart, rfl⟩
  · rw [← hused]
    refine hat.keeps hvalid hsettledAfter ?_
    rw [hpages]
    exact hbacked

end Heap

namespace HeapState

variable {κ ω α : Type} {config : HeapConfig} {memory : Memory} {used : Set UsedBlock}

/-- Memory holds something, and something is known of the heap. -/
def Beside (memory : Memory) (condition : Heap.Site κ ω → List Event → Prop)
    (state : HeapState κ ω) (log : List Event) : Prop :=
  state.memory = memory ∧ condition (state.heap, state.world) log

section Site

variable {terms : Terms} {pre : Heap.Site κ ω → List Event → Prop} {act : Act (Heap.Site κ ω) α}

/-- An act of the heap leaves memory alone. -/
theorem ensures_onSite {post : Except AllocError α → Heap.Site κ ω → List Event → Prop}
    (hact : Act.Ensures terms pre act post) :
    Act.Ensures terms (Beside memory pre) (onSite act)
      fun answer ↦ Beside memory (post answer) := by
  unfold onSite
  refine Act.ensures_within fun state ↦ ?_
  intro site log hpre hadmits
  obtain ⟨rfl, hmemory, hstate⟩ := hpre
  exact (hact _ log hstate hadmits).mono fun answer site log hpost ↦ ⟨hmemory, hpost⟩

theorem gives_onSite {post : α → Heap.Site κ ω → List Event → Prop}
    (hact : Act.Gives terms pre act post) :
    Act.Gives terms (Beside memory pre) (onSite act) fun value ↦ Beside memory (post value) := by
  refine Act.Ensures.mono (ensures_onSite hact) (fun _ _ hpre ↦ hpre)
    fun answer state log hpost ↦ ?_
  obtain ⟨hmemory, value, heq, hvalue⟩ := hpost
  exact ⟨value, heq, hmemory, hvalue⟩

theorem gives_writeTag (address : Nat) (tag : Tag) :
    Act.Gives terms (Beside memory pre) (writeTag address tag)
      fun _ ↦ Beside (memory.writeTag address tag) pre := by
  unfold writeTag
  refine Act.gives_modify fun state log hstate ↦ ⟨?_, hstate.2⟩
  rw [hstate.1]

end Site

variable [PageSupplier κ ω] {contract : Contract κ ω}

/-- What an allocation gives: a new block with room for the payload, whose tag is written. -/
structure Allocated (contract : Contract κ ω) (config : HeapConfig) (memory : Memory)
    (used : Set UsedBlock) (size align pointer : Nat) (state : HeapState κ ω)
    (log : List Event) : Prop where
  block : ∃ block : UsedBlock, block ∉ used ∧ pointer = block.address + headerSize ∧
    size + headerSize ≤ block.size ∧
    Beside (memory.writeTag block.address (.live block.index))
      (Heap.KeepsUnder contract config (insert block used)) state log
  aligned : pointer % max align blockAlign = 0

/-- Sizes beyond half the range of a word may fault, if that is forgiven. -/
theorem ensures_allocateAligned {size : Nat} (align : Nat)
    (hsize : size ≤ 2 ^ 63 ∨ ∀ fault, contract.terms.Forgives fault) :
    Act.Ensures contract.terms (Beside memory (Heap.KeepsUnder contract config used))
      (allocateAligned size align) fun answer ↦ match answer with
        | .ok pointer => Allocated contract config memory used size align pointer
        | .error _ => Beside memory (Heap.KeepsUnder contract config used) := by
  unfold allocateAligned
  refine Act.gives_get.bind fun read ↦ ?_
  intro state log hpre
  obtain ⟨rfl, hstate⟩ := hpre
  have hvalid : read.heap.config.Consistent := hstate.2.config_eq ▸ hstate.2.valid
  have hcheckFault : ∀ fault, (HeapRequest.check read.heap.config size align).run = .error fault →
      contract.terms.Forgives fault := by
    intro fault hfault
    refine hsize.elim (fun hle ↦ ?_) fun hforgives ↦ hforgives fault
    obtain ⟨answer, hanswer⟩ := HeapRequest.exists_check hvalid hle align
    rw [ExceptT.run, hanswer] at hfault
    cases hfault
  refine ((Act.ensures_ofChecked hcheckFault).bind (fun request ↦
    Act.ensures_of_fact fun hcheck ↦ ?_) fun _ _ _ hpre ↦ hpre.2) read log hstate
  have hserves := HeapRequest.check_spec hcheck
  refine (ensures_onSite Heap.ensures_growIfLow).bind (fun _ ↦ ?_) fun _ _ _ hpre ↦ hpre
  refine (ensures_onSite (Heap.ensures_findOrGrow hserves.search_le)).bind (fun index ↦ ?_)
    fun _ _ _ hpre ↦ ⟨hpre.1, hpre.2.1⟩
  refine Act.Ensures.of_pre ((gives_onSite (Heap.gives_take hserves)).bind fun taken ↦ ?_)
    fun state log hpre ↦ ⟨hpre.1, hpre.2.1, hpre.2.2 index rfl⟩
  refine Act.gives_get.bind fun read ↦ ?_
  intro state log hpre
  obtain ⟨rfl, hmemory, block, rfl, hnew, hneed, haligned, ⟨found, hfound, haddress⟩, hend,
    hkeeps⟩ := hpre
  rw [Layout.block_eq hfound, Act.lift_ok_bind_run, haddress]
  have hpointer : Word.add block.address headerSize = .ok (block.address + headerSize) :=
    if_pos hend
  refine ((gives_writeTag block.address (.live block.index)).bind fun _ ↦
    (Act.gives_lift_of_eq hpointer).ensures fun pointer state log hgiven ↦ ?_) read log
      ⟨hmemory, hkeeps⟩
  obtain ⟨rfl, hstate⟩ := hgiven
  refine ⟨⟨block, hnew, rfl, hserves.size_le.trans hneed, hstate⟩, ?_⟩
  rw [← hserves.align_eq]
  exact haligned

end HeapState

end KernelMemory
