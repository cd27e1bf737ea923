import KernelMemory.Proofs.Heap.Requests

/-!
# Pointers

Which pointers a heap takes for those of its blocks in use. Whatever memory holds, such a pointer is
that of a block in use with its tag in front (`Heap.locate?_eq_some_iff`); any other one is refused,
and nothing is changed by that.

A deallocation may give the page behind the pointer back. That page has a region of its own, which
is out, so all that may keep the deallocation from its end is a supplier that faults when it is
given back a region that it handed out (`HeapState.FaultsGivingBack`).
-/

set_option autoImplicit false
set_option relaxedAutoImplicit false

namespace KernelMemory

namespace Heap

variable {κ : Type} {heap : Heap κ} {memory : Memory} {pointer index : Nat}

theorem tag_eq_live_iff {tag : Tag} :
    tag = .live index ↔ tag.mark = Tag.liveMark ∧ tag.block = index := by
  obtain ⟨block, mark⟩ := tag
  simp only [Tag.live, Tag.mk.injEq]
  exact and_comm

/-- The pointers that are known are those of the blocks in use whose tag is in place. -/
theorem locate?_eq_some_iff (hsettled : heap.layout.Settled) :
    heap.locate? memory pointer = some index ↔
      ∃ block ∈ usedBlocks heap.layout.blocks.get?, block.index = index ∧
        pointer = block.address + headerSize ∧ memory.tagAt block.address = .live index := by
  simp only [locate?, Option.bind_eq_bind, Option.bind_eq_some_iff, Option.guard_eq_some',
    Option.pure_def, Option.some.injEq, exists_const, Bool.and_eq_true, decide_eq_true_eq,
    Bool.not_eq_true']
  constructor
  · rintro ⟨address, haddress, -, hmark, block, hblock, ⟨⟨rfl, hused⟩, hsize⟩, rfl⟩
    unfold Word.sub? at haddress
    split_ifs at haddress with hle
    refine ⟨⟨_, block.address, block.size⟩, ⟨block, hblock, hused, ?_, rfl, rfl⟩, rfl, ?_, ?_⟩
    · exact beq_eq_false_iff_ne.mp hsize
    · have heq := Option.some.inj haddress
      show pointer = block.address + headerSize
      omega
    · exact tag_eq_live_iff.mpr ⟨hmark, rfl⟩
  · rintro ⟨⟨number, address, size⟩, ⟨block, hblock, hused, hsize, rfl, rfl⟩, rfl, rfl, htag⟩
    obtain ⟨hmark, hnumber⟩ := tag_eq_live_iff.mp htag
    refine ⟨block.address, ?_, ?_, hmark, block, ?_, ⟨⟨rfl, hused⟩, ?_⟩, hnumber⟩
    · unfold Word.sub?
      rw [if_pos (Nat.le_add_left _ _)]
      exact congrArg some (Nat.add_sub_cancel _ _)
    · exact Nat.mod_eq_zero_of_dvd (hsettled.shaped.tiled.start hblock).1
    · rw [hnumber]
      exact hblock
    · exact beq_eq_false_iff_ne.mpr hsize

end Heap

/-- The page, if there is one, is the one behind the pointer, and one free block. -/
def Layout.IsSpare (layout : Layout) (pointer : Nat) (spare : Option Nat) : Prop :=
  ∀ number, spare = some number → ∃ first block page,
    Droppable layout.blocks.get? layout.pages.get? first block page ∧ block.page = number ∧
      pointer ∈ Set.Ico page.base (page.base + page.size)

namespace HeapState

variable {κ ω : Type} {state : HeapState κ ω} {pointer index : Nat} {block : UsedBlock}

/-- The tag of a block in use is in place. -/
def IsTagged (state : HeapState κ ω) (block : UsedBlock) : Prop :=
  state.memory.tagAt block.address = .live block.index

theorem locate_of_none (hnone : state.heap.locate? state.memory pointer = none) :
    locate pointer state =
      ⟨.ok (.error .invalidPointer), state, [.noted (.invalidPointer pointer)]⟩ := by
  unfold locate
  rw [Act.get_bind_run]
  simp only [hnone]
  rfl

theorem locate_of_some (hsome : state.heap.locate? state.memory pointer = some index) :
    locate pointer state = ⟨.ok (.ok index), state, []⟩ := by
  unfold locate
  rw [Act.get_bind_run]
  simp only [hsome]
  rfl

/-! ### The usable size -/

theorem usableSize_of_none (hnone : state.heap.locate? state.memory pointer = none) :
    usableSize pointer state =
      ⟨.ok (.error .invalidPointer), state, [.noted (.invalidPointer pointer)]⟩ := by
  unfold usableSize
  rw [Act.bind_run_of_refused (locate_of_none hnone)]

section Used

variable (hsettled : state.heap.layout.Settled)
  (hused : block ∈ usedBlocks state.heap.layout.blocks.get?) (htag : state.IsTagged block)

include hsettled hused htag

theorem locate_of_used :
    locate (block.address + headerSize) state = ⟨.ok (.ok block.index), state, []⟩ :=
  locate_of_some ((Heap.locate?_eq_some_iff hsettled).mpr ⟨block, hused, rfl, rfl, htag⟩)

theorem usableSize_of_used : usableSize (block.address + headerSize) state =
    ⟨.ok (.ok (block.size - headerSize)), state, []⟩ := by
  have hlocate := locate_of_used hsettled hused htag
  obtain ⟨record, hrecord, -, hne, -, hsize⟩ := hused
  obtain ⟨next, hnext⟩ := hsettled.shaped.tiled.exists_next hrecord hne
  have hmin := (hsettled.shaped.tiled.inner _ _ _ hrecord hnext).1
  rw [minBlockSize_eq] at hmin
  have hsub : Word.sub record.size headerSize = .ok (record.size - headerSize) := by
    rw [headerSize_eq]
    exact if_pos (by omega)
  unfold usableSize
  rw [Act.bind_run_of_silent hlocate, Act.get_bind_run, Layout.block_eq hrecord,
    Act.lift_ok_bind_run, hsub, Act.lift_ok_run, hsize]

end Used

/-- To ask for the usable size leaves the state alone. -/
theorem usableSize_state (hsettled : state.heap.layout.Settled) (pointer : Nat) :
    (usableSize pointer state).state = state := by
  cases hlocate : state.heap.locate? state.memory pointer with
  | none => rw [usableSize_of_none hlocate]
  | some index =>
    obtain ⟨block, hblock, rfl, rfl, htag⟩ := (Heap.locate?_eq_some_iff hsettled).mp hlocate
    rw [usableSize_of_used hsettled hblock htag]

/-- To ask for the usable size changes nothing. -/
theorem ensures_usableSize [PageSupplier κ ω] {contract : Contract κ ω} {config : HeapConfig}
    {memory : Memory} {used : Set UsedBlock} (pointer : Nat) :
    Act.Ensures contract.terms (Beside memory (Heap.KeepsUnder contract config used))
      (usableSize pointer) fun _ ↦ Beside memory (Heap.KeepsUnder contract config used) := by
  intro state log hstate hadmits
  obtain ⟨rfl, hkeeps⟩ := id hstate
  cases hlocate : state.heap.locate? state.memory pointer with
  | none =>
    rw [usableSize_of_none hlocate]
    exact ⟨rfl, hkeeps.note _⟩
  | some index =>
    obtain ⟨block, hblock, rfl, rfl, htag⟩ :=
      (Heap.locate?_eq_some_iff hkeeps.settled).mp hlocate
    rw [usableSize_of_used hkeeps.settled hblock htag]
    unfold Act.Meets
    rw [List.append_nil]
    exact hstate

/-! ### Deallocation -/

section Deallocate

variable [PageSupplier κ ω] {contract : Contract κ ω} {layout : Layout} {config : HeapConfig}
  {memory : Memory} {out : List Region} {spare : Option Nat}

theorem deallocate_zero : deallocate 0 state = ⟨.ok (.ok ()), state, []⟩ := by
  unfold deallocate
  rw [if_pos rfl]
  rfl

theorem deallocate_of_none (hpos : pointer ≠ 0)
    (hnone : state.heap.locate? state.memory pointer = none) :
    deallocate pointer state =
      ⟨.ok (.error .invalidPointer), state, [.noted (.invalidPointer pointer)]⟩ := by
  unfold deallocate
  rw [if_neg hpos, Act.bind_run_of_refused (locate_of_none hnone)]

/-- Give a page that is wholly free back if there are more of them than may be kept. -/
def giveSpare (spare : Option Nat) : Act (HeapState κ ω) Unit := do
  if let some page := spare then
    let heap := (← get).heap
    if heap.config.sparePages < heap.layout.freePages then
      onSite (Heap.releasePage page)

/-- A deallocation kills the tag, reclaims the block and may give its page back. -/
theorem deallocate_eq (hsettled : state.heap.layout.Settled)
    (hused : block ∈ usedBlocks state.heap.layout.blocks.get?) (htag : state.IsTagged block)
    {after : Layout} (hreclaim : state.heap.layout.reclaim block.index = .ok (spare, after)) :
    deallocate (block.address + headerSize) state = giveSpare spare
      { state with
        heap := { state.heap with layout := after }
        memory := state.memory.writeTag block.address .dead } := by
  have hlocate := locate_of_used hsettled hused htag
  obtain ⟨record, hrecord, -, -, haddress, -⟩ := hused
  have hpos : block.address + headerSize ≠ 0 := by
    rw [headerSize_eq]
    omega
  have hstep : onSite (Heap.step fun layout ↦ layout.reclaim block.index)
      { state with memory := state.memory.writeTag block.address .dead } =
      ⟨.ok (.ok spare), { state with
        heap := { state.heap with layout := after }
        memory := state.memory.writeTag block.address .dead }, []⟩ := by
    unfold onSite Act.within
    rw [Heap.step_run hreclaim]
  unfold deallocate
  rw [if_neg hpos, Act.bind_run_of_silent hlocate, Act.get_bind_run, Layout.block_eq hrecord,
    Act.lift_ok_bind_run, haddress]
  unfold writeTag
  rw [Act.modify_bind_run, Act.bind_run_of_silent hstep]
  rfl

theorem deallocate_of_used (hsettled : state.heap.layout.Settled)
    (hused : block ∈ usedBlocks state.heap.layout.blocks.get?) (htag : state.IsTagged block) :
    ∃ spare after, after.Settled ∧
      usedBlocks after.blocks.get? = usedBlocks state.heap.layout.blocks.get? \ {block} ∧
      after.pages = state.heap.layout.pages ∧
      after.IsSpare (block.address + headerSize) spare ∧
      deallocate (block.address + headerSize) state = giveSpare spare
        { state with
          heap := { state.heap with layout := after }
          memory := state.memory.writeTag block.address .dead } := by
  obtain ⟨record, hrecord, hinUse, hne, haddress, hsize⟩ := id hused
  obtain ⟨spare, after, hreclaim, hsettledAfter, husedAfter, hpages, -, hspare⟩ :=
    hsettled.reclaim hrecord hinUse hne
  have htiled := hsettled.shaped.tiled
  obtain ⟨next, hnext⟩ := htiled.exists_next hrecord hne
  have hmin := (htiled.inner _ _ _ hrecord hnext).1
  rw [haddress, hsize] at husedAfter
  refine ⟨spare, after, hsettledAfter, husedAfter, hpages, fun number hnumber ↦ ?_,
    deallocate_eq hsettled hused htag hreclaim⟩
  obtain ⟨hnumber, first, joined, page, hdrop, hpage⟩ := hspare number hnumber
  -- the page that came to be free is that of the block, which has room for more than its tag
  have hwithin := htiled.within hrecord (by
    rw [← hnumber, ← hpage, ← hpages]
    exact hdrop.page_eq)
  refine ⟨first, joined, page, hdrop, hpage, Set.mem_Ico.mpr ?_⟩
  rw [minBlockSize_eq] at hmin
  rw [headerSize_eq, ← haddress]
  omega

/-- A spare page that goes back leaves the blocks in use alone. -/
theorem gives_giveSpare (hvalid : config.Consistent) (hsettled : layout.Settled)
    (hbacked : Backed layout.pages.get? out) (hspare : layout.IsSpare pointer spare) :
    Act.Gives contract.terms (Beside memory (Heap.At contract config layout out)) (giveSpare spare)
      fun _ ↦ Beside memory (Heap.KeepsUnder contract config (usedBlocks layout.blocks.get?)) := by
  have hdone : ∀ (state : HeapState κ ω) log,
      Beside memory (Heap.At contract config layout out) state log →
      Beside memory (Heap.KeepsUnder contract config (usedBlocks layout.blocks.get?)) state log :=
    fun state log hat ↦ ⟨hat.1, hat.2.keeps hvalid hsettled hbacked⟩
  unfold giveSpare
  cases hpage : spare with
  | none =>
    refine (Act.gives_pure ()).ensures fun value state log hat ↦ ⟨value, rfl, hdone state log hat.2⟩
  | some number =>
    obtain ⟨first, block, page, hdrop, rfl, -⟩ := hspare number hpage
    refine Act.gives_get.bind fun read ↦ Act.Ensures.of_pre ?_ fun _ _ hpre ↦ hpre.2
    dsimp only
    split
    · exact gives_onSite (Heap.gives_releasePage hvalid hsettled hbacked hdrop)
    · refine (Act.gives_pure ()).ensures fun value state log hat ↦
        ⟨value, rfl, hdone state log hat.2⟩

/-- A spare page goes back without a refusal, and with a fault just if the supplier has it. -/
theorem giveSpare_answer (hsettled : state.heap.layout.Settled)
    (hspare : state.heap.layout.IsSpare pointer spare) :
    (giveSpare spare state).answer = .ok (.ok ()) ∨
      ∃ number page fault, state.heap.layout.pages.get? number = some page ∧
        pointer ∈ Set.Ico page.base (page.base + page.size) ∧
        (PageSupplier.release page.base (state.heap.supplier, state.world)).answer =
          .error fault ∧
        (giveSpare spare state).answer = .error fault := by
  cases hpage : spare with
  | none => exact Or.inl rfl
  | some number =>
    obtain ⟨first, block, page, hdrop, rfl, hpointer⟩ := hspare number hpage
    unfold giveSpare
    dsimp only
    rw [Act.get_bind_run]
    by_cases hmore : state.heap.config.sparePages < state.heap.layout.freePages
    · rw [if_pos hmore]
      have hanswer : (onSite (Heap.releasePage block.page) state).answer = _ :=
        @Heap.releasePage_answer κ ω _ state.heap state.world _ _ _ hsettled hdrop
      cases hrelease :
          (PageSupplier.release page.base (state.heap.supplier, state.world)).answer with
      | error fault =>
        rw [hrelease] at hanswer
        exact Or.inr ⟨_, page, fault, hdrop.page_eq, hpointer, hrelease, hanswer⟩
      | ok answer =>
        rw [hrelease] at hanswer
        exact Or.inl hanswer
    · rw [if_neg hmore]
      exact Or.inl rfl

/-- The act faults because the supplier does when the region behind the pointer is given back to it,
which is one of those that are out. -/
def FaultsGivingBack (state : HeapState κ ω) (log : List Event) (pointer : Nat)
    (answer : Except Fault (Except AllocError Unit)) : Prop :=
  ∃ region ∈ outstanding log, pointer ∈ Set.Ico region.base (region.base + region.size) ∧
    ∃ fault, (PageSupplier.release region.base (state.heap.supplier, state.world)).answer =
        .error fault ∧ answer = .error fault

/-- The act is not refused, and it comes to its end unless the supplier faults when the region
behind the pointer is given back. -/
def Completes (state : HeapState κ ω) (log : List Event) (pointer : Nat)
    (answer : Except Fault (Except AllocError Unit)) : Prop :=
  answer = .ok (.ok ()) ∨ state.FaultsGivingBack log pointer answer

/-- With a supplier that takes back what is out, it comes to its end. -/
theorem Completes.answer_eq {log : List Event} {answer : Except Fault (Except AllocError Unit)}
    (hcompletes : state.Completes log pointer answer)
    (htakes : PageSupplier.TakesBack (state.heap.supplier, state.world) (outstanding log)) :
    answer = .ok (.ok ()) := by
  rcases hcompletes with hdone | ⟨region, hregion, -, fault, hfault, -⟩
  · exact hdone
  · obtain ⟨taken, htaken⟩ := htakes region hregion
    rw [hfault] at htaken
    cases htaken

/-- A block in use whose tag is in place can be deallocated. -/
theorem deallocate_completes {log : List Event} (hsettled : state.heap.layout.Settled)
    (hbacked : Backed state.heap.layout.pages.get? (outstanding log))
    (hused : block ∈ usedBlocks state.heap.layout.blocks.get?) (htag : state.IsTagged block) :
    state.Completes log (block.address + headerSize)
      (deallocate (block.address + headerSize) state).answer := by
  obtain ⟨spare, after, hsettledAfter, -, hpages, hspare, hrun⟩ :=
    deallocate_of_used hsettled hused htag
  have hanswer := @giveSpare_answer κ ω
    { state with
      heap   := { state.heap with layout := after }
      memory := state.memory.writeTag block.address .dead } _ _ _ hsettledAfter hspare
  rw [← hrun] at hanswer
  rcases hanswer with hdone | ⟨number, page, fault, hpage, hpointer, hrelease, hfault⟩
  · exact Or.inl hdone
  · dsimp only at hpage
    rw [hpages] at hpage
    obtain ⟨region, hregion, hbase, hplace⟩ := hbacked.exists_region_of_mem hpage hpointer
    exact Or.inr ⟨region, hregion, hplace, fault, hbase ▸ hrelease, hfault⟩

/-- A deallocation that is not refused frees the block behind the pointer. -/
theorem ensures_deallocate {used : Set UsedBlock} (pointer : Nat) :
    Act.Ensures contract.terms (Beside memory (Heap.KeepsUnder contract config used))
      (deallocate pointer) fun answer state log ↦ match answer with
        | .error _ => Beside memory (Heap.KeepsUnder contract config used) state log
        | .ok () => pointer = 0 ∧ Beside memory (Heap.KeepsUnder contract config used) state log ∨
            ∃ block ∈ used, pointer = block.address + headerSize ∧
              memory.tagAt block.address = .live block.index ∧
              Beside (memory.writeTag block.address .dead)
                (Heap.KeepsUnder contract config (used \ {block})) state log := by
  intro state log hstate hadmits
  obtain ⟨rfl, hkeeps⟩ := id hstate
  have hsettled := hkeeps.settled
  by_cases hzero : pointer = 0
  · subst hzero
    rw [deallocate_zero]
    unfold Act.Meets
    rw [List.append_nil]
    exact Or.inl ⟨rfl, hstate⟩
  cases hlocate : state.heap.locate? state.memory pointer with
  | none =>
    rw [deallocate_of_none hzero hlocate]
    exact ⟨rfl, hkeeps.note _⟩
  | some index =>
    obtain ⟨block, hblock, rfl, rfl, htag⟩ := (Heap.locate?_eq_some_iff hsettled).mp hlocate
    obtain ⟨spare, after, hsettledAfter, husedAfter, hpages, hspare, hrun⟩ :=
      deallocate_of_used hsettled hblock htag
    rw [hrun] at hadmits ⊢
    have hbacked : Backed after.pages.get? (outstanding log) := by
      rw [hpages]
      exact hkeeps.backed
    have hgives : Act.Gives contract.terms (Beside (state.memory.writeTag block.address .dead)
        (Heap.At contract config after (outstanding log))) (giveSpare spare) _ :=
      gives_giveSpare hkeeps.valid hsettledAfter hbacked hspare
    refine (hgives
      { state with
        heap   := { state.heap with layout := after }
        memory := state.memory.writeTag block.address .dead }
      log ⟨rfl, hkeeps.config_eq, rfl, hkeeps.holds, rfl, hkeeps.balanced⟩ hadmits).mono
        fun answer final log hgiven ↦ ?_
    obtain ⟨value, rfl, hafter⟩ := hgiven
    rw [husedAfter, hkeeps.used_eq] at hafter
    exact Or.inr ⟨block, hkeeps.used_eq ▸ hblock, rfl, htag, hafter⟩

end Deallocate

end HeapState

end KernelMemory
