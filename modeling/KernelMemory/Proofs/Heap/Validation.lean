import KernelMemory.Proofs.Heap.Runs

/-!
# Which pointers are taken

A heap judges a pointer by bytes that anyone may have written. Still it takes none that is not out:
such a pointer is refused and nothing changes (`HeapState.accepts_or_refuses`). With honest clients
it takes all that are out, and their deallocation comes to its end with every supplier that takes
back the regions that it has out; a pointer that came back is refused until it is handed out again
(`HeapRun.pointers_validated`).
-/

set_option autoImplicit false
set_option relaxedAutoImplicit false

namespace KernelMemory

namespace HeapState

variable {κ ω : Type} [PageSupplier κ ω] {state : HeapState κ ω} {pointer : Nat}

/-- Both calls take the pointer. A deallocation comes to its end unless the supplier faults when
the region behind the pointer is given back. -/
structure Accepts (state : HeapState κ ω) (log : List Event) (pointer : Nat) : Prop where
  usableSize : ∃ size, usableSize pointer state = ⟨.ok (.ok size), state, []⟩
  deallocate : state.Completes log pointer (deallocate pointer state).answer

/-- Both calls refuse the pointer, and leave a notice and nothing else. -/
structure Refuses (state : HeapState κ ω) (pointer : Nat) : Prop where
  usableSize : usableSize pointer state =
    ⟨.ok (.error .invalidPointer), state, [.noted (.invalidPointer pointer)]⟩
  deallocate : deallocate pointer state =
    ⟨.ok (.error .invalidPointer), state, [.noted (.invalidPointer pointer)]⟩

theorem refuses_of_none (hpos : pointer ≠ 0)
    (hnone : state.heap.locate? state.memory pointer = none) : state.Refuses pointer :=
  ⟨usableSize_of_none hnone, deallocate_of_none hpos hnone⟩

section Backed

variable {log : List Event} (hsettled : state.heap.layout.Settled)
  (hbacked : Backed state.heap.layout.pages.get? (outstanding log))

include hsettled hbacked

/-- The pointer of a block in use is taken if its tag is in place. -/
theorem accepts_of_used {block : UsedBlock}
    (hused : block ∈ usedBlocks state.heap.layout.blocks.get?) (htag : state.IsTagged block) :
    state.Accepts log (block.address + headerSize) :=
  ⟨⟨_, usableSize_of_used hsettled hused htag⟩, deallocate_completes hsettled hbacked hused htag⟩

/-- A pointer is taken only if there is a block in use behind it. -/
theorem accepts_or_refuses (hpos : pointer ≠ 0) :
    (∃ block ∈ usedBlocks state.heap.layout.blocks.get?, pointer = block.address + headerSize ∧
      state.Accepts log pointer) ∨ state.Refuses pointer := by
  cases hlocate : state.heap.locate? state.memory pointer with
  | none => exact Or.inr (refuses_of_none hpos hlocate)
  | some index =>
    obtain ⟨block, hblock, rfl, rfl, htag⟩ := (Heap.locate?_eq_some_iff hsettled).mp hlocate
    exact Or.inl ⟨block, hblock, rfl, accepts_of_used hsettled hbacked hblock htag⟩

end Backed

/-- The payload of a block that is allocated starts at the pointer. -/
def IsAllocated (state : HeapState κ ω) (pointer : Nat) : Prop :=
  ∃ index block, state.heap.layout.blocks.get? index = some block ∧ block.isFree = false ∧
    block.isSentinel = false ∧ pointer = block.address + headerSize

omit [PageSupplier κ ω] in
theorem isAllocated_iff : state.IsAllocated pointer ↔
    ∃ block ∈ usedBlocks state.heap.layout.blocks.get?, pointer = block.address + headerSize := by
  constructor
  · rintro ⟨index, block, hblock, hfree, hsentinel, rfl⟩
    exact ⟨⟨index, block.address, block.size⟩,
      ⟨block, hblock, hfree, beq_eq_false_iff_ne.mp hsentinel, rfl, rfl⟩, rfl⟩
  · rintro ⟨used, ⟨block, hblock, hfree, hsize, haddress, -⟩, rfl⟩
    exact ⟨used.index, block, hblock, hfree, beq_eq_false_iff_ne.mpr hsize, by rw [haddress]⟩

end HeapState

namespace HeapDeed

/-- A pointer that is not out stays so as long as it is not handed out. -/
theorem notMem_live_append {earlier later : List HeapDeed} {pointer : Nat}
    (hnotMem : pointer ∉ live earlier)
    (hlater : ∀ deed ∈ later, ∀ grant, deed.grant? = some grant → grant.pointer ≠ pointer) :
    pointer ∉ live (earlier ++ later) := by
  induction later generalizing earlier with
  | nil => rwa [List.append_nil]
  | cons deed later ih =>
    rw [List.append_cons]
    apply ih _ fun other hother ↦ hlater other (List.mem_cons_of_mem _ hother)
    rw [live_snoc]
    have hdeed := hlater deed List.mem_cons_self
    unfold liveAfter
    cases hgrant : deed.grant? with
    | some grant =>
      exact fun hmem ↦ (List.mem_cons.mp hmem).elim (fun heq ↦ hdeed grant hgrant heq.symm) hnotMem
    | none =>
      cases deed.freed? with
      | some freed => exact fun hmem ↦ hnotMem (List.mem_of_mem_erase hmem)
      | none => exact hnotMem

end HeapDeed

namespace HeapRun

variable {κ ω : Type} [PageSupplier κ ω] {state : HeapState κ ω} {deeds : List HeapDeed}
  {log : List Event} {mayWrite : HeapState κ ω → List Nat → Memory → Prop}

/-- A prefix of the deeds of a run are those of a run before it. -/
theorem exists_of_append {earlier later : List HeapDeed}
    (hrun : HeapRun mayWrite state (earlier ++ later) log) :
    ∃ before events first, HeapRun mayWrite before earlier first ∧ log = first ++ events := by
  generalize hdeeds : earlier ++ later = deeds at hrun
  induction hrun generalizing later with
  | created hcreate memory =>
    obtain ⟨rfl, rfl⟩ := List.append_eq_nil_iff.mp hdeeds
    exact ⟨_, [], _, .created hcreate memory, (List.append_nil _).symm⟩
  | @called state after deeds deed log events hrun hdeed ih =>
    rcases List.eq_nil_or_concat later with rfl | ⟨rest, last, rfl⟩
    · obtain rfl : earlier = deeds ++ [deed] := (List.append_nil _).symm.trans hdeeds
      exact ⟨after, [], _, .called hrun hdeed, (List.append_nil _).symm⟩
    · rw [List.concat_eq_append, ← List.append_assoc] at hdeeds
      obtain ⟨before, middle, first, hfirst, rfl⟩ := ih (List.append_inj' hdeeds rfl).1
      exact ⟨before, middle ++ events, first, hfirst, List.append_assoc _ _ _⟩
  | wrote _ _ ih => exact ih hdeeds
  | shared _ _ ih => exact ih hdeeds

/-- A pointer that came back is not out until it is handed out again. -/
theorem notMem_live (hrun : HeapRun mayWrite state deeds log) (horderly : Orderly log)
    {earlier later : List HeapDeed} {pointer : Nat}
    (hdeeds : deeds = earlier ++ .deallocate pointer (.ok ()) :: later) (hpos : pointer ≠ 0)
    (hlater : ∀ deed ∈ later, ∀ grant, deed.grant? = some grant → grant.pointer ≠ pointer) :
    pointer ∉ HeapDeed.live deeds := by
  subst hdeeds
  obtain ⟨before, events, first, hfirst, rfl⟩ := hrun.exists_of_append
  obtain ⟨_, _, _, hpoints⟩ := hfirst.exists_points horderly.of_append
  rw [List.append_cons]
  refine HeapDeed.notMem_live_append (fun hmem ↦ ?_) hlater
  rw [HeapDeed.live_snoc] at hmem
  simp only [HeapDeed.liveAfter, HeapDeed.grant?, HeapDeed.freed?, if_neg hpos] at hmem
  exact (hpoints.nodup.mem_erase_iff.mp hmem).1 rfl

/-- Whatever memory holds, the pointers that are taken are out, and all others are refused without
any change. If clients write only behind their own pointers, all pointers that are out are taken:
with a supplier that takes back the regions that are out the deallocation of each comes to its end.
A pointer that came back is refused until an allocation gives it again. -/
theorem pointers_validated (horderly : Orderly log) :
    (HeapRun AnyWrite state deeds log →
      (∀ pointer, pointer ∈ HeapDeed.live deeds ↔ state.IsAllocated pointer) ∧
      ∀ memory pointer, pointer ≠ 0 →
        pointer ∈ HeapDeed.live deeds ∧ HeapState.Accepts { state with memory } log pointer ∨
          HeapState.Refuses { state with memory } pointer) ∧
    (HeapRun HeapState.Honest state deeds log →
      (∀ pointer ∈ HeapDeed.live deeds, state.Accepts log pointer ∧
        (PageSupplier.TakesBack (state.heap.supplier, state.world) (outstanding log) →
          (HeapState.deallocate pointer state).answer = .ok (.ok ()))) ∧
      ∀ earlier later pointer, deeds = earlier ++ .deallocate pointer (.ok ()) :: later →
        pointer ≠ 0 →
        (∀ deed ∈ later, ∀ grant, deed.grant? = some grant → grant.pointer ≠ pointer) →
        state.Refuses pointer) := by
  refine ⟨fun hrun ↦ ?_, fun hrun ↦ ?_⟩
  · obtain ⟨config, used, hkeeps, hpoints⟩ := hrun.exists_points horderly
    obtain rfl := hkeeps.used_eq
    have hlive : ∀ pointer, pointer ∈ HeapDeed.live deeds ↔ state.IsAllocated pointer :=
      fun pointer ↦ (hpoints.mem_iff pointer).trans HeapState.isAllocated_iff.symm
    refine ⟨hlive, fun memory pointer hpos ↦ ?_⟩
    rcases @HeapState.accepts_or_refuses κ ω _ { state with memory } pointer log hkeeps.settled
      hkeeps.backed hpos with ⟨block, hblock, hpointer, haccepts⟩ | hrefuses
    · exact Or.inl ⟨(hpoints.mem_iff pointer).mpr ⟨block, hblock, hpointer⟩, haccepts⟩
    · exact Or.inr hrefuses
  · obtain ⟨config, used, hkeeps, hpoints, htagged⟩ := hrun.exists_tagged horderly
    obtain rfl := hkeeps.used_eq
    refine ⟨fun pointer hpointer ↦ ?_, fun earlier later pointer hdeeds hpos hlater ↦ ?_⟩
    · obtain ⟨block, hblock, rfl⟩ := (hpoints.mem_iff pointer).mp hpointer
      have haccepts := HeapState.accepts_of_used hkeeps.settled hkeeps.backed hblock
        (htagged block hblock)
      exact ⟨haccepts, haccepts.deallocate.answer_eq⟩
    · have hnotMem := hrun.notMem_live horderly hdeeds hpos hlater
      rcases HeapState.accepts_or_refuses hkeeps.settled hkeeps.backed hpos with
        ⟨block, hblock, hpointer, -⟩ | hrefuses
      · exact absurd ((hpoints.mem_iff pointer).mpr ⟨block, hblock, hpointer⟩) hnotMem
      · exact hrefuses

/-- A pointer that was just handed out is taken, and refused once it came back. -/
theorem pointers_validated_once :
    ∃ (taken freed : HeapState LinearSupplier Unit) (log : List Event),
    HeapRun HeapState.Honest freed
      [.allocate 100 (.ok 4112), .deallocate 4112 (.ok ())] log ∧
    taken.IsAllocated 4112 ∧ taken.Accepts log 4112 ∧
    (HeapState.deallocate 4112 taken).answer = .ok (.ok ()) ∧ freed.Refuses 4112 := by
  obtain ⟨taken, freed, log, htaken, hfreed, horderly⟩ := exists_run_of_one_allocation
  obtain ⟨haccepts, hanswer⟩ := ((pointers_validated horderly).2 (htaken _)).1 4112 (by decide)
  refine ⟨taken, freed, log, hfreed _, ?_, haccepts, hanswer (linear_takesBack _ _), ?_⟩
  · exact (((pointers_validated horderly).1 (htaken _)).1 4112).mp (by decide)
  · refine ((pointers_validated horderly).2 (hfreed _)).2 [.allocate 100 (.ok 4112)] [] 4112 rfl
      (by decide) fun deed hdeed ↦ ?_
    exact absurd hdeed List.not_mem_nil

end HeapRun

end KernelMemory
