import KernelMemory.Proofs.Heap.Runs

/-!
# Regions and their owners

Every region that a heap is given goes back once. Between two calls the regions that are out are
the pages of the heap (`Heap.Owns`), a page goes back only when no allocation is left on it, and
when the heap ends the bases that went back are those that were handed out
(`HeapRun.regions_go_back_once`).
-/

set_option autoImplicit false
set_option relaxedAutoImplicit false

namespace KernelMemory

/-! ### What a log tells -/

/-- The base of the region that goes back. -/
def Event.releasedBase? : Event → Option Nat
  | .released base => some base
  | _ => none

/-- The bases of the regions that were handed out. -/
def suppliedBases (log : List Event) : List Nat := log.filterMap Event.suppliedBase?

/-- The bases of the regions that went back. -/
def releasedBases (log : List Event) : List Nat := log.filterMap Event.releasedBase?

theorem releasedBases_append (log events : List Event) :
    releasedBases (log ++ events) = releasedBases log ++ releasedBases events :=
  List.filterMap_append

theorem suppliedBases_append (log events : List Event) :
    suppliedBases (log ++ events) = suppliedBases log ++ suppliedBases events :=
  List.filterMap_append

/-- Order is kept if nothing is handed out. -/
theorem Orderly.append_of_suppliedBases {log events : List Event} (horderly : Orderly log)
    (hnone : suppliedBases events = []) : Orderly (log ++ events) :=
  horderly.append (List.filterMap_eq_nil_iff.mp hnone)

/-- What was handed out went back once or is out. -/
theorem Balanced.perm {log : List Event} (hbalanced : Balanced log) :
    (suppliedBases log).Perm (releasedBases log ++ (outstanding log).map Region.base) := by
  induction log using List.reverseRecOn with
  | nil => exact List.Perm.refl _
  | append_singleton log event ih =>
    have hold := ih hbalanced.of_append
    rw [suppliedBases_append, releasedBases_append, outstanding_snoc]
    cases event with
    | supplied size region =>
      show (suppliedBases log ++ [region.base]).Perm
        (releasedBases log ++ [] ++ region.base :: (outstanding log).map Region.base)
      rw [List.append_nil]
      exact (List.perm_append_singleton _ _).trans
        ((hold.cons _).trans List.perm_middle.symm)
    | released base =>
      obtain ⟨region, hregion, hbase⟩ := hbalanced log base [] rfl
      show (suppliedBases log ++ []).Perm (releasedBases log ++ [base] ++
        ((outstanding log).eraseP fun region : Region ↦ region.base == base).map Region.base)
      have hmem : base ∈ (outstanding log).map Region.base := hbase ▸ List.mem_map_of_mem hregion
      rw [List.append_nil, map_base_eraseP, List.append_assoc, List.singleton_append]
      exact hold.trans ((List.perm_cons_erase hmem).append_left _)
    | refused _ _ =>
      show (suppliedBases log ++ []).Perm (releasedBases log ++ [] ++ _)
      rwa [List.append_nil, List.append_nil]
    | noted _ =>
      show (suppliedBases log ++ []).Perm (releasedBases log ++ [] ++ _)
      rwa [List.append_nil, List.append_nil]

/-! ### Pages that go back -/

theorem PageSupplier.eq_of_released {κ ω : Type} [PageSupplier κ ω] {base other : Nat}
    {state : κ × ω} (hmem : .released other ∈ (giveBack base state).events) : other = base := by
  have hquiet := release_quiet base state
  rcases hrun : release base state with ⟨fault | answer, after, events⟩
  · rw [hrun] at hquiet
    rw [giveBack_of_fault hrun] at hmem
    obtain ⟨notice, heq⟩ := hquiet _ hmem
    cases heq
  · rw [hrun] at hquiet
    rw [giveBack_of_answer hrun] at hmem
    rcases List.mem_append.mp hmem with hmem | hmem
    · obtain ⟨notice, heq⟩ := hquiet _ hmem
      cases heq
    · have heq := List.mem_singleton.mp hmem
      cases heq
      rfl

/-- Only notices come before a region goes back. -/
theorem PageSupplier.bases_of_giveBack {κ ω : Type} [PageSupplier κ ω] {base : Nat}
    {state after : κ × ω} {answer : Except AllocError Unit} {events : List Event}
    (hrun : giveBack base state = ⟨.ok answer, after, events⟩) :
    answer = .ok () ∧ releasedBases events = [base] ∧ suppliedBases events = [] := by
  have hquiet := release_quiet base state
  rcases hrelease : release base state with ⟨fault | settled, final, notices⟩
  · rw [giveBack_of_fault hrelease] at hrun
    cases hrun
  rw [hrelease] at hquiet
  rw [giveBack_of_answer hrelease] at hrun
  cases hrun
  have hreleased : releasedBases notices = [] := List.filterMap_eq_nil_iff.mpr fun event hevent ↦ by
    obtain ⟨notice, rfl⟩ := hquiet event hevent
    rfl
  have hsupplied : suppliedBases notices = [] := List.filterMap_eq_nil_iff.mpr fun event hevent ↦ by
    obtain ⟨notice, rfl⟩ := hquiet event hevent
    rfl
  rw [releasedBases_append, suppliedBases_append, hreleased, hsupplied]
  exact ⟨rfl, rfl, rfl⟩

/-- A region does not go back if the supplier faults. -/
theorem PageSupplier.bases_of_fault {κ ω : Type} [PageSupplier κ ω] {base : Nat}
    {state after : κ × ω} {fault : Fault} {events : List Event}
    (hrun : giveBack base state = ⟨.error fault, after, events⟩) :
    (release base state).answer = .error fault ∧ releasedBases events = [] := by
  have hquiet := release_quiet base state
  rcases hrelease : release base state with ⟨other | settled, final, notices⟩
  · rw [hrelease] at hquiet
    rw [giveBack_of_fault hrelease] at hrun
    cases hrun
    refine ⟨rfl, List.filterMap_eq_nil_iff.mpr fun event hevent ↦ ?_⟩
    obtain ⟨notice, rfl⟩ := hquiet event hevent
    rfl
  · rw [giveBack_of_answer hrelease] at hrun
    cases hrun

namespace Heap

variable {κ ω : Type} {heap : Heap κ} {log : List Event}

/-- The regions that are out are just the pages of the heap. -/
def Owns (heap : Heap κ) (out : List Region) : Prop :=
  (out.map fun region ↦ (region.base, region.pageSize)).Perm
    (heap.layout.pages.toList.map fun entry ↦ (entry.2.base, entry.2.size))

theorem eq_of_released [PageSupplier κ ω] {world : ω} {first base : Nat} {block : Block}
    {page : Page} (hsettled : heap.layout.Settled)
    (hdrop : Droppable heap.layout.blocks.get? heap.layout.pages.get? first block page)
    (hmem : .released base ∈ (releasePage block.page (heap, world)).events) :
    base = page.base := by
  obtain ⟨after, hdropPage, -⟩ := hsettled.dropPage hdrop
  rw [releasePage_run hdropPage] at hmem
  rcases List.mem_cons.mp hmem with heq | hmem
  · cases heq
  · exact @PageSupplier.eq_of_released κ ω _ page.base base (heap.supplier, world) hmem

end Heap

namespace HeapState

variable {κ ω : Type} [PageSupplier κ ω] {state : HeapState κ ω} {pointer base : Nat}

/-- There is no block in use on a page that is one free block. -/
theorem header_notMem_of_droppable {layout : Layout} (hsettled : layout.Settled) {first : Nat}
    {block : Block} {page : Page}
    (hdrop : Droppable layout.blocks.get? layout.pages.get? first block page) {used : UsedBlock}
    (hused : used ∈ usedBlocks layout.blocks.get?) :
    used.address + headerSize ∉ Set.Ico page.base (page.base + page.size) := by
  obtain ⟨record, hrecord, hinUse, -, haddress, hsize⟩ := id hused
  have hne : first ≠ used.index := by
    rintro rfl
    obtain rfl : block = record := Option.some.inj (hdrop.block_eq.symm.trans hrecord)
    exact absurd (hdrop.isFree.symm.trans hinUse) (by decide)
  have hapart := hsettled.shaped.tiled.blocks_apart hdrop.block_eq hrecord hne
  have hmin := hsettled.scattered.min_le used hused
  obtain ⟨-, other, hother, hbase⟩ :=
    hsettled.shaped.tiled.first first block hdrop.block_eq hdrop.prev_none
  obtain rfl : other = page := Option.some.inj (hother.symm.trans hdrop.page_eq)
  rw [hdrop.size_eq, hbase, haddress, hsize] at hapart
  rw [minBlockSize_eq] at hmin
  rw [headerSize_eq, Set.mem_Ico]
  omega

/-- A page that a deallocation gives back is one of the heap, and no other block in use lies on
it. -/
theorem exists_page_of_released (hsettled : state.heap.layout.Settled)
    (hmem : .released base ∈ (deallocate pointer state).events) :
    ∃ block ∈ usedBlocks state.heap.layout.blocks.get?, pointer = block.address + headerSize ∧
      (∀ answer, (deallocate pointer state).answer = .ok answer → answer = .ok ()) ∧
      ∃ number page, state.heap.layout.pages.get? number = some page ∧ page.base = base ∧
        ∀ other ∈ usedBlocks state.heap.layout.blocks.get? \ {block},
          other.address + headerSize ∉ Set.Ico page.base (page.base + page.size) := by
  by_cases hzero : pointer = 0
  · rw [hzero, deallocate_zero] at hmem
    exact absurd hmem List.not_mem_nil
  cases hlocate : state.heap.locate? state.memory pointer with
  | none =>
    rw [deallocate_of_none hzero hlocate] at hmem
    have heq := List.mem_singleton.mp hmem
    cases heq
  | some index =>
    obtain ⟨block, hblock, rfl, rfl, htag⟩ := (Heap.locate?_eq_some_iff hsettled).mp hlocate
    obtain ⟨spare, after, hsettledAfter, husedAfter, hpages, hspare, hrun⟩ :=
      deallocate_of_used hsettled hblock htag
    have hcompletes := @giveSpare_answer κ ω
      { state with
        heap   := { state.heap with layout := after }
        memory := state.memory.writeTag block.address .dead } _ _ _ hsettledAfter hspare
    rw [hrun] at hmem ⊢
    refine ⟨block, hblock, rfl, fun answer hanswer ↦ ?_, ?_⟩
    · rcases hcompletes with hdone | ⟨-, -, fault, -, -, -, hfault⟩
      · rw [hdone] at hanswer
        exact (Except.ok.inj hanswer).symm
      · rw [hfault] at hanswer
        cases hanswer
    · rw [← husedAfter, ← hpages]
      cases hpage : spare with
      | none =>
        rw [hpage] at hmem
        exact absurd hmem List.not_mem_nil
      | some number =>
        obtain ⟨first, free, page, hdrop, rfl, -⟩ := hspare number hpage
        refine ⟨free.page, page, hdrop.page_eq, ?_, fun other hother ↦
          header_notMem_of_droppable hsettledAfter hdrop hother⟩
        rw [hpage] at hmem
        unfold giveSpare at hmem
        dsimp only at hmem
        rw [Act.get_bind_run] at hmem
        split_ifs at hmem with hmore
        · exact (Heap.eq_of_released hsettledAfter hdrop hmem).symm
        · exact absurd hmem List.not_mem_nil

end HeapState

namespace HeapRun

variable {κ ω : Type} [PageSupplier κ ω] {state : HeapState κ ω} {deeds : List HeapDeed}
  {log : List Event} {mayWrite : HeapState κ ω → List Nat → Memory → Prop}

/-- What a deallocation gives back is a page without allocations. -/
theorem exists_empty_page (hrun : HeapRun mayWrite state deeds log) (horderly : Orderly log)
    {pointer base : Nat} {answer : Except AllocError Unit}
    (hanswer : (HeapState.deallocate pointer state).answer = .ok answer)
    (hmem : .released base ∈ (HeapState.deallocate pointer state).events) :
    ∃ number page, state.heap.layout.pages.get? number = some page ∧ page.base = base ∧
      ∀ live ∈ HeapDeed.liveAfter (HeapDeed.live deeds) (.deallocate pointer answer),
        live ∉ Set.Ico page.base (page.base + page.size) := by
  obtain ⟨config, used, hkeeps, hpoints⟩ := hrun.exists_points horderly
  obtain rfl := hkeeps.used_eq
  obtain ⟨block, hblock, rfl, hgranted, number, page, hpage, hbase, hothers⟩ :=
    HeapState.exists_page_of_released hkeeps.settled hmem
  obtain rfl := hgranted answer hanswer
  have hfreed : HeapDeed.liveAfter (HeapDeed.live deeds)
      (.deallocate (block.address + headerSize) (.ok ())) =
        (HeapDeed.live deeds).erase (block.address + headerSize) := by
    simp [HeapDeed.liveAfter, HeapDeed.grant?, HeapDeed.freed?, headerSize_eq]
  refine ⟨number, page, hpage, hbase, fun live hlive ↦ ?_⟩
  rw [hfreed, hpoints.nodup.mem_erase_iff, hpoints.mem_iff] at hlive
  obtain ⟨hne, other, hother, rfl⟩ := hlive
  exact hothers other ⟨hother, fun heq ↦ hne (congrArg (·.address + headerSize) heq)⟩

/-- If a heap is not made, nothing is out. While it lives every release takes back a region that is
out, the regions that are out are its pages, and a deallocation gives back none that has an
allocation left. When it ends nothing is out, and just what was handed out has gone back. -/
theorem regions_go_back_once :
    (∀ (supplier : κ) config (world after : ω) error events,
      Heap.create supplier config world = ⟨.ok (.error error), after, events⟩ → Orderly events →
      Balanced events ∧ outstanding events = [] ∧
        (suppliedBases events).Perm (releasedBases events)) ∧
    ∀ (state : HeapState κ ω) deeds log, HeapRun AnyWrite state deeds log → Orderly log →
      Balanced log ∧ state.heap.Owns (outstanding log) ∧
      (∀ pointer answer after events base,
        HeapState.deallocate pointer state = ⟨.ok answer, after, events⟩ →
        .released base ∈ events →
        ∃ number page, state.heap.layout.pages.get? number = some page ∧ page.base = base ∧
          ∀ live ∈ HeapDeed.liveAfter (HeapDeed.live deeds) (.deallocate pointer answer),
            live ∉ Set.Ico page.base (page.base + page.size)) ∧
      ∀ answer after events, state.heap.destruct state.world = ⟨.ok answer, after, events⟩ →
        Orderly (log ++ events) →
        Balanced (log ++ events) ∧ outstanding (log ++ events) = [] ∧
          (suppliedBases (log ++ events)).Perm (releasedBases (log ++ events)) := by
  have hall : ∀ {log : List Event}, Balanced log → outstanding log = [] →
      (suppliedBases log).Perm (releasedBases log) := by
    intro log hbalanced hnone
    have hperm := hbalanced.perm
    rwa [hnone, List.map_nil, List.append_nil] at hperm
  refine ⟨fun supplier config world after error events hcreate horderly ↦ ?_,
    fun state deeds log hrun horderly ↦ ?_⟩
  · obtain ⟨_, hstands⟩ := (@Heap.ensures_create κ ω _ .orderly config supplier fun _ _ ↦
      trivial).of_run hcreate ⟨trivial, rfl, balanced_nil⟩ horderly
    exact ⟨hstands.balanced, hstands.out_eq, hall hstands.balanced hstands.out_eq⟩
  · obtain ⟨config, used, hkeeps, -⟩ := hrun.exists_points horderly
    refine ⟨hkeeps.balanced, hkeeps.perm, fun pointer answer after events base hcall hmem ↦ ?_,
      fun answer after events hdestruct hmore ↦ ?_⟩
    · refine hrun.exists_empty_page horderly ?_ ?_
      · rw [hcall]
      · rw [hcall]
        exact hmem
    · obtain ⟨_, -, hstands⟩ := (Heap.gives_destruct state.heap).of_run hdestruct
        hkeeps.underOrderly hmore
      exact ⟨hstands.balanced, hstands.out_eq, hall hstands.balanced hstands.out_eq⟩

/-- A supplier whose regions are not aligned. -/
def skewed : LinearSupplier := { next := 4096, stop := 2 ^ 32, skew := 8 }

/-- A heap that keeps no spare page, on its first page. -/
def spareless : Outcome (Heap.Site LinearSupplier Unit) Unit :=
  Heap.grow (HeapConfig.pageSize { sparePages := 0 })
    ({ config := { sparePages := 0 }, supplier := { next := 4096, stop := 2 ^ 32 } }, ())

/-- The heap with one block in use. -/
def sparelessTaken : Outcome (HeapState LinearSupplier Unit) Nat :=
  HeapState.allocate 100 ⟨spareless.state.1, .blank, spareless.state.2⟩

/-- The heap at its end. -/
def sparelessEnd : Outcome Unit LinearSupplier :=
  sparelessTaken.state.heap.destruct sparelessTaken.state.world

/-- A region that is not aligned goes back and no heap is made. The only page of another heap goes
back with its last allocation or with the heap. -/
theorem regions_go_back_once_of_one_allocation :
    (∃ error after events, Heap.create skewed {} () = ⟨.ok (.error error), after, events⟩ ∧
      suppliedBases events = [4104] ∧ releasedBases events = [4104] ∧ outstanding events = []) ∧
    ∃ log, HeapRun AnyWrite sparelessTaken.state [.allocate 100 (.ok 4112)] log ∧ Balanced log ∧
      sparelessTaken.state.heap.Owns (outstanding log) ∧
      (∃ number page, sparelessTaken.state.heap.layout.pages.get? number = some page ∧
        page.base = 4096 ∧
        .released 4096 ∈ (HeapState.deallocate 4112 sparelessTaken.state).events) ∧
      suppliedBases (log ++ sparelessEnd.events) = [4096] ∧
      outstanding (log ++ sparelessEnd.events) = [] := by
  have hvalid : ({ sparePages := 0 } : HeapConfig).validate.run = .ok (.ok ()) := by decide +kernel
  have hpage : spareless.answer = .ok (.ok ()) := by decide +kernel
  have hlog : spareless.events =
      [.supplied 16384 ⟨4096, 16384⟩, .noted (.pageAdded 4096 16384)] := by decide +kernel
  have htake : sparelessTaken.answer = .ok (.ok 4112) := by decide +kernel
  have htakeLog : sparelessTaken.events = [] := by decide +kernel
  have hfree : (HeapState.deallocate 4112 sparelessTaken.state).answer = .ok (.ok ()) := by
    decide +kernel
  have hfreeLog : (HeapState.deallocate 4112 sparelessTaken.state).events =
      [.noted (.pageReleased 4096 16384), .released 4096] := by decide +kernel
  have hnew : HeapRun AnyWrite ⟨spareless.state.1, .blank, spareless.state.2⟩ []
      [.supplied 16384 ⟨4096, 16384⟩, .noted (.pageAdded 4096 16384)] :=
    .created (Heap.create_run hvalid (Outcome.eq_of_answer hpage hlog)) .blank
  have htakes : (HeapDeed.allocate 100 (.ok 4112)).Happens
      ⟨spareless.state.1, .blank, spareless.state.2⟩ sparelessTaken.state [] :=
    Outcome.eq_of_answer htake htakeLog
  have hrun : HeapRun AnyWrite sparelessTaken.state [.allocate 100 (.ok 4112)]
      [.supplied 16384 ⟨4096, 16384⟩, .noted (.pageAdded 4096 16384)] := .called hnew htakes
  have horderly : Orderly [.supplied 16384 ⟨4096, 16384⟩, .noted (.pageAdded 4096 16384)] :=
    (orderly_of_one (by decide) 16384).append (by decide)
  refine ⟨?_, _, hrun, ?_⟩
  · have hanswer : (Heap.create skewed {} ()).answer = .ok (.error .misalignedRegion) :=
      eq_refused_of_map (by decide +kernel)
    have hevents : (Heap.create skewed {} ()).events = [.supplied 16384 ⟨4104, 16384⟩,
        .noted (.regionMisaligned 4104), .released 4104] := by decide +kernel
    have hcreate := Outcome.eq_of_answer hanswer hevents
    have hdone := regions_go_back_once.1 _ _ _ _ _ _ hcreate
      ((orderly_of_one (by decide) 16384).append (by decide))
    exact ⟨_, _, _, hcreate, rfl, rfl, hdone.2.1⟩
  · obtain ⟨hbalanced, howns, hempty, hend⟩ := regions_go_back_once.2 _ _ _ hrun horderly
    have hreleased : Event.released 4096 ∈
        (HeapState.deallocate 4112 sparelessTaken.state).events := by
      rw [hfreeLog]
      decide
    obtain ⟨number, page, hnumber, hbase, -⟩ := hempty 4112 _ _ _ 4096
      (Outcome.eq_of_answer hfree hfreeLog) (by decide)
    have hendLog : sparelessEnd.events =
        [.noted (.pageDropped 4096), .released 4096] := by decide +kernel
    obtain ⟨supplier, hanswer⟩ : ∃ supplier, sparelessEnd.answer = .ok (.ok supplier) :=
      ⟨{ next := 20480, stop := 2 ^ 32 }, by decide +kernel⟩
    have hdone := hend _ _ _ (Outcome.eq_of_answer hanswer hendLog)
      (horderly.append (by decide))
    refine ⟨hbalanced, howns, ⟨number, page, hnumber, hbase, hreleased⟩, ?_, ?_⟩
    · rw [hendLog]
      decide
    · rw [hendLog]
      exact hdone.2.1

end HeapRun

end KernelMemory
