import KernelMemory.Proofs.Heap.Gaps
import KernelMemory.Proofs.Heap.Ownership

/-!
# Pages without blocks in use

A page that has no block in use is one free block, and counts as a free page. When a block is freed
its page is the only one that may come to be free (`Layout.Merges`), and then it goes back just if
there are more free pages than are to be kept (`HeapState.Disposal`).
-/

set_option autoImplicit false
set_option relaxedAutoImplicit false

namespace KernelMemory

/-- The pages on which no block in use starts. -/
def vacantPages (pages : Nat → Option Page) (used : Set UsedBlock) : Set Nat :=
  {number | ∃ page, pages number = some page ∧ Vacant used page.base page.size}

/-- Only the page of a block can come to be vacant when the block is freed. -/
theorem vacantPages_sdiff {pages : Nat → Option Page} {used : Set UsedBlock} {block : UsedBlock}
    (hblock : block ∈ used) {number : Nat} {page : Page} (hpage : pages number = some page)
    (hmem : block.address ∈ Set.Ico page.base (page.base + page.size))
    (hapart : ∀ first second firstPage secondPage, pages first = some firstPage →
      pages second = some secondPage → first ≠ second →
      firstPage.base + firstPage.size ≤ secondPage.base ∨
        secondPage.base + secondPage.size ≤ firstPage.base) :
    vacantPages pages (used \ {block}) \ {number} = vacantPages pages used := by
  ext other
  constructor
  · rintro ⟨⟨otherPage, hother, hvacant⟩, hne⟩
    refine ⟨otherPage, hother, fun used hused hmemUsed ↦ ?_⟩
    by_cases heq : used = block
    · subst heq
      have hsplit := hapart _ _ _ _ hother hpage hne
      rw [Set.mem_Ico] at hmem hmemUsed
      omega
    · exact hvacant used ⟨hused, heq⟩ hmemUsed
  · rintro ⟨otherPage, hother, hvacant⟩
    refine ⟨⟨otherPage, hother, hvacant.mono Set.sdiff_subset⟩, ?_⟩
    rintro rfl
    obtain rfl : otherPage = page := Option.some.inj (hother.symm.trans hpage)
    exact hvacant block hblock hmem

theorem vacantPages_empty (pages : Nat → Option Page) : vacantPages pages ∅ = indices pages := by
  ext number
  simp [vacantPages, Vacant, indices, Option.ne_none_iff_exists']

/-- A page that goes is not vacant any more. -/
theorem vacantPages_pagesWithout (pages : Nat → Option Page) (used : Set UsedBlock) (number : Nat) :
    vacantPages (pagesWithout pages number) used = vacantPages pages used \ {number} := by
  have happly : ∀ other, pagesWithout pages number other =
      if other = number then none else pages other := fun other ↦ Function.update_apply ..
  ext other
  simp only [vacantPages, Set.mem_ofPred_eq, Set.mem_sdiff, Set.mem_singleton_iff, happly]
  by_cases hother : other = number
  · simp [hother]
  · simp [hother]

theorem finite_vacantPages (pages : Arena Page) (used : Set UsedBlock) :
    (vacantPages pages.get? used).Finite := by
  refine (Arena.indices_finite pages).subset ?_
  rintro number ⟨page, hpage, -⟩ hnone
  rw [hpage] at hnone
  cases hnone

namespace Layout

variable {layout merged : Layout} {block : UsedBlock} {number : Nat} {page : Page}

theorem Settled.pagesFree_eq (hsettled : layout.Settled) :
    layout.pagesFree = vacantPages layout.pages.get? (usedBlocks layout.blocks.get?) :=
  Set.ext fun _ ↦ hsettled.mem_pagesFree_iff

theorem Settled.finite_pagesFree (hsettled : layout.Settled) : layout.pagesFree.Finite := by
  rw [hsettled.pagesFree_eq]
  exact finite_vacantPages _ _

/-- Without blocks in use all pages are free. -/
theorem Settled.size_pages (hsettled : layout.Settled)
    (hnone : usedBlocks layout.blocks.get? = ∅) : layout.pages.size = layout.freePages := by
  obtain ⟨_, hchained⟩ := hsettled.shaped.pages
  rw [hchained.size_eq, ← hsettled.ncard_pagesFree, hsettled.pagesFree_eq, hnone,
    vacantPages_empty]

/-- A block in use of the page was freed and joined with its free neighbours. -/
structure Merges (layout : Layout) (block : UsedBlock) (merged : Layout) (number : Nat)
    (page : Page) : Prop where
  settled : merged.Settled
  used : usedBlocks merged.blocks.get? = usedBlocks layout.blocks.get? \ {block}
  pages : merged.pages = layout.pages
  page_eq : layout.pages.get? number = some page
  address_mem : block.address ∈ Set.Ico page.base (page.base + page.size)
  free_of_mem : number ∈ merged.pagesFree → merged.freePages = layout.freePages + 1
  free_of_notMem : number ∉ merged.pagesFree → merged.freePages = layout.freePages

theorem Merges.freePages_eq_or (hmerges : layout.Merges block merged number page) :
    merged.freePages = layout.freePages ∨ merged.freePages = layout.freePages + 1 := by
  by_cases hmem : number ∈ merged.pagesFree
  · exact .inr (hmerges.free_of_mem hmem)
  · exact .inl (hmerges.free_of_notMem hmem)

/-- A block in use can be reclaimed, and its page is given just if it is free then. -/
theorem Settled.exists_merges (hsettled : layout.Settled)
    (hblock : block ∈ usedBlocks layout.blocks.get?) :
    ∃ spare merged number page, layout.reclaim block.index = .ok (spare, merged) ∧
      layout.Merges block merged number page ∧
      (number ∈ merged.pagesFree → spare = some number ∧ ∃ first free,
        Droppable merged.blocks.get? merged.pages.get? first free page ∧ free.page = number) ∧
      (number ∉ merged.pagesFree → spare = none) := by
  obtain ⟨record, hrecord, hinUse, hne, haddress, hsize⟩ := id hblock
  obtain ⟨spare, merged, hreclaim, hsettledMerged, hused, hpages, hcount, hspare⟩ :=
    hsettled.reclaim hrecord hinUse hne
  rw [haddress, hsize] at hused
  have htiled := hsettled.shaped.tiled
  obtain ⟨page, hpage, -⟩ := htiled.end_le _ _ hrecord
  have hwithin := htiled.within hrecord hpage
  have hmem : block.address ∈ Set.Ico page.base (page.base + page.size) := by
    rw [Set.mem_Ico, ← haddress]
    omega
  have hrest : merged.pagesFree \ {record.page} = layout.pagesFree := by
    rw [hsettledMerged.pagesFree_eq, hsettled.pagesFree_eq, hused, hpages]
    exact vacantPages_sdiff hblock hpage hmem htiled.pages_apart
  have hfree := hsettled.ncard_pagesFree
  have hfreeMerged := hsettledMerged.ncard_pagesFree
  rw [← hrest] at hfree
  have hgiven : record.page ∈ merged.pagesFree → merged.freePages = layout.freePages + 1 := by
    intro hmemFree
    rw [← hfree, ← hfreeMerged, Set.ncard_sdiff_singleton_add_one hmemFree
      hsettledMerged.finite_pagesFree]
  have hkept : record.page ∉ merged.pagesFree → merged.freePages = layout.freePages := by
    intro hnotMem
    rw [← hfree, ← hfreeMerged, Set.sdiff_singleton_eq_self hnotMem]
  refine ⟨spare, merged, record.page, page, hreclaim,
    ⟨hsettledMerged, hused, hpages, hpage, hmem, hgiven, hkept⟩, fun hmemFree ↦ ?_,
    fun hnotMem ↦ ?_⟩
  · rw [hgiven hmemFree] at hcount
    cases spare with
    | none => exact absurd hcount (by simp)
    | some number =>
      obtain ⟨rfl, first, free, other, hdrop, hsame⟩ := hspare number rfl
      obtain rfl : other = page := by
        have hother := hdrop.page_eq
        rw [hsame, hpages, hpage] at hother
        exact (Option.some.inj hother).symm
      exact ⟨rfl, first, free, hdrop, hsame⟩
  · rw [hkept hnotMem] at hcount
    cases spare with
    | none => rfl
    | some number => exact absurd hcount (by simp)

end Layout

variable {κ ω : Type} [PageSupplier κ ω]

/-- A page that is one free block goes back to the supplier, and no other one does. -/
theorem Heap.of_releasePage_run {heap : Heap κ} {world : ω} {after : Heap.Site κ ω} {first : Nat}
    {block : Block} {page : Page} {answer : Except AllocError Unit} {events : List Event}
    (hsettled : heap.layout.Settled)
    (hdrop : Droppable heap.layout.blocks.get? heap.layout.pages.get? first block page)
    (hrun : releasePage block.page (heap, world) = ⟨.ok answer, after, events⟩) :
    answer = .ok () ∧ releasedBases events = [page.base] ∧ suppliedBases events = [] ∧
      after.1.layout.pages.get? = pagesWithout heap.layout.pages.get? block.page := by
  obtain ⟨dropped, hdropPage, -, -, hpages⟩ := hsettled.dropPage hdrop
  rw [releasePage_run hdropPage] at hrun
  obtain ⟨hanswer, rfl, rfl⟩ := Outcome.mk.inj hrun
  obtain ⟨rfl, hreleased, hsupplied⟩ :=
    PageSupplier.bases_of_giveBack (Outcome.eq_of_answer hanswer rfl)
  exact ⟨rfl, hreleased, hsupplied, hpages⟩

namespace HeapState

variable {state after : HeapState κ ω} {block : UsedBlock} {merged : Layout} {number : Nat}
  {page : Page}

/-- The block is reclaimed and its tag killed, and no page has gone back yet. -/
def reclaimed (state : HeapState κ ω) (block : UsedBlock) (merged : Layout) : HeapState κ ω :=
  { state with
    heap   := { state.heap with layout := merged }
    memory := state.memory.writeTag block.address .dead }

/-- A page with this number is free, and there are more free pages than are kept. -/
def Exceeds (state : HeapState κ ω) (merged : Layout) (number : Nat) : Prop :=
  number ∈ merged.pagesFree ∧ state.heap.config.sparePages < merged.pagesFree.ncard

/-- A deallocation reclaims the block. Its page goes back just if it is free then, and there are
more free pages than are kept. -/
theorem exists_deallocate (hsettled : state.heap.layout.Settled)
    (hblock : block ∈ usedBlocks state.heap.layout.blocks.get?) (htag : state.IsTagged block) :
    ∃ spare merged number page, state.heap.layout.reclaim block.index = .ok (spare, merged) ∧
      state.heap.layout.Merges block merged number page ∧
      (state.Exceeds merged number →
        (∃ first free, Droppable merged.blocks.get? merged.pages.get? first free page ∧
          free.page = number) ∧
        deallocate (block.address + headerSize) state =
          onSite (Heap.releasePage number) (state.reclaimed block merged)) ∧
      (¬ state.Exceeds merged number → deallocate (block.address + headerSize) state =
        ⟨.ok (.ok ()), state.reclaimed block merged, []⟩) := by
  obtain ⟨spare, merged, number, page, hreclaim, hmerges, hfree, hkept⟩ :=
    hsettled.exists_merges hblock
  have hrun := deallocate_eq hsettled hblock htag hreclaim
  have hcount := hmerges.settled.ncard_pagesFree
  refine ⟨spare, merged, number, page, hreclaim, hmerges, fun hexceeds ↦ ?_, fun hfew ↦ ?_⟩
  · obtain ⟨rfl, hdrop⟩ := hfree hexceeds.1
    refine ⟨hdrop, ?_⟩
    rw [hrun]
    unfold giveSpare
    dsimp only
    rw [Act.get_bind_run, if_pos (hcount ▸ hexceeds.2)]
    rfl
  · rw [hrun]
    unfold giveSpare
    by_cases hmem : number ∈ merged.pagesFree
    · obtain ⟨rfl, -⟩ := hfree hmem
      dsimp only
      rw [Act.get_bind_run, if_neg fun hmore ↦ hfew ⟨hmem, hcount.symm ▸ hmore⟩]
      rfl
    · obtain rfl := hkept hmem
      rfl

/-- What became of the page of a freed block. -/
inductive Disposal (state after : HeapState κ ω) (merged : Layout) (number : Nat) (page : Page)
    (events : List Event) : Prop
  | returned (hexceeds : state.Exceeds merged number)
      (hreleased : releasedBases events = [page.base])
      (hpages : after.heap.layout.pages.get? = pagesWithout state.heap.layout.pages.get? number)
  | kept (hfew : ¬ state.Exceeds merged number) (hreleased : releasedBases events = [])
      (hlayout : after.heap.layout = merged)

/-- A deallocation of a block in use is not refused, and at most its own page goes back. -/
theorem of_deallocate_run {answer : Except AllocError Unit} {events : List Event}
    (hsettled : state.heap.layout.Settled)
    (hblock : block ∈ usedBlocks state.heap.layout.blocks.get?) (htag : state.IsTagged block)
    (hrun : deallocate (block.address + headerSize) state = ⟨.ok answer, after, events⟩) :
    answer = .ok () ∧ suppliedBases events = [] ∧ ∃ merged number page,
      state.heap.layout.Merges block merged number page ∧
        state.Disposal after merged number page events := by
  obtain ⟨-, merged, number, page, -, hmerges, hgiven, hkept⟩ :=
    exists_deallocate hsettled hblock htag
  by_cases hexceeds : state.Exceeds merged number
  · obtain ⟨⟨first, free, hdrop, rfl⟩, heq⟩ := hgiven hexceeds
    rw [heq] at hrun
    obtain ⟨hanswer, hafter, hevents⟩ := Outcome.mk.inj hrun
    obtain ⟨rfl, hreleased, hsupplied, hpages⟩ := Heap.of_releasePage_run hmerges.settled hdrop
      (Outcome.eq_of_answer hanswer hevents)
    refine ⟨rfl, hsupplied, merged, _, page, hmerges, .returned hexceeds hreleased ?_⟩
    rw [← hafter, ← hmerges.pages]
    exact hpages
  · rw [hkept hexceeds] at hrun
    cases hrun
    exact ⟨rfl, rfl, merged, number, page, hmerges, .kept hexceeds rfl rfl⟩

namespace Disposal

variable {events : List Event} (hdisposal : state.Disposal after merged number page events)
  (hmerges : state.heap.layout.Merges block merged number page)

include hdisposal hmerges

omit [PageSupplier κ ω] in
theorem pages_eq {other : Nat} {otherPage : Page}
    (hother : after.heap.layout.pages.get? other = some otherPage) :
    state.heap.layout.pages.get? other = some otherPage := by
  cases hdisposal with
  | returned _ _ hpages =>
    rw [hpages, pagesWithout, Function.update_apply] at hother
    split_ifs at hother
    exact hother
  | kept _ _ hlayout =>
    rw [hlayout, hmerges.pages] at hother
    exact hother

omit [PageSupplier κ ω] in
/-- A page that came to be free goes back if there are too many, and else is one more free page. -/
theorem freePages_eq (hsettled : state.heap.layout.Settled) (hafter : after.heap.layout.Settled)
    (hblock : block ∈ usedBlocks state.heap.layout.blocks.get?)
    (hused : usedBlocks after.heap.layout.blocks.get? =
      usedBlocks state.heap.layout.blocks.get? \ {block}) :
    after.heap.layout.freePages + (releasedBases events).length = merged.freePages ∧
      after.heap.layout.freePages =
        max state.heap.layout.freePages (min state.heap.config.sparePages merged.freePages) := by
  have hmerged := hmerges.settled.ncard_pagesFree
  cases hdisposal with
  | returned hexceeds hreleased hpages =>
    have hsame : after.heap.layout.freePages = state.heap.layout.freePages := by
      rw [← hafter.ncard_pagesFree, ← hsettled.ncard_pagesFree, hafter.pagesFree_eq,
        hsettled.pagesFree_eq, hused, hpages, vacantPages_pagesWithout, vacantPages_sdiff hblock
          hmerges.page_eq hmerges.address_mem hsettled.shaped.tiled.pages_apart]
    have hone := hmerges.free_of_mem hexceeds.1
    have hmore := hexceeds.2
    rw [hreleased, List.length_singleton]
    omega
  | kept hfew hreleased hlayout =>
    rw [hreleased, List.length_nil, hlayout]
    refine ⟨rfl, ?_⟩
    by_cases hfree : number ∈ merged.pagesFree
    · have hone := hmerges.free_of_mem hfree
      have hmore : ¬ state.heap.config.sparePages < merged.pagesFree.ncard :=
        fun hlt ↦ hfew ⟨hfree, hlt⟩
      omega
    · have hsame := hmerges.free_of_notMem hfree
      omega

end Disposal

end HeapState

/-- A block in use whose tag is in place is freed by its pointer. No page is new after that, and a
page that came to be free stays or goes back. -/
theorem Heap.Keeps.deallocate_used {config : HeapConfig} {used : Set UsedBlock}
    {state after : HeapState κ ω} {log events : List Event} {block : UsedBlock}
    {answer : Except AllocError Unit}
    (hkeeps : Heap.Keeps config used (state.heap, state.world) log)
    (horderly : Orderly log) (hblock : block ∈ used) (htag : state.IsTagged block)
    (hrun : HeapState.deallocate (block.address + headerSize) state = ⟨.ok answer, after, events⟩) :
    answer = .ok () ∧ after.memory = state.memory.writeTag block.address .dead ∧
      Orderly (log ++ events) ∧
      Heap.Keeps config (used \ {block}) (after.heap, after.world) (log ++ events) ∧
      ∃ merged number page, state.heap.layout.Merges block merged number page ∧
        (∀ other otherPage, after.heap.layout.pages.get? other = some otherPage →
          state.heap.layout.pages.get? other = some otherPage) ∧
        after.heap.layout.freePages + (releasedBases events).length = merged.freePages ∧
        after.heap.layout.freePages =
          max state.heap.layout.freePages (min config.sparePages merged.freePages) := by
  obtain rfl := hkeeps.used_eq
  obtain rfl := hkeeps.config_eq
  have hsettled := hkeeps.settled
  obtain ⟨rfl, hsupplied, merged, number, page, hmerges, hdisposal⟩ :=
    HeapState.of_deallocate_run hsettled hblock htag hrun
  have hmore := horderly.append_of_suppliedBases hsupplied
  obtain ⟨hzero, -⟩ | ⟨other, hother, haddress, -, hmemory, hafter⟩ :=
    (HeapState.ensures_deallocate _).of_run hrun ⟨rfl, hkeeps.underOrderly⟩ hmore
  · rw [headerSize_eq] at hzero
    omega
  obtain rfl : block = other :=
    hsettled.scattered.eq_of_address_eq hblock hother (Nat.add_right_cancel haddress)
  exact ⟨rfl, hmemory, hmore, hafter.toKeeps, merged, number, page, hmerges,
    fun _ _ hpage ↦ hdisposal.pages_eq hmerges hpage,
    hdisposal.freePages_eq hmerges hsettled hafter.settled hblock hafter.used_eq⟩

/-! ### A heap with two pages -/

namespace HeapRun

theorem allocated {mayWrite : HeapState κ ω → List Nat → Memory → Prop} {state : HeapState κ ω}
    {deeds : List HeapDeed} {log : List Event} (hrun : HeapRun mayWrite state deeds log)
    {size : Nat} {answer : Except AllocError Nat} {events : List Event}
    (hshown : ((HeapState.allocate size state).answer, (HeapState.allocate size state).events) =
      (.ok answer, events)) :
    HeapRun mayWrite (HeapState.allocate size state).state (deeds ++ [.allocate size answer])
      (log ++ events) :=
  .called hrun (Outcome.eq_of_answer (Prod.mk.inj hshown).1 (Prod.mk.inj hshown).2)

/-- On a heap that keeps no spare page two small blocks are taken, and a large one from a second
page. -/
def threeTaken : HeapState LinearSupplier Unit :=
  (HeapState.allocate 16000 (HeapState.allocate 100 sparelessTaken.state).state).state

/-- What is seen of that. -/
def threeLog : List Event :=
  [.supplied 16384 ⟨4096, 16384⟩, .noted (.pageAdded 4096 16384),
    .supplied 16384 ⟨20480, 16384⟩, .noted (.pageAdded 20480 16384)]

theorem orderly_threeLog : Orderly threeLog := by
  have hfirst : Orderly [.supplied 16384 ⟨4096, 16384⟩, .noted (.pageAdded 4096 16384)] :=
    (orderly_of_one (by decide) 16384).append (by decide)
  have hsecond : Region.Fits ⟨20480, 16384⟩
      (outstanding [.supplied 16384 ⟨4096, 16384⟩, .noted (.pageAdded 4096 16384)]) := by
    refine ⟨by decide, fun other hother ↦ ?_⟩
    obtain rfl : other = ⟨4096, 16384⟩ := List.mem_singleton.mp hother
    rw [Set.Ico_disjoint_Ico]
    decide
  have hboth : Orderly ([.supplied 16384 ⟨4096, 16384⟩, .noted (.pageAdded 4096 16384)] ++
      [.supplied 16384 ⟨20480, 16384⟩]) := by
    refine hfirst.snoc fun size region heq ↦ ?_
    cases heq
    exact hsecond
  exact hboth.append (by decide)

/-- Both regions are pages of the size that was asked for. -/
theorem of_mem_threeLog {size : Nat} {region : Region} (hmem : .supplied size region ∈ threeLog) :
    size = 16384 ∧ (region = ⟨4096, 16384⟩ ∨ region = ⟨20480, 16384⟩) := by
  simp only [threeLog, List.mem_cons, Event.supplied.injEq, reduceCtorEq, List.not_mem_nil,
    or_false, false_or] at hmem
  rcases hmem with ⟨rfl, hregion⟩ | ⟨rfl, hregion⟩
  · exact ⟨rfl, Or.inl hregion⟩
  · exact ⟨rfl, Or.inr hregion⟩

theorem threeTaken_run (mayWrite : HeapState LinearSupplier Unit → List Nat → Memory → Prop) :
    HeapRun mayWrite threeTaken [.allocate 100 (.ok 4112), .allocate 100 (.ok 4240),
      .allocate 16000 (.ok 20496)] threeLog := by
  have hvalid : ({ sparePages := 0 } : HeapConfig).validate.run = .ok (.ok ()) := by decide +kernel
  have hpage : spareless.answer = .ok (.ok ()) := by decide +kernel
  have hlog : spareless.events = threeLog.take 2 := by decide +kernel
  have hnew : HeapRun mayWrite ⟨spareless.state.1, .blank, spareless.state.2⟩ []
      (threeLog.take 2) :=
    .created (Heap.create_run hvalid (Outcome.eq_of_answer hpage hlog)) .blank
  have hfirst := @allocated _ _ _ _ _ _ _ hnew 100 (.ok 4112) [] (by decide +kernel)
  have hsecond := @allocated _ _ _ _ _ _ _ hfirst 100 (.ok 4240) [] (by decide +kernel)
  exact @allocated _ _ _ _ _ _ _ hsecond 16000 (.ok 20496) (threeLog.drop 2) (by decide +kernel)

end HeapRun

end KernelMemory
