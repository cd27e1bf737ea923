import KernelMemory.Proofs.Heap.Safety
import KernelMemory.Proofs.Heap.Vacancy
import KernelMemory.Proofs.Heap.Validation

/-!
# The order of frees

Some of the pointers that are out are freed one after the other (`HeapState.deallocateAll`). Free
blocks are joined and pages go back on the way, in each order at other times. All pointers are taken
in each order, unless the supplier faults when it is given back a region that is out
(`HeapState.AcceptsAll`). What counts in the end is only which blocks are left: they tell how many
pages have gone back, and how each page that is still held is divided
(`HeapRun.frees_in_any_order`).
-/

set_option autoImplicit false
set_option relaxedAutoImplicit false

namespace KernelMemory

variable {κ ω : Type}

namespace HeapState

variable {origin state after : HeapState κ ω} {pointers freed : List Nat} {pointer : Nat}

section Supplier

variable [PageSupplier κ ω]

/-- Free the allocations at the pointers one after the other. -/
def deallocateAll (pointers : List Nat) : Act (HeapState κ ω) Unit := pointers.forM deallocate

/-- The pointers are all taken and their deallocation comes to its end, unless one after the others
before it makes the supplier fault when the region behind it is given back. -/
def AcceptsAll (state : HeapState κ ω) (log : List Event) (pointers : List Nat) : Prop :=
  (deallocateAll pointers state).answer = .ok (.ok ()) ∨
    ∃ earlier pointer later middle events, pointers = earlier ++ pointer :: later ∧
      deallocateAll earlier state = ⟨.ok (.ok ()), middle, events⟩ ∧
      middle.FaultsGivingBack (log ++ events) pointer (deallocateAll pointers state).answer

theorem acceptsAll_nil (state : HeapState κ ω) (log : List Event) : state.AcceptsAll log [] :=
  Or.inl rfl

/-- If the first pointer is taken, and so are the others after it, all are. -/
theorem acceptsAll_cons {log : List Event}
    (hfirst : state.Completes log pointer (deallocate pointer state).answer)
    (hrest : ∀ middle events, deallocate pointer state = ⟨.ok (.ok ()), middle, events⟩ →
      middle.AcceptsAll (log ++ events) pointers) : state.AcceptsAll log (pointer :: pointers) := by
  rcases hrun : deallocate pointer state with ⟨answer, middle, events⟩
  rw [hrun] at hfirst
  obtain rfl | hfault := hfirst
  · have hall : ∀ others, deallocateAll (pointer :: others) state =
        ⟨(deallocateAll others middle).answer, (deallocateAll others middle).state,
          events ++ (deallocateAll others middle).events⟩ := fun others ↦
      Act.bind_run_of_value hrun _
    rcases hrest middle events hrun with hdone |
      ⟨earlier, next, later, last, more, rfl, hearlier, hfault⟩
    · refine Or.inl ?_
      rw [hall]
      exact hdone
    · refine Or.inr ⟨pointer :: earlier, next, later, last, events ++ more, rfl, ?_, ?_⟩
      · rw [hall, hearlier]
      · rw [hall, ← List.append_assoc]
        exact hfault
  · refine Or.inr ⟨[], pointer, pointers, state, [], rfl, rfl, ?_⟩
    obtain ⟨region, hregion, hplace, fault, hrelease, rfl⟩ := hfault
    rw [List.append_nil, deallocateAll, List.forM, Act.bind_run_of_fault hrun]
    exact ⟨region, hregion, hplace, fault, hrelease, rfl⟩

end Supplier

/-- The blocks in use that are left when the pointers are freed. -/
def leftBy (state : HeapState κ ω) (freed : List Nat) : Set UsedBlock :=
  {block ∈ usedBlocks state.heap.layout.blocks.get? | block.address + headerSize ∉ freed}

theorem leftBy_nil (state : HeapState κ ω) :
    state.leftBy [] = usedBlocks state.heap.layout.blocks.get? := by
  simp [leftBy]

theorem leftBy_snoc {block : UsedBlock} (hsettled : state.heap.layout.Settled)
    (hblock : block ∈ usedBlocks state.heap.layout.blocks.get?) :
    state.leftBy (freed ++ [block.address + headerSize]) = state.leftBy freed \ {block} := by
  ext other
  simp only [leftBy, Set.mem_ofPred_eq, List.mem_append, List.mem_singleton, not_or, Set.mem_sdiff,
    Set.mem_singleton_iff, and_assoc]
  refine and_congr_right fun hother ↦ and_congr_right fun _ ↦ not_congr ⟨fun heq ↦ ?_, ?_⟩
  · exact hsettled.scattered.eq_of_address_eq hother hblock (Nat.add_right_cancel heq)
  · rintro rfl
    rfl

/-- The next pointer is that of a block that is left. -/
theorem exists_mem_leftBy (hnodup : (freed ++ pointer :: pointers).Nodup)
    (hpointer : ∃ block ∈ usedBlocks state.heap.layout.blocks.get?,
      pointer = block.address + headerSize) :
    ∃ block ∈ state.leftBy freed, pointer = block.address + headerSize := by
  obtain ⟨block, hblock, rfl⟩ := hpointer
  refine ⟨block, ⟨hblock, fun hmem ↦ ?_⟩, rfl⟩
  exact (List.nodup_append.mp hnodup).2.2 _ hmem _ List.mem_cons_self rfl

/-- What frees make of a heap: the pages that have gone back and the free ones that are left are
those that were or came to be vacant, and no more are left than there were or may be kept. What is
upheld with the supplier still holds. -/
structure Frees [PageSupplier κ ω] (origin : HeapState κ ω) (config : HeapConfig)
    (freed : List Nat) (log events : List Event) (state : HeapState κ ω) : Prop where
  settled : origin.heap.layout.Settled
  orderly : Orderly (log ++ events)
  keeps : Heap.Keeps config (origin.leftBy freed) (state.heap, state.world) (log ++ events)
  tagged : Tagged (origin.leftBy freed) state.memory
  pages : ∀ number page, state.heap.layout.pages.get? number = some page →
    origin.heap.layout.pages.get? number = some page
  count : state.heap.layout.freePages + (releasedBases events).length =
    (vacantPages origin.heap.layout.pages.get? (origin.leftBy freed)).ncard
  freePages : state.heap.layout.freePages = max origin.heap.layout.freePages (min config.sparePages
    (vacantPages origin.heap.layout.pages.get? (origin.leftBy freed)).ncard)
  upheld : ∀ good, PageSupplier.Upholds good →
    good (origin.heap.supplier, origin.world) (outstanding log) →
    good (state.heap.supplier, state.world) (outstanding (log ++ events))

namespace Frees

variable [PageSupplier κ ω] {config : HeapConfig} {log events more : List Event}

theorem start (horderly : Orderly log)
    (hkeeps : Heap.Keeps config (usedBlocks state.heap.layout.blocks.get?)
      (state.heap, state.world) log)
    (htagged : Tagged (usedBlocks state.heap.layout.blocks.get?) state.memory) :
    state.Frees config [] log [] state := by
  have hvacant : (vacantPages state.heap.layout.pages.get? (state.leftBy [])).ncard =
      state.heap.layout.freePages := by
    rw [leftBy_nil, ← hkeeps.settled.ncard_pagesFree, hkeeps.settled.pagesFree_eq]
  refine ⟨hkeeps.settled, ?_, ?_, ?_, fun _ _ hpage ↦ hpage, ?_, ?_, fun good _ hstart ↦ ?_⟩
  · rwa [List.append_nil]
  · rwa [leftBy_nil, List.append_nil]
  · rwa [leftBy_nil]
  · exact hvacant.symm
  · rw [hvacant]
    omega
  · rwa [List.append_nil]

variable (hfrees : origin.Frees config freed log events state) {block : UsedBlock}

include hfrees

theorem accepts (hblock : block ∈ origin.leftBy freed) :
    state.Completes (log ++ events) (block.address + headerSize)
      (deallocate (block.address + headerSize) state).answer := by
  have hused : block ∈ usedBlocks state.heap.layout.blocks.get? :=
    hfrees.keeps.used_eq.symm ▸ hblock
  exact deallocate_completes hfrees.keeps.settled hfrees.keeps.backed hused
    (hfrees.tagged block hblock)

/-- The page of a freed block is one more vacant page just if it is one more free page. -/
theorem ncard_vacantPages {merged : Layout} {number : Nat} {page : Page}
    (hblock : block ∈ origin.leftBy freed)
    (hmerges : state.heap.layout.Merges block merged number page) :
    (vacantPages origin.heap.layout.pages.get? (origin.leftBy freed \ {block})).ncard +
        state.heap.layout.freePages =
      (vacantPages origin.heap.layout.pages.get? (origin.leftBy freed)).ncard +
        merged.freePages := by
  have hpage := hfrees.pages number page hmerges.page_eq
  have hrest := vacantPages_sdiff hblock hpage hmerges.address_mem
    hfrees.settled.shaped.tiled.pages_apart
  have hfinite := finite_vacantPages origin.heap.layout.pages (origin.leftBy freed \ {block})
  have hused : usedBlocks merged.blocks.get? = origin.leftBy freed \ {block} := by
    rw [hmerges.used]
    exact congrArg (· \ {block}) hfrees.keeps.used_eq
  have hmem : number ∈ merged.pagesFree ↔
      number ∈ vacantPages origin.heap.layout.pages.get? (origin.leftBy freed \ {block}) := by
    rw [hmerges.settled.pagesFree_eq, hused, hmerges.pages]
    simp only [vacantPages, Set.mem_ofPred_eq, hmerges.page_eq, hpage]
  by_cases hfree : number ∈ merged.pagesFree
  · rw [hmerges.free_of_mem hfree, ← hrest,
      ← Set.ncard_sdiff_singleton_add_one (hmem.mp hfree) hfinite]
    omega
  · rw [hmerges.free_of_notMem hfree, ← hrest,
      Set.sdiff_singleton_eq_self fun hvacant ↦ hfree (hmem.mpr hvacant)]

/-- One more block is freed. -/
theorem step {answer : Except AllocError Unit}
    (hblock : block ∈ origin.leftBy freed)
    (hrun : deallocate (block.address + headerSize) state = ⟨.ok answer, after, more⟩) :
    answer = .ok () ∧
      origin.Frees config (freed ++ [block.address + headerSize]) log (events ++ more) after := by
  obtain ⟨hanswer, hmemory, horderly, hkeeps, merged, number, page, hmerges, hpages, hgone,
      hleftFree⟩ :=
    hfrees.keeps.deallocate_used hfrees.orderly hblock (hfrees.tagged block hblock) hrun
  have hvacant := hfrees.ncard_vacantPages hblock hmerges
  have hcount := hfrees.count
  have hfreePages := hfrees.freePages
  have hleft := @leftBy_snoc κ ω origin freed block hfrees.settled hblock.1
  rw [List.append_assoc] at horderly hkeeps
  refine ⟨hanswer, hfrees.settled, horderly, ?_, ?_, fun other otherPage hother ↦
    hfrees.pages _ _ (hpages _ _ hother), ?_, ?_, fun good hgood hstart ↦ ?_⟩
  · rwa [hleft]
  · rw [hleft, hmemory]
    exact (HeapDeed.Moves.frees hblock (hfrees.tagged block hblock)).tagged
      (hfrees.keeps.used_eq ▸ hfrees.keeps.settled.scattered)
      (hkeeps.used_eq ▸ hkeeps.settled.scattered) hfrees.tagged
  · rw [hleft, releasedBases_append, List.length_append]
    omega
  -- as many pages were vacant as were free or had gone back, so none was kept beyond the limit
  · rw [hleft]
    rcases hmerges.freePages_eq_or with hsame | hone <;> omega
  · have hunder : Heap.KeepsUnder (.upheld hgood) config (origin.leftBy freed)
        (state.heap, state.world) (log ++ events) :=
      ⟨hfrees.keeps, hfrees.upheld good hgood hstart⟩
    have hends := endsWell_deallocate hunder (block.address + headerSize)
    rw [hrun, List.append_assoc] at hends
    rw [← List.append_assoc]
    exact (hends horderly).holds answer rfl

section Same

variable {otherFreed : List Nat} {otherEvents : List Event} {otherState : HeapState κ ω}
  (hother : origin.Frees config otherFreed log otherEvents otherState)
  (hleft : origin.leftBy otherFreed = origin.leftBy freed)

include hother hleft

/-- If the same blocks are left, equally many pages have gone back. -/
theorem length_eq : (releasedBases events).length = (releasedBases otherEvents).length := by
  have hcount := hfrees.count
  have hotherCount := hother.count
  have hfreePages := hfrees.freePages
  have hotherFreePages := hother.freePages
  rw [hleft] at hotherCount hotherFreePages
  omega

/-- If the same blocks are left, they tell how a page is divided that is held in both cases. -/
theorem exists_extents {number otherNumber : Nat} {page otherPage : Page}
    (hpage : state.heap.layout.pages.get? number = some page)
    (hotherPage : otherState.heap.layout.pages.get? otherNumber = some otherPage)
    (hbase : page.base = otherPage.base) :
    ∃ extents, state.heap.layout.Extents number extents ∧
      otherState.heap.layout.Extents otherNumber extents ∧
      ∀ address size, ⟨address, size, true⟩ ∈ extents ↔
        Gap (origin.leftBy freed) page address (address + size) := by
  have horigin := hfrees.pages number page hpage
  have hotherOrigin := hother.pages otherNumber otherPage hotherPage
  obtain rfl : number = otherNumber := by
    by_contra hne
    exact hfrees.settled.shaped.tiled.page_base_ne horigin hotherOrigin hne hbase
  obtain rfl : page = otherPage := Option.some.inj (horigin.symm.trans hotherOrigin)
  have hused := hfrees.keeps.used_eq
  have hotherUsed := hother.keeps.used_eq
  rw [hleft] at hotherUsed
  dsimp only at hused hotherUsed
  have hsettled := hfrees.keeps.settled
  have hotherSettled := hother.keeps.settled
  obtain ⟨extents, hextents⟩ := hsettled.exists_extents hpage
  obtain ⟨otherExtents, hotherExtents⟩ := hotherSettled.exists_extents hotherPage
  obtain rfl := hextents.eq hsettled hotherSettled hotherExtents hpage hotherPage
    (hused.trans hotherUsed.symm)
  refine ⟨extents, hextents, hotherExtents, fun address size ↦ ?_⟩
  rw [hsettled.mem_extents_iff hextents hpage]
  simp [Extent.Divides, hused]

end Same

section Pointers

variable (hnodup : (freed ++ pointers).Nodup)
  (hpointers : ∀ pointer ∈ pointers, ∃ block ∈ usedBlocks origin.heap.layout.blocks.get?,
    pointer = block.address + headerSize)

include hnodup hpointers

/-- All the blocks are freed, and none is refused. -/
theorem run {answer : Except AllocError Unit}
    (hrun : deallocateAll pointers state = ⟨.ok answer, after, more⟩) :
    answer = .ok () ∧ origin.Frees config (freed ++ pointers) log (events ++ more) after := by
  induction pointers generalizing state freed events more with
  | nil =>
    cases hrun
    rw [List.append_nil, List.append_nil]
    exact ⟨rfl, hfrees⟩
  | cons pointer pointers ih =>
    obtain ⟨block, hblock, rfl⟩ :=
      exists_mem_leftBy hnodup (hpointers pointer List.mem_cons_self)
    rw [List.append_cons] at hnodup ⊢
    obtain ⟨error, hfirst, -⟩ | ⟨value, middle, first, rest, hfirst, hrest, rfl⟩ :=
      Act.of_bind_run hrun
    · obtain ⟨hanswer, -⟩ := hfrees.step hblock hfirst
      cases hanswer
    · obtain ⟨-, hnext⟩ := hfrees.step hblock hfirst
      rw [← List.append_assoc]
      exact ih hnext hnodup
        (fun other hother ↦ hpointers other (List.mem_cons_of_mem _ hother)) hrest

/-- All the blocks can be freed. -/
theorem acceptsAll : state.AcceptsAll (log ++ events) pointers := by
  induction pointers generalizing state freed events with
  | nil => exact acceptsAll_nil state _
  | cons pointer pointers ih =>
    obtain ⟨block, hblock, rfl⟩ :=
      exists_mem_leftBy hnodup (hpointers pointer List.mem_cons_self)
    rw [List.append_cons] at hnodup
    refine acceptsAll_cons (hfrees.accepts hblock) fun middle first hfirst ↦ ?_
    rw [List.append_assoc]
    exact ih (hfrees.step hblock hfirst).2 hnodup
      fun other hother ↦ hpointers other (List.mem_cons_of_mem _ hother)

/-- A supplier that takes back all that is out lets no deallocation fail. -/
theorem answer_eq {good : κ × ω → List Region → Prop} (hgood : PageSupplier.Upholds good)
    (htakes : ∀ site out, good site out → PageSupplier.TakesBack site out)
    (hstart : good (origin.heap.supplier, origin.world) (outstanding log)) :
    (deallocateAll pointers state).answer = .ok (.ok ()) := by
  rcases hfrees.acceptsAll hnodup hpointers with hdone |
    ⟨earlier, pointer, later, middle, more, rfl, hearlier, region, hregion, -, fault, hfault, -⟩
  · exact hdone
  · rw [← List.append_assoc] at hnodup
    obtain ⟨-, hmiddle⟩ := hfrees.run hnodup.of_append_left
      (fun other hother ↦ hpointers other (List.mem_append_left _ hother)) hearlier
    have hholds := hmiddle.upheld good hgood hstart
    rw [← List.append_assoc] at hholds
    obtain ⟨answer, hanswer⟩ := htakes _ _ hholds region hregion
    rw [hfault] at hanswer
    cases hanswer

end Pointers

end Frees

end HeapState

namespace HeapRun

variable [PageSupplier κ ω] {state : HeapState κ ω} {deeds : List HeapDeed} {log : List Event}

/-- Different pointers that are out, with all tags in place, are taken in any order, and with a
supplier that takes back all that is out their deallocation comes to its end. In any two orders
equally many pages go back, and a page that is held after both is divided in the same way: its free
blocks are the gaps between the blocks in use that are left. -/
theorem frees_in_any_order (hrun : HeapRun AnyWrite state deeds log) (horderly : Orderly log)
    (htagged : Tagged (usedBlocks state.heap.layout.blocks.get?) state.memory)
    {first second : List Nat} (hperm : first.Perm second) (hnodup : first.Nodup)
    (hlive : ∀ pointer ∈ first, pointer ∈ HeapDeed.live deeds) :
    state.AcceptsAll log first ∧ state.AcceptsAll log second ∧
    (∀ good, PageSupplier.Upholds good →
      (∀ site out, good site out → PageSupplier.TakesBack site out) →
      good (state.heap.supplier, state.world) (outstanding log) →
      (HeapState.deallocateAll first state).answer = .ok (.ok ()) ∧
        (HeapState.deallocateAll second state).answer = .ok (.ok ())) ∧
    ∀ answer firstEnd events otherAnswer secondEnd otherEvents,
      HeapState.deallocateAll first state = ⟨.ok answer, firstEnd, events⟩ →
      HeapState.deallocateAll second state = ⟨.ok otherAnswer, secondEnd, otherEvents⟩ →
      (releasedBases events).length = (releasedBases otherEvents).length ∧
      usedBlocks firstEnd.heap.layout.blocks.get? = state.leftBy first ∧
      usedBlocks secondEnd.heap.layout.blocks.get? = state.leftBy first ∧
      ∀ number page other otherPage, firstEnd.heap.layout.pages.get? number = some page →
        secondEnd.heap.layout.pages.get? other = some otherPage → page.base = otherPage.base →
        ∃ extents, firstEnd.heap.layout.Extents number extents ∧
          secondEnd.heap.layout.Extents other extents ∧
          ∀ address size, ⟨address, size, true⟩ ∈ extents ↔
            Gap (state.leftBy first) page address (address + size) := by
  obtain ⟨config, used, hkeeps, hpoints⟩ := hrun.exists_points horderly
  obtain rfl := hkeeps.used_eq
  have hstart := HeapState.Frees.start horderly hkeeps htagged
  have hpointers : ∀ pointer ∈ first, ∃ block ∈ usedBlocks state.heap.layout.blocks.get?,
      pointer = block.address + headerSize := fun pointer hpointer ↦
    (hpoints.mem_iff pointer).mp (hlive pointer hpointer)
  have hothers : ∀ pointer ∈ second, ∃ block ∈ usedBlocks state.heap.layout.blocks.get?,
      pointer = block.address + headerSize := fun pointer hpointer ↦
    hpointers pointer (hperm.mem_iff.mpr hpointer)
  have hotherNodup : second.Nodup := hperm.nodup_iff.mp hnodup
  have haccepts := hstart.acceptsAll hnodup hpointers
  have hotherAccepts := hstart.acceptsAll hotherNodup hothers
  rw [List.append_nil] at haccepts hotherAccepts
  refine ⟨haccepts, hotherAccepts, fun good hgood htakes hholds ↦
      ⟨hstart.answer_eq hnodup hpointers hgood htakes hholds,
        hstart.answer_eq hotherNodup hothers hgood htakes hholds⟩,
    fun answer firstEnd events otherAnswer secondEnd otherEvents hfirst hsecond ↦ ?_⟩
  obtain ⟨-, hfrees⟩ := hstart.run hnodup hpointers hfirst
  obtain ⟨-, hotherFrees⟩ := hstart.run hotherNodup hothers hsecond
  simp only [List.nil_append] at hfrees hotherFrees
  have hleft : state.leftBy second = state.leftBy first := by
    unfold HeapState.leftBy
    simp only [hperm.mem_iff]
  exact ⟨hfrees.length_eq hotherFrees hleft, hfrees.keeps.used_eq,
    hotherFrees.keeps.used_eq.trans hleft, fun _ _ _ _ hpage hotherPage hbase ↦
      hfrees.exists_extents hotherFrees hleft hpage hotherPage hbase⟩

/-- One of two pages goes back when its two blocks are freed, the one that ends the page before or
after the one that starts it. -/
theorem frees_in_any_order_of_two_pages :
    ∃ firstEnd secondEnd, HeapRun AnyWrite threeTaken [.allocate 100 (.ok 4112),
        .allocate 100 (.ok 4240), .allocate 16000 (.ok 20496)] threeLog ∧
      HeapState.deallocateAll [4112, 4240] threeTaken = ⟨.ok (.ok ()), firstEnd,
        [.noted (.pageReleased 4096 16384), .released 4096]⟩ ∧
      HeapState.deallocateAll [4240, 4112] threeTaken = ⟨.ok (.ok ()), secondEnd,
        [.noted (.pageReleased 4096 16384), .released 4096]⟩ ∧
      threeTaken.AcceptsAll threeLog [4240, 4112] ∧
      ∃ number page other otherPage extents,
        firstEnd.heap.layout.pages.get? number = some page ∧
        secondEnd.heap.layout.pages.get? other = some otherPage ∧ page.base = 20480 ∧
        otherPage.base = 20480 ∧ firstEnd.heap.layout.Extents number extents ∧
        secondEnd.heap.layout.Extents other extents := by
  have hrun := threeTaken_run AnyWrite
  obtain ⟨config, used, hkeeps, -, htagged⟩ :=
    (threeTaken_run HeapState.Honest).exists_tagged orderly_threeLog
  have hused := hkeeps.used_eq
  dsimp only at hused
  rw [← hused] at htagged
  obtain ⟨-, haccepts, hanswers, hsame⟩ := frees_in_any_order hrun orderly_threeLog htagged
    (List.Perm.swap 4240 4112 []) (by decide) (by decide)
  obtain ⟨hfirstAnswer, hsecondAnswer⟩ :=
    hanswers _ linear_upholds (fun site out _ ↦ linear_takesBack site out) trivial
  have hends : ∀ order ∈ [[4112, 4240], [4240, 4112]],
      ((HeapState.deallocateAll order threeTaken).events,
        ((HeapState.deallocateAll order threeTaken).state.heap.layout.pages.get? 1).map Page.base) =
      ([.noted (.pageReleased 4096 16384), .released 4096], some 20480) := by
    decide +kernel
  have hshown : ∀ order ∈ [[4112, 4240], [4240, 4112]],
      (HeapState.deallocateAll order threeTaken).answer = .ok (.ok ()) → ∃ after page,
      HeapState.deallocateAll order threeTaken = ⟨.ok (.ok ()), after,
        [.noted (.pageReleased 4096 16384), .released 4096]⟩ ∧
      after.heap.layout.pages.get? 1 = some page ∧ page.base = 20480 := by
    intro order horder hanswer
    obtain ⟨hevents, hpage⟩ := Prod.mk.inj (hends order horder)
    obtain ⟨page, hpage, hbase⟩ := Option.map_eq_some_iff.mp hpage
    exact ⟨_, page, Outcome.eq_of_answer hanswer hevents, hpage, hbase⟩
  obtain ⟨firstEnd, page, hfirst, hpage, hbase⟩ :=
    hshown [4112, 4240] List.mem_cons_self hfirstAnswer
  obtain ⟨secondEnd, otherPage, hsecond, hotherPage, hotherBase⟩ :=
    hshown [4240, 4112] (List.mem_cons_of_mem _ List.mem_cons_self) hsecondAnswer
  obtain ⟨-, -, -, hpages⟩ := hsame _ _ _ _ _ _ hfirst hsecond
  obtain ⟨extents, hextents, hotherExtents, -⟩ :=
    hpages 1 page 1 otherPage hpage hotherPage (hbase.trans hotherBase.symm)
  exact ⟨firstEnd, secondEnd, hrun, hfirst, hsecond, haccepts, 1, page, 1, otherPage, extents,
    hpage, hotherPage, hbase, hotherBase, hextents, hotherExtents⟩

end HeapRun

end KernelMemory
