import KernelMemory.Proofs.Heap.Demand
import KernelMemory.Proofs.Heap.Separation
import KernelMemory.Proofs.Heap.Undo

/-!
# Allocations that are freed at once

An allocation that does not call the supplier takes its block out of the free block that a search
finds in the layout as it is (`HeapState.of_quiet_allocation`). If its pointer is freed next and no
page goes back, the heap is what it was before (`HeapRun.freed_at_once`): it has the same pages and
the same chains of blocks, the free lists have the same order and the same marks, the counts are the
same, and later blocks get the indices that they would have had. In memory nothing but the tag in
front of the pointer differs.
-/

set_option autoImplicit false
set_option relaxedAutoImplicit false

namespace KernelMemory

variable {κ ω : Type}

/-! ### Acts without a call -/

namespace Heap

variable {site after : Site κ ω} {size : Nat} {events : List Event}

/-- What follows a search runs on what it found. -/
theorem of_findFree?_bind {α : Type} {next : Option Nat → Act (Site κ ω) α}
    {answer : Except AllocError α}
    (hrun : (findFree? size >>= next) site = ⟨.ok answer, after, events⟩) :
    ∃ found, site.1.layout.findFree? size = .ok found ∧
      next found site = ⟨.ok answer, after, events⟩ := by
  obtain ⟨heap, world⟩ := site
  cases hfound : heap.layout.findFree? size with
  | error fault =>
    have hfault : findFree? size (heap, world) = ⟨.error fault, (heap, world), []⟩ := by
      unfold findFree?
      rw [Act.get_bind_run]
      simp only [hfound]
      rfl
    rw [Act.bind_run_of_fault hfault] at hrun
    cases hrun
  | ok found =>
    rw [Act.bind_run_of_silent (findFree?_run hfound world)] at hrun
    exact ⟨found, rfl, hrun⟩

variable [PageSupplier κ ω]

/-- A growth that came to its end has called the supplier. -/
theorem calls_grow {answer : Except AllocError Unit}
    (hrun : grow size site = ⟨.ok answer, after, events⟩) : calls events ≠ [] := by
  obtain ⟨heap, world⟩ := site
  have hgrow : grow size (heap, world) =
      (onSupplier (PageSupplier.request (max size heap.config.pageSize)) >>= addRegion)
        (heap, world) := rfl
  rw [hgrow] at hrun
  generalize max size heap.config.pageSize = asked at hrun
  rcases hsupply : PageSupplier.supply asked (heap.supplier, world) with
    ⟨fault | error | region, middle, shown⟩
  · rw [Act.bind_run_of_fault (onSupplier_run (PageSupplier.request_of_fault hsupply))] at hrun
    cases hrun
  · rw [Act.bind_run_of_refused (onSupplier_run (PageSupplier.request_of_refused hsupply))] at hrun
    obtain ⟨-, -, rfl⟩ := Outcome.mk.inj hrun
    rw [calls_append]
    exact List.append_ne_nil_of_right_ne_nil _ (List.cons_ne_nil _ _)
  · rw [Act.bind_run_of_value (onSupplier_run (PageSupplier.request_of_region hsupply))] at hrun
    obtain ⟨-, -, rfl⟩ := Outcome.mk.inj hrun
    rw [calls_append, calls_append]
    exact List.append_ne_nil_of_left_ne_nil
      (List.append_ne_nil_of_right_ne_nil _ (List.cons_ne_nil _ _)) _

/-- What follows a growth follows a call. -/
theorem calls_grow_bind {α : Type} {next : Except AllocError Unit → Act (Site κ ω) α}
    {answer : Except AllocError α}
    (hrun : ((grow size).settle >>= next) site = ⟨.ok answer, after, events⟩) :
    calls events ≠ [] := by
  obtain ⟨error, hgrow, -⟩ | ⟨settled, middle, first, rest, hgrow, -, rfl⟩ := Act.of_bind_run hrun
  · obtain ⟨_, -, hgrow⟩ := Act.of_settle_run hgrow
    exact calls_grow hgrow
  · obtain ⟨_, -, hgrow⟩ := Act.of_settle_run hgrow
    rw [calls_append]
    exact List.append_ne_nil_of_left_ne_nil (calls_grow hgrow) _

/-- If the supplier is not called, the free blocks reach the watermark and nothing changes. -/
theorem growIfLow_of_quiet {answer : Except AllocError Unit}
    (hrun : growIfLow site = ⟨.ok answer, after, events⟩) (hquiet : calls events = []) :
    after = site ∧ events = [] := by
  unfold growIfLow at hrun
  rw [Act.get_bind_run] at hrun
  obtain ⟨found, -, hnext⟩ := of_findFree?_bind hrun
  cases found with
  | some index =>
    cases hnext
    exact ⟨rfl, rfl⟩
  | none =>
    rw [if_pos Option.isNone_none] at hnext
    exact absurd hquiet (calls_grow_bind hnext)

/-- If the supplier is not called, a block is found in the layout as it is. -/
theorem findOrGrow_of_quiet {answer : Except AllocError Nat}
    (hrun : findOrGrow size site = ⟨.ok answer, after, events⟩) (hquiet : calls events = []) :
    ∃ index, answer = .ok index ∧ site.1.layout.findFree? size = .ok (some index) ∧
      after = site ∧ events = [] := by
  unfold findOrGrow at hrun
  obtain ⟨found, hfound, hnext⟩ := of_findFree?_bind hrun
  cases found with
  | some index =>
    cases hnext
    exact ⟨index, rfl, hfound, rfl, rfl⟩
  | none =>
    cases hround : roundUp size with
    | error fault =>
      rw [hround] at hnext
      cases hnext
    | ok rounded =>
      dsimp only at hnext
      rw [hround, Act.lift_ok_bind_run] at hnext
      exact absurd hquiet (calls_grow_bind hnext)

end Heap

/-- A page that is dropped is one page less. -/
theorem Layout.Settled.size_dropPage {layout dropped : Layout} {first : Nat} {block : Block}
    {page : Page} (hsettled : layout.Settled)
    (hdrop : Droppable layout.blocks.get? layout.pages.get? first block page)
    (hdropped : layout.dropPage block.page = .ok (page, dropped)) :
    dropped.pages.size + 1 = layout.pages.size := by
  obtain ⟨_, heq, hsettledDropped, -, hpages⟩ := hsettled.dropPage hdrop
  obtain rfl := (Prod.mk.inj (Except.ok.inj (heq.symm.trans hdropped))).2
  obtain ⟨_, hchained⟩ := hsettled.shaped.pages
  obtain ⟨_, hchainedDropped⟩ := hsettledDropped.shaped.pages
  have hmem : block.page ∈ indices layout.pages.get? := by
    intro hnone
    rw [hdrop.page_eq] at hnone
    cases hnone
  rw [hchainedDropped.size_eq, hchained.size_eq, hpages, pagesWithout, indices_update_none,
    Set.ncard_sdiff_singleton_add_one hmem (Arena.indices_finite layout.pages)]

namespace HeapState

variable {state taken : HeapState κ ω}

theorem of_onSite_run {α : Type} {act : Act (Heap.Site κ ω) α}
    {answer : Except Fault (Except AllocError α)} {events : List Event}
    (hrun : onSite act state = ⟨answer, taken, events⟩) :
    ∃ site, act (state.heap, state.world) = ⟨answer, site, events⟩ ∧
      taken = { state with heap := site.1, world := site.2 } := by
  obtain ⟨hanswer, hafter, hevents⟩ := Outcome.mk.inj hrun
  exact ⟨_, Outcome.eq_of_answer hanswer hevents, hafter.symm⟩

/-- The allocation is served by the free block that a search finds in the layout as it is. The
blocks, the lists and the counts change, one tag is written, and all else stays as it is. -/
structure ServedBy (state : HeapState κ ω) (request : HeapRequest) (index : Nat) (block : Block)
    (used : UsedBlock) (taken : HeapState κ ω) : Prop where
  found : state.heap.layout.findFree? request.search = .ok (some index)
  block_eq : state.heap.layout.blocks.get? index = some block
  isFree : block.isFree = true
  room : request.search ≤ block.size
  take_eq : state.heap.layout.take index request.need request.align =
    .ok (used.index, taken.heap.layout)
  settled : taken.heap.layout.Settled
  used_mem : used ∈ usedBlocks taken.heap.layout.blocks.get?
  pages : taken.heap.layout.pages = state.heap.layout.pages
  state_eq : taken = { state with
    heap := { state.heap with layout := taken.heap.layout }
    memory := state.memory.writeTag used.address (.live used.index) }

/-- A block that was found is taken, and its tag is written. -/
theorem servedBy_of_take {request : HeapRequest} {size align index : Nat} {block : Block}
    (hserves : request.Serves size align) (hsettled : state.heap.layout.Settled)
    (hfound : state.heap.layout.findFree? request.search = .ok (some index))
    (hblock : state.heap.layout.blocks.get? index = some block) (hfree : block.isFree = true)
    (hroom : request.search ≤ block.size) :
    ∃ used taken, state.ServedBy request index block used taken ∧ (do
        let block ← onSite (Heap.step fun layout ↦ layout.take index request.need request.align)
        let address := (← (← get).heap.layout.block block).address
        writeTag address (.live block)
        Word.add address headerSize : Act (HeapState κ ω) Nat) state =
          ⟨.ok (.ok (used.address + headerSize)), taken, []⟩ := by
  obtain ⟨number, part, layout, htake, hpart, hrun⟩ := take_run hserves hsettled hblock hfree hroom
  obtain ⟨_, _, _, heq, hsettledTaken, hpartAgain, -, hused, hpages, -⟩ :=
    hsettled.take hblock hfree hserves.need (hserves.need_le.trans hroom)
      (hserves.room.imp_right fun hle ↦ hle.trans hroom)
  obtain ⟨rfl, rfl⟩ := Prod.mk.inj (Except.ok.inj (heq.symm.trans htake))
  obtain rfl := Option.some.inj (hpartAgain.symm.trans hpart)
  exact ⟨⟨_, _, _⟩, _, ⟨hfound, hblock, hfree, hroom, htake, hsettledTaken,
    hused ▸ Set.mem_insert _ _, hpages, rfl⟩, hrun⟩

variable [PageSupplier κ ω]

/-- An allocation that is granted made all its steps: the request was checked, the heap grew if it
was low, a block was found, and one was taken out of that. -/
theorem of_allocateAligned_run {size align pointer : Nat} {events : List Event}
    (halloc : allocateAligned size align state = ⟨.ok (.ok pointer), taken, events⟩) :
    ∃ request middle grown index first second last,
      HeapRequest.check state.heap.config size align = .ok (.ok request) ∧
      Heap.growIfLow (state.heap, state.world) = ⟨.ok (.ok ()), middle, first⟩ ∧
      Heap.findOrGrow request.search middle = ⟨.ok (.ok index), grown, second⟩ ∧
      (do
        let block ← onSite (Heap.step fun layout ↦ layout.take index request.need request.align)
        let address := (← (← get).heap.layout.block block).address
        writeTag address (.live block)
        Word.add address headerSize : Act (HeapState κ ω) Nat)
          { state with heap := grown.1, world := grown.2 } = ⟨.ok (.ok pointer), taken, last⟩ ∧
      events = first ++ (second ++ last) := by
  unfold allocateAligned at halloc
  rw [Act.get_bind_run] at halloc
  obtain ⟨_, -, heq⟩ | ⟨request, _, _, _, hchecked, hserve, rfl⟩ := Act.of_bind_run halloc
  · cases heq
  obtain ⟨hcheck, rfl, rfl⟩ := Outcome.mk.inj hchecked
  obtain ⟨_, -, heq⟩ | ⟨_, _, first, _, hgrow, hsearchTake, rfl⟩ := Act.of_bind_run hserve
  · cases heq
  obtain ⟨middle, hgrowSite, rfl⟩ := of_onSite_run hgrow
  obtain ⟨_, -, heq⟩ | ⟨index, _, second, last, hsearch, htake, rfl⟩ := Act.of_bind_run hsearchTake
  · cases heq
  obtain ⟨grown, hsearchSite, rfl⟩ := of_onSite_run hsearch
  exact ⟨request, middle, grown, index, first, second, last, hcheck, hgrowSite, hsearchSite, htake,
    List.nil_append _⟩

/-- An allocation that does not call the supplier is served from the blocks there are. -/
theorem of_quiet_allocation {size align pointer : Nat} {events : List Event}
    (hsettled : state.heap.layout.Settled)
    (halloc : allocateAligned size align state = ⟨.ok (.ok pointer), taken, events⟩)
    (hquiet : calls events = []) :
    ∃ request index block used, HeapRequest.Serves request size align ∧
      state.ServedBy request index block used taken ∧ pointer = used.address + headerSize ∧
      events = [] := by
  obtain ⟨request, _, _, index, first, second, last, hcheck, hgrow, hsearch, htake, rfl⟩ :=
    of_allocateAligned_run halloc
  have hserves := HeapRequest.check_spec hcheck
  rw [calls_append, calls_append, List.append_eq_nil_iff, List.append_eq_nil_iff] at hquiet
  obtain ⟨hfirst, hsecond, -⟩ := hquiet
  obtain ⟨rfl, rfl⟩ := Heap.growIfLow_of_quiet hgrow hfirst
  obtain ⟨_, heq, hfound, rfl, rfl⟩ := Heap.findOrGrow_of_quiet hsearch hsecond
  obtain rfl := Except.ok.inj heq
  obtain ⟨block, hblock, hfree, hroom⟩ := hsettled.findFree? hserves.search_le hfound
  obtain ⟨used, after, hserved, hrun⟩ :=
    servedBy_of_take hserves hsettled hfound hblock hfree hroom
  obtain ⟨hpointer, rfl, rfl⟩ := Outcome.mk.inj (hrun.symm.trans htake)
  exact ⟨request, index, block, used, hserves, hserved,
    (Except.ok.inj (Except.ok.inj hpointer)).symm, rfl⟩

/-- A deallocation after which there are as many pages as before takes no step but to reclaim. -/
theorem deallocate_of_pageCount {block : UsedBlock} (hsettled : state.heap.layout.Settled)
    (hblock : block ∈ usedBlocks state.heap.layout.blocks.get?) (htag : state.IsTagged block)
    (hkept : (deallocate (block.address + headerSize) state).state.heap.pageCount =
      state.heap.pageCount) :
    ∃ spare merged, state.heap.layout.reclaim block.index = .ok (spare, merged) ∧
      merged.Settled ∧ merged.pages = state.heap.layout.pages ∧
      deallocate (block.address + headerSize) state =
        ⟨.ok (.ok ()), state.reclaimed block merged, []⟩ := by
  obtain ⟨spare, merged, number, page, hreclaim, hmerges, hgiven, hrun⟩ :=
    exists_deallocate hsettled hblock htag
  refine ⟨spare, merged, hreclaim, hmerges.settled, hmerges.pages, hrun fun hexceeds ↦ ?_⟩
  obtain ⟨⟨first, free, hdrop, rfl⟩, hreleases⟩ := hgiven hexceeds
  obtain ⟨dropped, hdropped, -⟩ := hmerges.settled.dropPage hdrop
  have hfewer := hmerges.settled.size_dropPage hdrop hdropped
  have hreleased := @Heap.releasePage_run κ ω _ (state.reclaimed block merged).heap _ _ _ hdropped
    (state.reclaimed block merged).world
  have hafter : (deallocate (block.address + headerSize) state).state.heap.pageCount =
      dropped.pages.size := by
    rw [hreleases, onSite_run hreleased]
    rfl
  rw [hafter] at hkept
  rw [hmerges.pages] at hfewer
  exact absurd hkept (Nat.ne_of_lt (Nat.lt_of_succ_le hfewer.le))

end HeapState

namespace HeapRun

variable [PageSupplier κ ω] {state taken : HeapState κ ω} {deeds : List HeapDeed}
  {log events : List Event} {mayWrite : HeapState κ ω → List Nat → Memory → Prop}
  {size align pointer : Nat}

/-- After every run, if an allocation is granted without a call of the supplier and its pointer is
freed next, with the tag in front of it as it was, and no page goes back, then the heap is what it
was before both calls. Of memory only the tag and what was written in between may differ. -/
theorem freed_at_once (hrun : HeapRun mayWrite state deeds log) (horderly : Orderly log)
    (halloc : HeapState.allocateAligned size align state = ⟨.ok (.ok pointer), taken, events⟩)
    (hquiet : calls events = []) {written : Memory}
    (hheader : written.tagAt (pointer - headerSize) = taken.memory.tagAt (pointer - headerSize))
    (hkept : (HeapState.deallocate pointer { taken with memory := written }).state.heap.pageCount =
      taken.heap.pageCount) :
    ∃ after, HeapState.deallocate pointer { taken with memory := written } =
        ⟨.ok (.ok ()), after, []⟩ ∧
      state.heap.layout.Restored after.heap.layout ∧ after.heap.config = state.heap.config ∧
      after.heap.supplier = state.heap.supplier ∧ after.world = state.world ∧
      ∀ places, taken.memory.AgreesOutside places written →
        state.memory.AgreesOutside (places ∪ HeapDeed.headerOf pointer) after.memory := by
  obtain ⟨config, live, hkeeps, -⟩ := hrun.exists_points horderly
  have hsettled := hkeeps.settled
  obtain ⟨request, index, block, used, hserves, hserved, rfl, -⟩ :=
    HeapState.of_quiet_allocation hsettled halloc hquiet
  have htag : HeapState.IsTagged { taken with memory := written } used := by
    rw [Nat.add_sub_cancel, hserved.state_eq] at hheader
    exact hheader.trans (Memory.tagAt_writeTag _ _ _)
  obtain ⟨spare, merged, hreclaim, hsettledMerged, hpages, hfrees⟩ :=
    @HeapState.deallocate_of_pageCount κ ω { taken with memory := written } _ used hserved.settled
      hserved.used_mem htag hkept
  refine ⟨_, hfrees, ?_, ?_, ?_, ?_, fun places hagrees ↦ ?_⟩
  · obtain ⟨picture, hshows⟩ := hsettled.shaped.exists_shows
    obtain ⟨shown, hshown, hundone⟩ := hsettled.reclaim_undoes_take hserved.found hserved.block_eq
      hserved.isFree hserves.need (hserves.need_le.trans hserved.room)
      (hserves.room.imp_right fun hle ↦ hle.trans hserved.room) hserved.take_eq picture hshows
    exact hsettled.restored hsettledMerged (hpages.trans hserved.pages) hshows
      (hundone _ _ hshown ⟨spare, hreclaim⟩)
  · show taken.heap.config = state.heap.config
    rw [hserved.state_eq]
  · show taken.heap.supplier = state.heap.supplier
    rw [hserved.state_eq]
  · show taken.world = state.world
    rw [hserved.state_eq]
  · rw [hserved.state_eq] at hagrees
    rw [HeapDeed.headerOf_add]
    refine (((state.memory.agreesOutside_writeTag _ _).trans hagrees).trans
      (written.agreesOutside_writeTag _ _)).mono ?_
    rw [Set.union_comm places, Set.union_right_comm, Set.union_self]

/-- The free block is cut before and behind the one that is taken. -/
theorem freed_at_once_of_two_cuts :
    HeapRun AnyWrite oneTaken.state [.allocate 100 (.ok 4112)] firstLog ∧ Orderly firstLog ∧
    ∃ taken after, HeapState.allocateAligned 100 256 oneTaken.state =
        ⟨.ok (.ok 20224), taken, []⟩ ∧
      oneTaken.state.heap.layout.blocks.size = 3 ∧ taken.heap.layout.blocks.size = 5 ∧
      (HeapState.deallocate 20224 taken).state.heap.pageCount = taken.heap.pageCount ∧
      HeapState.deallocate 20224 taken = ⟨.ok (.ok ()), after, []⟩ ∧
      oneTaken.state.heap.layout.Restored after.heap.layout ∧
      oneTaken.state.memory.AgreesOutside (HeapDeed.headerOf 20224) after.memory := by
  have hshown : ((HeapState.allocateAligned 100 256 oneTaken.state).answer,
      (HeapState.allocateAligned 100 256 oneTaken.state).events,
      (HeapState.allocateAligned 100 256 oneTaken.state).state.heap.layout.blocks.size) =
      (.ok (.ok 20224), [], 5) := by decide +kernel
  have hkept : (HeapState.deallocate 20224
      (HeapState.allocateAligned 100 256 oneTaken.state).state).state.heap.pageCount =
      (HeapState.allocateAligned 100 256 oneTaken.state).state.heap.pageCount := by decide +kernel
  obtain ⟨hanswer, hshown⟩ := Prod.mk.inj hshown
  obtain ⟨hevents, hblocks⟩ := Prod.mk.inj hshown
  have hbefore : oneTaken.state.heap.layout.blocks.size = 3 := by decide +kernel
  have halloc := Outcome.eq_of_answer hanswer hevents
  generalize (HeapState.allocateAligned 100 256 oneTaken.state).state = taken
    at halloc hblocks hkept
  obtain ⟨after, hfrees, hrestored, -, -, -, hmemory⟩ :=
    freed_at_once (oneTaken_run AnyWrite) orderly_firstLog halloc rfl rfl hkept
  refine ⟨oneTaken_run AnyWrite, orderly_firstLog, taken, after, halloc, hbefore, hblocks, hkept,
    hfrees, hrestored, ?_⟩
  have hheader := hmemory ∅ (taken.memory.agreesOutside_refl ∅)
  rwa [Set.empty_union] at hheader

end HeapRun

end KernelMemory
