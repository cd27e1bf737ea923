import KernelMemory.Proofs.Heap.Search
import KernelMemory.Proofs.Heap.Vacancy
import KernelMemory.Proofs.Heap.Validation

/-!
# How many free pages are kept

A heap asks for a page before an allocation when no free block reaches the watermark, and then no
page is free. It asks for a page in an allocation when no free block is large enough, and then the
allocation is made on that page. So with a supplier that gives no less than it is asked for
(`Generous`) the free pages are those that may be kept, or there is one of them (`Layout.Retains`).
A deallocation gives the page of its block back just if there would be more
(`HeapRun.few_free_pages`).
-/

set_option autoImplicit false
set_option relaxedAutoImplicit false

namespace KernelMemory

/-- No region is smaller than what was asked for. -/
def Generous (log : List Event) : Prop :=
  ∀ size region, .supplied size region ∈ log → size ≤ region.size

theorem Generous.of_append {log events : List Event} (hgenerous : Generous (log ++ events)) :
    Generous log := fun size region hmem ↦ hgenerous size region (List.mem_append_left _ hmem)

/-- A page has the size that was asked for, if that is one that a page may have. -/
theorem Region.le_pageSize {region : Region} {size : Nat} (hsize : size ≤ region.size)
    (hmax : size ≤ maxBlockSize) (hdvd : blockAlign ∣ size) : size ≤ region.pageSize := by
  unfold pageSize
  obtain ⟨count, rfl⟩ := hdvd
  rw [Nat.mul_comm]
  refine Nat.mul_le_mul_right _ ((Nat.le_div_iff_mul_le (by decide)).mpr ?_)
  rw [Nat.mul_comm]
  exact Nat.le_min.mpr ⟨hsize, hmax⟩

variable {κ ω : Type} [PageSupplier κ ω]

/-- The suppliers keep order, give no less than they are asked for, and may fault. -/
def Contract.generous : Contract κ ω := Contract.orderly.restrict Generous Generous.of_append

/-! ### Free pages of a layout -/

namespace Layout

/-- All pages have the size that is asked for with every page, and there are no more free ones than
may be kept, or one. -/
structure Retains (layout : Layout) (config : HeapConfig) : Prop where
  wide : ∀ number page, layout.pages.get? number = some page → config.pageSize ≤ page.size
  freePages_le : layout.freePages ≤ max config.sparePages 1

/-- There is at most one free page too many, and then it is the block that was found. -/
structure Offers (layout : Layout) (config : HeapConfig) (index : Nat) : Prop where
  wide : ∀ number page, layout.pages.get? number = some page → config.pageSize ≤ page.size
  freePages_le : layout.freePages ≤ max config.sparePages 1 ∨
    index ∈ spanning layout.blocks.get? layout.pages.get? ∧
      layout.freePages ≤ max config.sparePages 1 + 1

variable {layout after : Layout} {config : HeapConfig} {size rounded : Nat}

theorem Grows.wide (hgrows : layout.Grows after size)
    (hwide : ∀ number page, layout.pages.get? number = some page → config.pageSize ≤ page.size)
    (hsize : config.pageSize ≤ size) :
    ∀ number page, after.pages.get? number = some page → config.pageSize ≤ page.size := by
  intro number page hpage
  rcases hgrows.pages number page hpage with hold | hnew
  · exact hwide number page hold
  · exact hnew ▸ hsize

/-- If no free block reaches the watermark, no page is free. -/
theorem Settled.freePages_eq_zero (hsettled : layout.Settled) (hvalid : config.Consistent)
    (hretains : layout.Retains config)
    (hnone : layout.findFree? config.growWatermark = .ok none) : layout.freePages = 0 := by
  have hle := hvalid.watermark_le
  rw [← hsettled.ncard_pagesFree, Set.ncard_eq_zero hsettled.finite_pagesFree,
    Set.eq_empty_iff_forall_notMem]
  rintro number ⟨page, index, block, hpage, hblock, -, hfree, hsize⟩
  have hsmall := hsettled.lt_of_findFree?_none hvalid.roundUp_growWatermark hnone hblock hfree
  have hwide := hretains.wide number page hpage
  omega

/-- What is found after a page was made for it is that page. -/
theorem Settled.mem_spanning_of_grows (hsettled : layout.Settled) (hafter : after.Settled)
    (hgrows : layout.Grows after size) {need index : Nat} (hneed : need ≤ maxBlockSize)
    (hround : roundUp need = .ok rounded) (hnone : layout.findFree? need = .ok none)
    (hfound : after.findFree? need = .ok (some index)) :
    index ∈ spanning after.blocks.get? after.pages.get? := by
  obtain ⟨block, hblock, hfree, hle⟩ := hafter.rounded_le_of_findFree? hneed hround hfound
  rcases hgrows.free index block hblock hfree with hold | hspanning
  · have hsmall := hsettled.lt_of_findFree?_none hround hnone hold hfree
    omega
  · exact hspanning

/-- A page that is large enough is found. -/
theorem Settled.findFree?_ne_none_of_grows (hafter : after.Settled)
    (hgrows : layout.Grows after size) {need : Nat} (hround : roundUp need = .ok rounded)
    (hsize : rounded ≤ size) :
    after.findFree? need ≠ .ok none := by
  intro hnone
  obtain ⟨index, block, hblock, hfree, hblockSize⟩ := hgrows.fresh
  have hsmall := hafter.lt_of_findFree?_none hround hnone hblock hfree
  omega

end Layout

/-! ### Allocations -/

namespace Heap

/-- The heap is as it should be between two requests, and keeps few free pages. -/
structure KeepsFew (contract : Contract κ ω) (config : HeapConfig) (used : Set UsedBlock)
    (site : Site κ ω) (log : List Event) : Prop
    extends KeepsUnder contract config used site log where
  retains : site.1.layout.Retains config

/-- A free block is offered to an allocation. -/
structure OffersBlock (contract : Contract κ ω) (config : HeapConfig) (used : Set UsedBlock)
    (size index : Nat) (site : Site κ ω) (log : List Event) : Prop
    extends KeepsUnder contract config used site log where
  offers : site.1.layout.Offers config index
  block : ∃ block, site.1.layout.blocks.get? index = some block ∧ block.isFree = true ∧
    size ≤ block.size

variable {contract : Contract κ ω} {config : HeapConfig} {used : Set UsedBlock} {layout : Layout}
  {size : Nat}

/-- The page of a growth has the size that was asked for. -/
theorem Grown.exists_grows {site : Site κ ω} {log : List Event}
    (hgrown : Grown contract config layout size site log) (hgenerous : Generous log)
    (hmax : size ≤ maxBlockSize) (hdvd : blockAlign ∣ size) :
    ∃ given, layout.Grows site.1.layout given ∧ size ≤ given := by
  obtain ⟨region, hmem, hgrows⟩ := hgrown.grows
  exact ⟨_, hgrows, Region.le_pageSize (hgenerous size region hmem) hmax hdvd⟩

theorem ensures_growIfLow_retains (hgenerous : ∀ log, contract.terms.Admits log → Generous log) :
    Act.Ensures contract.terms (KeepsFew contract config used) growIfLow
      fun _ ↦ KeepsFew contract config used := by
  intro site log hkeeps hadmits
  have hvalid := hkeeps.valid
  have hsettled := hkeeps.settled
  refine ((ensures_growIfLow_of_at hvalid hsettled hkeeps.backed).with_admits site log hkeeps.at
    hadmits).mono fun answer after log hpost ↦ ?_
  obtain ⟨hadmitted, hat | ⟨hlow, hgrown⟩⟩ := hpost
  · exact ⟨hkeeps.used_eq ▸ hat.keeps hvalid hsettled hkeeps.backed, hat.layout_eq ▸ hkeeps.retains⟩
  · obtain ⟨given, hgrows, hsize⟩ := hgrown.exists_grows (hgenerous _ hadmitted) hvalid.le_max
      hvalid.dvd
    refine ⟨hkeeps.used_eq ▸ hgrown.toKeepsUnder, hgrows.wide hkeeps.retains.wide hsize, ?_⟩
    rw [hgrows.freePages, hsettled.freePages_eq_zero hvalid hkeeps.retains hlow]
    exact Nat.le_max_right _ _

theorem ensures_findOrGrow_retains (hgenerous : ∀ log, contract.terms.Admits log → Generous log)
    (hsize : size ≤ maxBlockSize) :
    Act.Ensures contract.terms (KeepsFew contract config used) (findOrGrow size)
      fun answer site log ↦ match answer with
        | .ok index => OffersBlock contract config used size index site log
        | .error _ => site.1.layout.Retains config := by
  intro site log hkeeps hadmits
  obtain ⟨rounded, hround, hrounded⟩ := exists_roundUp_of_le hsize
  have hvalid := hkeeps.valid
  have hsettled := hkeeps.settled
  have hretains := hkeeps.retains
  refine ((ensures_findOrGrow_of_at hround hrounded hvalid hsettled hkeeps.backed).with_admits site
    log hkeeps.at hadmits).mono fun answer after log hpost ↦ ?_
  obtain ⟨hadmitted, ⟨hat, hfound⟩ | ⟨hnone, hgrown, hfound⟩⟩ := hpost
  · cases answer with
    | error error => exact hat.layout_eq ▸ hretains
    | ok index =>
      refine ⟨hkeeps.used_eq ▸ hat.keeps hvalid hsettled hkeeps.backed, ?_, ?_⟩
      · rw [hat.layout_eq]
        exact ⟨hretains.wide, .inl hretains.freePages_le⟩
      · rw [hat.layout_eq]
        exact hsettled.findFree? hsize (hfound index rfl)
  · have hstart := (roundUp_spec hround).2
    have hdvd : blockAlign ∣ max rounded config.pageSize := by
      rcases Nat.le_total rounded config.pageSize with hle | hle
      · rw [Nat.max_eq_right hle]
        exact hvalid.dvd
      · rw [Nat.max_eq_left hle]
        exact SizeClass.blockAlign_dvd_of_width hstart
    obtain ⟨given, hgrows, hgiven⟩ := hgrown.exists_grows (hgenerous _ hadmitted)
      (Nat.max_le.mpr ⟨hrounded, hvalid.le_max⟩) hdvd
    cases answer with
    | error error =>
      exact absurd hfound (hgrown.settled.findFree?_ne_none_of_grows hgrows hround
        ((Nat.le_max_left _ _).trans hgiven))
    | ok index =>
      refine ⟨hkeeps.used_eq ▸ hgrown.toKeepsUnder,
        ⟨hgrows.wide hretains.wide ((Nat.le_max_right _ _).trans hgiven), .inr ⟨?_, ?_⟩⟩,
        hgrown.settled.findFree? hsize hfound⟩
      · exact hsettled.mem_spanning_of_grows hgrown.settled hgrows hsize hround hnone hfound
      · rw [hgrows.freePages]
        exact Nat.add_le_add_right hretains.freePages_le 1

/-- An allocation takes the page that there is too many. -/
theorem ensures_take_retains {request : HeapRequest} {align index : Nat}
    (hserves : request.Serves size align) :
    Act.Ensures contract.terms (OffersBlock contract config used request.search index)
      (step fun layout ↦ layout.take index request.need request.align)
      fun _ site _ ↦ site.1.layout.Retains config := by
  intro site log hpre hadmits
  obtain ⟨block, hblock, hfree, hsize⟩ := hpre.block
  obtain ⟨taken, part, after, htake, -, -, -, -, hpages, -, -, -, hle, hspanning⟩ :=
    hpre.settled.take hblock hfree hserves.need (hserves.need_le.trans hsize)
      (hserves.room.imp_right fun hroom ↦ hroom.trans hsize)
  refine (gives_step_of_eq htake site log hpre.at hadmits).mono fun answer final log hpost ↦ ?_
  obtain ⟨value, rfl, -, hat⟩ := hpost
  rw [hat.layout_eq]
  refine ⟨hpages ▸ hpre.offers.wide, ?_⟩
  rcases hpre.offers.freePages_le with hfew | ⟨hmem, hfew⟩
  · exact hle.trans hfew
  · have hone := hspanning hmem
    omega

end Heap

namespace HeapState

theorem ensures_allocateAligned_retains {contract : Contract κ ω} {config : HeapConfig}
    {used : Set UsedBlock} {memory : Memory}
    (hgenerous : ∀ log, contract.terms.Admits log → Generous log)
    (hforgives : ∀ fault, contract.terms.Forgives fault) (size align : Nat) :
    Act.Ensures contract.terms (Beside memory (Heap.KeepsFew contract config used))
      (allocateAligned size align) fun _ state _ ↦ state.heap.layout.Retains config := by
  unfold allocateAligned
  refine Act.gives_get.bind fun read ↦ ?_
  rintro state log ⟨rfl, hstate⟩
  refine ((Act.ensures_ofChecked fun fault _ ↦ hforgives fault).bind (fun request ↦
    Act.ensures_of_fact fun hcheck ↦ ?_) fun _ _ _ hpre ↦ hpre.2.2.retains) read log hstate
  have hserves := HeapRequest.check_spec hcheck
  refine (ensures_onSite (Heap.ensures_growIfLow_retains hgenerous)).bind (fun _ ↦ ?_)
    fun _ _ _ hpre ↦ hpre.2.retains
  refine (ensures_onSite (Heap.ensures_findOrGrow_retains hgenerous hserves.search_le)).bind
    (fun index ↦ ?_) fun _ _ _ hpre ↦ hpre.2
  refine (ensures_onSite (Heap.ensures_take_retains hserves)).bind (fun taken ↦ ?_)
    fun _ _ _ hpre ↦ hpre.2
  have hlift : ∀ {α : Type} {pre : HeapState κ ω → List Event → Prop}
      (computation : Except Fault α), Act.Gives contract.terms pre (liftM computation)
        fun value state log ↦ computation = .ok value ∧ pre state log :=
    fun computation ↦ Act.gives_lift fun _ _ fault _ _ ↦ hforgives fault
  refine Act.gives_get.bind fun read ↦ (hlift _).bind fun block ↦ ?_
  refine Act.Gives.bind (Act.gives_modify fun state log hpre ↦ ?_) fun _ ↦
    (hlift _).ensures fun _ _ _ hpre ↦ hpre.2
  exact hpre.2.2.2

/-! ### Deallocations -/

/-- The region at a base goes back once, or the supplier faults when it takes it. -/
def GivesBack (state : HeapState κ ω) (base : Nat) (outcome : Outcome (HeapState κ ω) Unit) :
    Prop :=
  outcome.answer = .ok (.ok ()) ∧ releasedBases outcome.events = [base] ∨
    ∃ fault, (PageSupplier.release base (state.heap.supplier, state.world)).answer = .error fault ∧
      outcome.answer = .error fault ∧ releasedBases outcome.events = []

variable {state after : HeapState κ ω}

/-- A page that is one free block is given back. -/
theorem givesBack_releasePage {first : Nat} {block : Block} {page : Page}
    (hsettled : state.heap.layout.Settled)
    (hdrop : Droppable state.heap.layout.blocks.get? state.heap.layout.pages.get? first block
      page) :
    state.GivesBack page.base (onSite (Heap.releasePage block.page) state) := by
  obtain ⟨dropped, hdropPage, -⟩ := hsettled.dropPage hdrop
  unfold onSite Act.within
  rw [Heap.releasePage_run hdropPage]
  rcases hrun : PageSupplier.giveBack page.base (state.heap.supplier, state.world) with
    ⟨fault | answer, after, events⟩
  · obtain ⟨hfault, hreleased⟩ := PageSupplier.bases_of_fault hrun
    exact Or.inr ⟨fault, hfault, rfl, hreleased⟩
  · obtain ⟨rfl, hreleased, -⟩ := PageSupplier.bases_of_giveBack hrun
    exact Or.inl ⟨rfl, hreleased⟩

/-- A deallocation that returns leaves no more free pages than there were or may be kept. -/
theorem retains_of_deallocate {config : HeapConfig} {used : Set UsedBlock} {log events : List Event}
    {pointer : Nat} {answer : Except AllocError Unit}
    (hkeeps : Heap.Keeps config used (state.heap, state.world) log) (horderly : Orderly log)
    (hretains : state.heap.layout.Retains config)
    (hrun : deallocate pointer state = ⟨.ok answer, after, events⟩) :
    after.heap.layout.Retains config := by
  by_cases hzero : pointer = 0
  · rw [hzero, deallocate_zero] at hrun
    cases hrun
    exact hretains
  cases hlocate : state.heap.locate? state.memory pointer with
  | none =>
    rw [deallocate_of_none hzero hlocate] at hrun
    cases hrun
    exact hretains
  | some index =>
    obtain ⟨block, hblock, rfl, rfl, htag⟩ :=
      (Heap.locate?_eq_some_iff hkeeps.settled).mp hlocate
    obtain ⟨-, -, -, -, merged, -, -, -, hpages, -, hfreePages⟩ :=
      hkeeps.deallocate_used horderly (hkeeps.used_eq ▸ hblock) htag hrun
    refine ⟨fun other otherPage hother ↦ hretains.wide _ _ (hpages _ _ hother), ?_⟩
    have hfew := hretains.freePages_le
    omega

/-- A deallocation frees no block and gives nothing back, or it frees one, and the page of the block
goes back just if it is free then and there are more free pages than may be kept. -/
theorem deallocate_cases (hsettled : state.heap.layout.Settled) (pointer : Nat) :
    ((pointer = 0 ∨ state.Refuses pointer) ∧
      releasedBases (deallocate pointer state).events = []) ∨
    ∃ block ∈ usedBlocks state.heap.layout.blocks.get?, pointer = block.address + headerSize ∧
      ∃ spare merged number page, state.heap.layout.reclaim block.index = .ok (spare, merged) ∧
        state.heap.layout.Merges block merged number page ∧
        (state.Exceeds merged number → state.GivesBack page.base (deallocate pointer state)) ∧
        (¬ state.Exceeds merged number →
          deallocate pointer state = ⟨.ok (.ok ()), state.reclaimed block merged, []⟩) := by
  by_cases hzero : pointer = 0
  · refine .inl ⟨.inl hzero, ?_⟩
    rw [hzero, deallocate_zero]
    rfl
  cases hlocate : state.heap.locate? state.memory pointer with
  | none =>
    have hrefuses := refuses_of_none hzero hlocate
    refine .inl ⟨.inr hrefuses, ?_⟩
    rw [hrefuses.deallocate]
    rfl
  | some index =>
    obtain ⟨block, hblock, rfl, rfl, htag⟩ := (Heap.locate?_eq_some_iff hsettled).mp hlocate
    obtain ⟨spare, merged, number, page, hreclaim, hmerges, hgiven, hkept⟩ :=
      exists_deallocate hsettled hblock htag
    refine .inr ⟨block, hblock, rfl, spare, merged, number, page, hreclaim, hmerges,
      fun hexceeds ↦ ?_, hkept⟩
    obtain ⟨⟨first, free, hdrop, rfl⟩, hcall⟩ := hgiven hexceeds
    rw [hcall]
    exact @givesBack_releasePage κ ω _ (state.reclaimed block merged) _ _ _ hmerges.settled hdrop

end HeapState

/-! ### Runs -/

namespace HeapRun

variable {state : HeapState κ ω} {deeds : List HeapDeed} {log : List Event}
  {mayWrite : HeapState κ ω → List Nat → Memory → Prop}

theorem retains (hrun : HeapRun mayWrite state deeds log) (horderly : Orderly log)
    (hgenerous : Generous log) : state.heap.layout.Retains state.heap.config := by
  induction hrun with
  | @created supplier config world after heap events hcreate memory =>
    have hgrown : Heap.Grown Contract.generous config {} config.pageSize (heap, after) events :=
      (@Heap.ensures_create_grown κ ω _ .generous config supplier fun _ _ ↦ trivial).of_run
        hcreate ⟨trivial, rfl, balanced_nil⟩ ⟨horderly, hgenerous⟩
    obtain rfl : heap.config = config := hgrown.config_eq
    obtain ⟨given, hgrows, hgiven⟩ := hgrown.exists_grows hgenerous hgrown.valid.le_max
      hgrown.valid.dvd
    have hnone : ∀ number page, (Layout.pages {}).get? number = some page →
        heap.config.pageSize ≤ page.size := fun number page hpage ↦ by cases hpage
    exact ⟨hgrows.wide hnone hgiven, hgrows.freePages.trans_le (Nat.le_max_right _ _)⟩
  | @called state after deeds deed log events hrun hdeed ih =>
    have hbefore := horderly.of_append
    have hretains := ih hbefore hgenerous.of_append
    obtain ⟨config, used, hkeeps, -⟩ := hrun.exists_points hbefore
    obtain ⟨_, -, hafter⟩ := hkeeps.deed horderly hdeed
    have hconfig : after.heap.config = config := hafter.config_eq
    obtain rfl : state.heap.config = config := hkeeps.config_eq
    rw [hconfig]
    have hfew : Heap.KeepsFew Contract.generous state.heap.config used (state.heap, state.world)
        log := ⟨⟨hkeeps, trivial⟩, hretains⟩
    have hallocated : ∀ {size align answer},
        HeapState.allocateAligned size align state = ⟨.ok answer, after, events⟩ →
        after.heap.layout.Retains state.heap.config := fun hcall ↦
      (@HeapState.ensures_allocateAligned_retains κ ω _ .generous _ _ _ (fun _ hboth ↦ hboth.2)
        (fun _ ↦ trivial) _ _).of_run hcall ⟨rfl, hfew⟩ ⟨horderly, hgenerous⟩
    cases deed with
    | allocate size answer => exact hallocated hdeed
    | allocateAligned size align answer => exact hallocated hdeed
    | deallocate pointer answer =>
      exact HeapState.retains_of_deallocate hkeeps hbefore hretains hdeed
    | usableSize pointer answer =>
      have hsame := HeapState.usableSize_state hkeeps.settled pointer
      rw [show HeapState.usableSize pointer state = _ from hdeed] at hsame
      exact hsame ▸ hretains
  | wrote hrun hmay ih => exact ih horderly hgenerous
  | shared hrun world ih => exact ih horderly hgenerous

/-- With a supplier that gives no less than it is asked for, the free pages are never more than may
be kept, or one. So are the pages while no allocation is out. A deallocation that frees no block
gives nothing back. One that frees a block gives back the page of the block, and once, just if that
is one free block then and there are more free pages than may be kept. -/
theorem few_free_pages (hrun : HeapRun AnyWrite state deeds log) (horderly : Orderly log)
    (hgenerous : Generous log) :
    state.heap.layout.pagesFree.ncard ≤ max state.heap.config.sparePages 1 ∧
    (HeapDeed.live deeds = [] → state.heap.pageCount ≤ max state.heap.config.sparePages 1) ∧
    ∀ pointer,
      ((pointer = 0 ∨ state.Refuses pointer) ∧
        releasedBases (HeapState.deallocate pointer state).events = []) ∨
      ∃ block ∈ usedBlocks state.heap.layout.blocks.get?, pointer = block.address + headerSize ∧
        ∃ spare merged number page,
          state.heap.layout.reclaim block.index = .ok (spare, merged) ∧
          state.heap.layout.Merges block merged number page ∧
          (number ∈ merged.pagesFree ∧ state.heap.config.sparePages < merged.pagesFree.ncard →
            state.GivesBack page.base (HeapState.deallocate pointer state)) ∧
          (¬ (number ∈ merged.pagesFree ∧
              state.heap.config.sparePages < merged.pagesFree.ncard) →
            HeapState.deallocate pointer state =
              ⟨.ok (.ok ()), state.reclaimed block merged, []⟩) := by
  have hretains := hrun.retains horderly hgenerous
  obtain ⟨config, used, hkeeps, hpoints⟩ := hrun.exists_points horderly
  obtain rfl := hkeeps.used_eq
  have hsettled := hkeeps.settled
  dsimp only at hsettled hpoints
  refine ⟨hsettled.ncard_pagesFree.trans_le hretains.freePages_le, fun hnone ↦ ?_,
    HeapState.deallocate_cases hsettled⟩
  have hempty : usedBlocks state.heap.layout.blocks.get? = ∅ := by
    refine Set.eq_empty_iff_forall_notMem.mpr fun block hblock ↦ ?_
    have hmem := (hpoints.mem_iff _).mpr ⟨block, hblock, rfl⟩
    rw [hnone] at hmem
    exact absurd hmem List.not_mem_nil
  exact (hsettled.size_pages hempty).trans_le hretains.freePages_le

theorem generous_threeLog : Generous threeLog := by
  intro size region hmem
  obtain ⟨rfl, rfl | rfl⟩ := of_mem_threeLog hmem
  · exact Nat.le_refl _
  · exact Nat.le_refl _

/-- Of two pages the one without allocations goes back, as none may be kept. -/
theorem few_free_pages_of_two_pages :
    HeapRun AnyWrite threeTaken [.allocate 100 (.ok 4112), .allocate 100 (.ok 4240),
      .allocate 16000 (.ok 20496)] threeLog ∧
    threeTaken.heap.config.sparePages = 0 ∧ threeTaken.heap.layout.pagesFree.ncard ≤ 1 ∧
    ∃ block merged number page, threeTaken.heap.layout.Merges block merged number page ∧
      block.address + headerSize = 20496 ∧ number ∈ merged.pagesFree ∧
      page.base = 20480 ∧
      releasedBases (HeapState.deallocate 20496 threeTaken).events = [20480] := by
  have hrun := threeTaken_run AnyWrite
  have hspare : threeTaken.heap.config.sparePages = 0 := by decide +kernel
  have hshown : ((HeapState.deallocate 20496 threeTaken).answer,
      (HeapState.deallocate 20496 threeTaken).events) =
      (.ok (.ok ()), [.noted (.pageReleased 20480 16384), .released 20480]) := by decide +kernel
  obtain ⟨hanswer, hevents⟩ := Prod.mk.inj hshown
  have hreleased : releasedBases (HeapState.deallocate 20496 threeTaken).events = [20480] := by
    rw [hevents]
    rfl
  obtain ⟨hfew, -, hfrees⟩ := few_free_pages hrun orderly_threeLog generous_threeLog
  rw [hspare] at hfew hfrees
  refine ⟨hrun, hspare, hfew, ?_⟩
  obtain ⟨-, hnone⟩ | ⟨block, -, hpointer, _, merged, number, page, -, hmerges, hgiven, hkept⟩ :=
    hfrees 20496
  · rw [hreleased] at hnone
    cases hnone
  have hexceeds : number ∈ merged.pagesFree ∧ 0 < merged.pagesFree.ncard := by
    by_contra hnot
    rw [hkept hnot] at hreleased
    cases hreleased
  refine ⟨block, merged, number, page, hmerges, hpointer.symm, hexceeds.1, ?_, hreleased⟩
  obtain ⟨-, hbase⟩ | ⟨fault, -, hfault, -⟩ := hgiven hexceeds
  · exact (List.cons.inj (hbase.symm.trans hreleased)).1
  · rw [hanswer] at hfault
    cases hfault

end HeapRun

end KernelMemory
