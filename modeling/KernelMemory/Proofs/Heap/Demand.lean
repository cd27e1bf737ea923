import KernelMemory.Proofs.Heap.Retention

/-!
# When an allocation asks for pages

An allocation that passed its check asks for a page of the usual size first, just if no free block
reaches the watermark. Then it asks for a page that is large enough for it, just if no free block
is, and with a supplier that gives what it is asked for (`Conforming`) that page is found. So it is
refused just if this second page is refused. In that case no block has changed, and at most the page
that was asked for first has come to the heap (`HeapRun.grows_on_demand`).
-/

set_option autoImplicit false
set_option relaxedAutoImplicit false

namespace KernelMemory

/-! ### Suppliers and the calls of them -/

/-- The suppliers keep order, and what they give is as large as was asked for and starts at a whole
alignment step behind the first one. -/
structure Conforming (log : List Event) : Prop where
  orderly : Orderly log
  generous : Generous log
  aligned : ∀ size region, .supplied size region ∈ log →
    region.base % blockAlign = 0 ∧ region.base ≠ 0

theorem Conforming.of_append {log events : List Event} (hconforming : Conforming (log ++ events)) :
    Conforming log where
  orderly := hconforming.orderly.of_append
  generous := hconforming.generous.of_append
  aligned := fun size region hmem ↦ hconforming.aligned size region (List.mem_append_left _ hmem)

/-- A refusal is no less than what a supplier may do. -/
theorem Conforming.append_refused {log : List Event} (hconforming : Conforming log) (asked : Nat)
    (error : AllocError) : Conforming (log ++ [.refused asked error]) where
  orderly := hconforming.orderly.append fun event hevent ↦ by
    rw [List.mem_singleton.mp hevent]
    rfl
  generous := fun size region hmem ↦ hconforming.generous size region (by simpa using hmem)
  aligned := fun size region hmem ↦ hconforming.aligned size region (by simpa using hmem)

/-- What an act shows is also seen if another one follows. -/
theorem Conforming.of_bind {σ α β : Type} {act : Act σ α} {next : α → Act σ β} {state : σ}
    {log : List Event} (hconforming : Conforming (log ++ ((act >>= next) state).events)) :
    Conforming (log ++ (act state).events) := by
  rcases hact : act state with ⟨fault | error | value, after, events⟩
  · rwa [Act.bind_run_of_fault hact] at hconforming
  · rwa [Act.bind_run_of_refused hact] at hconforming
  · rw [Act.bind_run_of_value hact, ← List.append_assoc] at hconforming
    exact hconforming.of_append

def Event.isCall : Event → Bool
  | .noted _ => false
  | _ => true

/-- The calls of a supplier, with what came of them. -/
def calls (log : List Event) : List Event := log.filter Event.isCall

theorem calls_append (log events : List Event) :
    calls (log ++ events) = calls log ++ calls events :=
  List.filter_append ..

theorem calls_quiet {events : List Event}
    (hquiet : ∀ event ∈ events, ∃ notice, event = .noted notice) : calls events = [] := by
  refine List.filter_eq_nil_iff.mpr fun event hevent ↦ ?_
  obtain ⟨notice, rfl⟩ := hquiet event hevent
  exact Bool.false_ne_true

/-! ### Layouts that gain a page -/

namespace Layout

/-- Some free block has at least the given size. -/
def HasFree (layout : Layout) (size : Nat) : Prop :=
  ∃ index block, layout.blocks.get? index = some block ∧ block.isFree = true ∧ size ≤ block.size

/-- There is one page more, which lies on the region and is one free block. All else is as it
was. -/
structure Gains (before : Layout) (region : Region) (after : Layout) : Prop where
  settled : after.Settled
  page : ∃ number first sentinel, before.pages.get? number = none ∧
    before.blocks.get? first = none ∧ before.blocks.get? sentinel = none ∧ first ≠ sentinel ∧
    after.blocks.get? =
      blocksWith before.blocks.get? number first ⟨region.base, region.pageSize, sentinel⟩ ∧
    after.pages.get? =
      pagesWith before.pages.get? number ⟨region.base, region.pageSize, sentinel⟩
  total : after.total = before.total + region.pageSize
  free : after.free = before.free + region.pageSize
  freePages : after.freePages = before.freePages + 1

/-- A page is asked for just if no free block has the wanted size. -/
inductive GrowsFor (wanted asked : Nat) (before : Layout) : Layout → List Event → Prop
  | enough (hfree : before.HasFree wanted) : GrowsFor wanted asked before before []
  | refused (hnone : ¬ before.HasFree wanted) (error : AllocError) :
    GrowsFor wanted asked before before [.refused asked error]
  | granted (hnone : ¬ before.HasFree wanted) {region : Region} {after : Layout}
    (hgains : before.Gains region after) (hsize : asked ≤ region.pageSize) :
    GrowsFor wanted asked before after [.supplied asked region]

variable {before after : Layout} {region : Region} {wanted asked : Nat} {events : List Event}

theorem HasFree.mono {layout : Layout} {small large : Nat} (hfree : layout.HasFree large)
    (hle : small ≤ large) : layout.HasFree small := by
  obtain ⟨index, block, hblock, hisFree, hlarge⟩ := hfree
  exact ⟨index, block, hblock, hisFree, hle.trans hlarge⟩

theorem Gains.hasFree (hgains : before.Gains region after) : after.HasFree region.pageSize := by
  obtain ⟨number, first, sentinel, -, -, -, hne, hblocks, -⟩ := hgains.page
  have hfirst := congrFun hblocks first
  rw [blocksWith, if_neg hne, if_pos rfl] at hfirst
  exact ⟨first, _, hfirst, rfl, Nat.le_refl _⟩

/-- The blocks that were there stay as they are. -/
theorem Gains.blocks_eq (hgains : before.Gains region after) {index : Nat} {block : Block}
    (hblock : before.blocks.get? index = some block) : after.blocks.get? index = some block := by
  obtain ⟨number, first, sentinel, -, hfirst, hsentinel, -, hblocks, -⟩ := hgains.page
  have hindex := congrFun hblocks index
  have hneSentinel : index ≠ sentinel := by
    rintro rfl
    rw [hsentinel] at hblock
    cases hblock
  have hneFirst : index ≠ first := by
    rintro rfl
    rw [hfirst] at hblock
    cases hblock
  rw [blocksWith, if_neg hneSentinel, if_neg hneFirst] at hindex
  exact hindex.trans hblock

theorem GrowsFor.blocks_eq (hgrows : before.GrowsFor wanted asked after events) {index : Nat}
    {block : Block} (hblock : before.blocks.get? index = some block) :
    after.blocks.get? index = some block := by
  cases hgrows with
  | enough _ => exact hblock
  | refused _ _ => exact hblock
  | granted _ hgains _ => exact hgains.blocks_eq hblock

/-- A page that is refused changes nothing. -/
theorem GrowsFor.eq_of_refused {error : AllocError}
    (hgrows : before.GrowsFor wanted asked after [.refused asked error]) : after = before := by
  cases hgrows with
  | refused _ _ => rfl

namespace Settled

variable {layout : Layout} (hsettled : layout.Settled)

include hsettled

/-- A usable region apart from the other pages becomes a page. -/
theorem exists_gains {region : Region} (husable : Page.Usable ⟨region.base, region.pageSize, 0⟩)
    (hapart : ∀ number page, layout.pages.get? number = some page →
      region.base + region.pageSize ≤ page.base ∨ page.base + page.size ≤ region.base) :
    ∃ after, layout.addPage region.base region.pageSize = .ok after ∧
      layout.Gains region after := by
  obtain ⟨-, -, after, haddPage, hsettledAfter, -⟩ := hsettled.addPage husable hapart
  have htotal := hsettled.total_add_lt husable hapart
  obtain ⟨number, first, sentinel, blocks, pages, hadded, hnumber, hfirst, hsentinel, hne, hblocks,
    hpages, -, -⟩ := addPage_eq hsettled.shaped.blocks hsettled.shaped.pages husable.end_lt htotal
      ((Nat.add_le_add_right hsettled.shaped.free_le _).trans_lt htotal)
      (hsettled.freePages_add_one_lt husable hapart)
  obtain ⟨-, lists, -, -, rfl⟩ := of_enlist (hadded.symm.trans haddPage)
  exact ⟨_, haddPage, hsettledAfter,
    ⟨number, first, sentinel, hnumber, hfirst, hsentinel, hne, hblocks, hpages⟩, rfl, rfl, rfl⟩

/-- A search finds nothing just if no free block is large enough. -/
theorem findFree?_eq_none_iff {size rounded : Nat} (hsize : size ≤ maxBlockSize)
    (hround : roundUp size = .ok rounded) :
    layout.findFree? size = .ok none ↔ ¬ layout.HasFree rounded := by
  constructor
  · rintro hnone ⟨index, block, hblock, hfree, hle⟩
    exact (hsettled.lt_of_findFree?_none hround hnone hblock hfree).not_ge hle
  · intro hnone
    obtain ⟨found, hfound⟩ := hsettled.exists_findFree? hround (roundUp_le hsize hround)
    cases found with
    | none => exact hfound
    | some index =>
      obtain ⟨block, hblock, hfree, hle⟩ := hsettled.rounded_le_of_findFree? hsize hround hfound
      exact absurd ⟨index, block, hblock, hfree, hle⟩ hnone

/-- A search finds a block if some free one is large enough. -/
theorem exists_findFree?_of_hasFree {size rounded : Nat} (hsize : size ≤ maxBlockSize)
    (hround : roundUp size = .ok rounded) (hfree : layout.HasFree rounded) :
    ∃ index, layout.findFree? size = .ok (some index) := by
  obtain ⟨found, hfound⟩ := hsettled.exists_findFree? hround (roundUp_le hsize hround)
  cases found with
  | none => exact absurd hfree ((hsettled.findFree?_eq_none_iff hsize hround).mp hfound)
  | some index => exact ⟨index, hfound⟩

end Settled

end Layout

/-! ### Single growths -/

namespace Heap

variable {κ ω : Type}

theorem findFree?_run {heap : Heap κ} {size : Nat} {found : Option Nat}
    (hfound : heap.layout.findFree? size = .ok found) (world : ω) :
    findFree? size (heap, world) = ⟨.ok (.ok found), (heap, world), []⟩ := by
  unfold findFree?
  rw [Act.get_bind_run]
  simp only [hfound]
  rfl

/-- What comes of an act of the supplier is seen of the heap. -/
theorem onSupplier_run {α : Type} {act : Act (κ × ω) α} {heap : Heap κ} {world : ω}
    {answer : Except Fault (Except AllocError α)} {after : κ × ω} {events : List Event}
    (hact : act (heap.supplier, world) = ⟨answer, after, events⟩) :
    onSupplier act (heap, world) =
      ⟨answer, ({ heap with supplier := after.1 }, after.2), events⟩ := by
  unfold onSupplier Act.within
  dsimp only
  rw [hact]

variable [PageSupplier κ ω]

/-- A region that can be used becomes a page. -/
theorem addRegion_run {heap : Heap κ} {region : Region} {after : Layout}
    (haligned : region.base % blockAlign = 0 ∧ region.base ≠ 0)
    (hmin : minBlockSize ≤ region.pageSize)
    (hadd : heap.layout.addPage region.base region.pageSize = .ok after) (world : ω) :
    addRegion region (heap, world) = ⟨.ok (.ok ()), ({ heap with layout := after }, world),
      [.noted (.pageAdded region.base region.pageSize)]⟩ := by
  have hrefused : ¬ (decide (region.base % blockAlign ≠ 0) || decide (region.base = 0)) = true := by
    simp [haligned.1, haligned.2]
  have hchange : (fun layout : Layout ↦
      (do return ((), ← layout.addPage region.base region.pageSize) :
        Except Fault (Unit × Layout))) heap.layout = .ok ((), after) := by
    simp only [hadd, ok_bind, pure_eq_ok]
  unfold addRegion
  dsimp only
  rw [if_neg hrefused, alignDown_eq, Act.lift_ok_bind_run, if_neg (Nat.not_lt.mpr hmin),
    Act.bind_run_of_silent (step_run hchange world)]
  rfl

/-- The supplier was asked for a page of the size, faulted and is left like that. -/
def FaultsAsking (asked : Nat) (fault : Fault) (after : κ × ω) : Prop :=
  ∃ before events, PageSupplier.supply asked before = ⟨.error fault, after, events⟩

/-- How a growth ends: the supplier faults, or it refuses, or its region becomes a page. -/
inductive GrowthEnds (asked : Nat) (before : Layout) : Outcome (Site κ ω) Unit → Prop
  | faults {fault : Fault} {site : Site κ ω} {events : List Event}
      (hsupply : FaultsAsking asked fault (site.1.supplier, site.2)) :
      GrowthEnds asked before ⟨.error fault, site, events⟩
  | refused {error : AllocError} {site : Site κ ω} {events : List Event}
      (hlayout : site.1.layout = before) (hcalls : calls events = [.refused asked error]) :
      GrowthEnds asked before ⟨.ok (.error error), site, events⟩
  | grown {region : Region} {site : Site κ ω} {events : List Event}
      (hgains : before.Gains region site.1.layout) (hsize : asked ≤ region.pageSize)
      (hcalls : calls events = [.supplied asked region]) :
      GrowthEnds asked before ⟨.ok (.ok ()), site, events⟩

variable {heap : Heap κ} {world : ω} {config : HeapConfig} {used : Set UsedBlock}
  {log : List Event} {size : Nat}

omit [PageSupplier κ ω] in
/-- What a conforming supplier gives for the size of a page becomes one. -/
theorem Keeps.exists_gains (hkeeps : Keeps config used (heap, world) log) {asked : Nat}
    {region : Region} {events : List Event} (hpage : config.pageSize ≤ asked)
    (hasked : asked ≤ maxBlockSize) (hdvd : blockAlign ∣ asked)
    (hquiet : ∀ event ∈ events, ∃ notice, event = .noted notice)
    (hconforming : Conforming (log ++ events ++ [.supplied asked region])) :
    (region.base % blockAlign = 0 ∧ region.base ≠ 0) ∧ asked ≤ region.pageSize ∧ ∃ after,
      heap.layout.addPage region.base region.pageSize = .ok after ∧
      heap.layout.Gains region after := by
  obtain ⟨rfl, hvalid, hsettled, -, hbacked, -⟩ := hkeeps
  have hmem : Event.supplied asked region ∈ log ++ events ++ [.supplied asked region] :=
    List.mem_append_right _ (List.mem_singleton_self _)
  have haligned := hconforming.aligned asked region hmem
  have hsize := Region.le_pageSize (hconforming.generous asked region hmem) hasked hdvd
  have hfits := hconforming.orderly.fits
  rw [outstanding_quiet hquiet] at hfits
  have hmin : minBlockSize ≤ region.pageSize := by
    have hmin := hvalid.min_le
    omega
  have husable : Page.Usable ⟨region.base, region.pageSize, 0⟩ := by
    refine usable_of_region ?_ (Nat.not_lt.mpr hmin) ?_
    · simp [haligned.1, haligned.2]
    · exact (Nat.add_le_add_left region.pageSize_le _).trans_lt hfits.end_lt
  have hpos : 0 < region.pageSize := (by decide : 0 < minBlockSize).trans_le hmin
  exact ⟨haligned, hsize, hsettled.exists_gains husable
    (hbacked.apart hsettled.shaped.tiled.usable hfits.disjoint hpos)⟩

/-- With a supplier that gives what it is asked for a growth does not end in any other way. -/
theorem Keeps.grow_ends (hkeeps : Keeps config used (heap, world) log)
    (hsize : size ≤ maxBlockSize) (hdvd : blockAlign ∣ size)
    (hconforming : Conforming (log ++ (grow size (heap, world)).events)) :
    GrowthEnds (max size config.pageSize) heap.layout (grow size (heap, world)) := by
  have hvalid := hkeeps.valid
  obtain rfl : heap.config = config := hkeeps.config_eq
  have hpage : heap.config.pageSize ≤ max size heap.config.pageSize := Nat.le_max_right _ _
  have hasked : max size heap.config.pageSize ≤ maxBlockSize :=
    Nat.max_le.mpr ⟨hsize, hvalid.le_max⟩
  have haskedDvd : blockAlign ∣ max size heap.config.pageSize := by
    rcases Nat.le_total size heap.config.pageSize with hle | hle
    · rw [Nat.max_eq_right hle]
      exact hvalid.dvd
    · rwa [Nat.max_eq_left hle]
  have hgrow : grow size (heap, world) =
      (onSupplier (PageSupplier.request (max size heap.config.pageSize)) >>= addRegion)
        (heap, world) := rfl
  rw [hgrow] at hconforming ⊢
  generalize max size heap.config.pageSize = asked at *
  have hquiet := PageSupplier.supply_quiet asked (heap.supplier, world)
  rcases hsupply : PageSupplier.supply asked (heap.supplier, world) with
    ⟨fault | error | region, after, events⟩
  · have hrequest := onSupplier_run (PageSupplier.request_of_fault hsupply)
    rw [Act.bind_run_of_fault hrequest]
    exact .faults ⟨_, _, hsupply⟩
  · rw [hsupply] at hquiet
    have hrequest := onSupplier_run (PageSupplier.request_of_refused hsupply)
    rw [Act.bind_run_of_refused hrequest]
    refine .refused rfl ?_
    rw [calls_append, calls_quiet hquiet]
    rfl
  · rw [hsupply] at hquiet
    have hrequest := onSupplier_run (PageSupplier.request_of_region hsupply)
    rw [Act.bind_run_of_value hrequest] at hconforming ⊢
    have hgiven : Conforming (log ++ events ++ [.supplied asked region]) := by
      rw [← List.append_assoc, ← List.append_assoc] at hconforming
      exact hconforming.of_append
    obtain ⟨haligned, hlarge, layout, hadd, hgains⟩ :=
      hkeeps.exists_gains hpage hasked haskedDvd hquiet hgiven
    have hmin : minBlockSize ≤ region.pageSize := by
      have hmin := hvalid.min_le
      omega
    have hregion := @addRegion_run κ ω _ { heap with supplier := after.1 } region layout haligned
      hmin hadd after.2
    rw [hregion]
    refine .grown hgains hlarge ?_
    rw [calls_append, calls_append, calls_quiet hquiet]
    rfl

/-- Nothing is done if a free block reaches the watermark. -/
theorem growIfLow_run {index : Nat}
    (hfound : heap.layout.findFree? heap.config.growWatermark = .ok (some index)) (world : ω) :
    growIfLow (heap, world) = ⟨.ok (.ok ()), (heap, world), []⟩ := by
  unfold growIfLow
  rw [Act.get_bind_run]
  dsimp only
  rw [Act.bind_run_of_silent (findFree?_run hfound world)]
  rfl

/-- What a search finds is given. -/
theorem findOrGrow_run {index : Nat} (hfound : heap.layout.findFree? size = .ok (some index))
    (world : ω) : findOrGrow size (heap, world) = ⟨.ok (.ok index), (heap, world), []⟩ := by
  unfold findOrGrow
  rw [Act.bind_run_of_silent (findFree?_run hfound world)]
  rfl

/-- A page of the usual size is asked for just if no free block reaches the watermark. -/
theorem Keeps.growIfLow_cases (hkeeps : Keeps config used (heap, world) log) {watermark : Nat}
    (hround : roundUp config.growWatermark = .ok watermark)
    (hconforming : Conforming (log ++ (growIfLow (heap, world)).events)) :
    (∃ fault after events, growIfLow (heap, world) = ⟨.error fault, after, events⟩ ∧
      FaultsAsking config.pageSize fault (after.1.supplier, after.2)) ∨
    ∃ after events, growIfLow (heap, world) = ⟨.ok (.ok ()), after, events⟩ ∧
      heap.layout.GrowsFor watermark config.pageSize after.1.layout (calls events) := by
  have hvalid := hkeeps.valid
  have hsettled : heap.layout.Settled := hkeeps.settled
  obtain rfl : heap.config = config := hkeeps.config_eq
  have hwatermark := hvalid.growWatermark_le
  by_cases hfree : heap.layout.HasFree watermark
  · obtain ⟨index, hfound⟩ := hsettled.exists_findFree?_of_hasFree hwatermark hround hfree
    exact .inr ⟨_, _, growIfLow_run hfound world, .enough hfree⟩
  have hnone := (hsettled.findFree?_eq_none_iff hwatermark hround).mpr hfree
  unfold growIfLow at hconforming ⊢
  rw [Act.get_bind_run] at hconforming ⊢
  dsimp only at hconforming ⊢
  rw [Act.bind_run_of_silent (findFree?_run hnone world)] at hconforming ⊢
  rw [if_pos Option.isNone_none] at hconforming ⊢
  have hends := hkeeps.grow_ends hvalid.le_max hvalid.dvd
    hconforming.of_bind
  rw [Nat.max_self] at hends
  generalize hgrow : grow heap.config.pageSize (heap, world) = outcome at hends
  cases hends with
  | faults hsupply =>
    rw [Act.bind_run_of_fault (Act.settle_run_of_fault hgrow)]
    exact .inl ⟨_, _, _, rfl, hsupply⟩
  | @refused error site events hlayout hcalls =>
    rw [Act.bind_run_of_value (Act.settle_run hgrow)]
    refine .inr ⟨_, _, rfl, ?_⟩
    show heap.layout.GrowsFor _ _ site.1.layout (calls (events ++ [.noted _]))
    rw [calls_append, hcalls, hlayout]
    exact .refused hfree error
  | @grown region site events hgains hsize hcalls =>
    rw [Act.bind_run_of_value (Act.settle_run hgrow)]
    refine .inr ⟨_, _, rfl, ?_⟩
    show heap.layout.GrowsFor _ _ site.1.layout (calls (events ++ []))
    rw [List.append_nil, hcalls]
    exact .granted hfree hgains hsize

/-- A page that is large enough is asked for just if no free block is. The search fails just if that
page is refused. -/
theorem Keeps.findOrGrow_cases (hkeeps : Keeps config used (heap, world) log) {demand : Nat}
    (hsize : size ≤ maxBlockSize) (hround : roundUp size = .ok demand)
    (hconforming : Conforming (log ++ (findOrGrow size (heap, world)).events)) :
    (∃ fault after events, findOrGrow size (heap, world) = ⟨.error fault, after, events⟩ ∧
      FaultsAsking (max demand config.pageSize) fault (after.1.supplier, after.2)) ∨
    ∃ answer after events, findOrGrow size (heap, world) = ⟨.ok answer, after, events⟩ ∧
      heap.layout.GrowsFor demand (max demand config.pageSize) after.1.layout (calls events) ∧
      ((answer = .error .noMemoryAvailable ∧
          ∃ error, calls events = [.refused (max demand config.pageSize) error]) ∨
        ∃ index, answer = .ok index ∧ after.1.layout.findFree? size = .ok (some index) ∧
          ∀ error, calls events ≠ [.refused (max demand config.pageSize) error]) := by
  have hsettled : heap.layout.Settled := hkeeps.settled
  obtain rfl : heap.config = config := hkeeps.config_eq
  by_cases hfree : heap.layout.HasFree demand
  · obtain ⟨index, hfound⟩ := hsettled.exists_findFree?_of_hasFree hsize hround hfree
    refine .inr ⟨_, _, _, findOrGrow_run hfound world, .enough hfree,
      .inr ⟨index, rfl, hfound, fun error hcalls ↦ ?_⟩⟩
    cases hcalls
  have hnone := (hsettled.findFree?_eq_none_iff hsize hround).mpr hfree
  unfold findOrGrow at hconforming ⊢
  rw [Act.bind_run_of_silent (findFree?_run hnone world)] at hconforming ⊢
  dsimp only at hconforming ⊢
  rw [hround, Act.lift_ok_bind_run] at hconforming ⊢
  have hdvd : blockAlign ∣ demand :=
    SizeClass.blockAlign_dvd_of_width (roundUp_spec hround).2
  have hends := hkeeps.grow_ends (roundUp_le hsize hround) hdvd hconforming.of_bind
  generalize hgrow : grow demand (heap, world) = outcome at hends
  cases hends with
  | faults hsupply =>
    rw [Act.bind_run_of_fault (Act.settle_run_of_fault hgrow)]
    exact .inl ⟨_, _, _, rfl, hsupply⟩
  | @refused error site events hlayout hcalls =>
    rw [Act.bind_run_of_value (Act.settle_run hgrow)]
    refine .inr ⟨_, _, _, rfl, ?_⟩
    have hcallsAll : calls (events ++ []) = [.refused (max demand heap.config.pageSize) error] := by
      rw [List.append_nil, hcalls]
    rw [← hlayout] at hfree ⊢
    refine ⟨?_, .inl ⟨rfl, error, hcallsAll⟩⟩
    show site.1.layout.GrowsFor _ _ _ (calls (events ++ []))
    rw [hcallsAll]
    exact .refused hfree error
  | @grown region site events hgains hlarge hcalls =>
    obtain ⟨after, rest⟩ := site
    have hroom : after.layout.HasFree demand :=
      hgains.hasFree.mono ((Nat.le_max_left _ _).trans hlarge)
    obtain ⟨index, hfound⟩ := hgains.settled.exists_findFree?_of_hasFree hsize hround hroom
    rw [Act.bind_run_of_value (Act.settle_run hgrow)]
    dsimp only
    rw [Act.bind_run_of_silent (findFree?_run hfound rest)]
    refine .inr ⟨.ok index, (after, rest), events, ?_, ?_, .inr ⟨index, rfl, hfound, ?_⟩⟩
    · exact Outcome.eq_of_answer rfl (List.append_nil events)
    · rw [hcalls]
      exact .granted hfree hgains hlarge
    · intro error hrefused
      rw [hcalls] at hrefused
      cases hrefused

end Heap

/-! ### Allocations -/

namespace HeapState

variable {κ ω : Type} {state : HeapState κ ω}

theorem onSite_run {α : Type} {act : Act (Heap.Site κ ω) α}
    {answer : Except Fault (Except AllocError α)} {after : Heap.Site κ ω} {events : List Event}
    (hact : act (state.heap, state.world) = ⟨answer, after, events⟩) :
    onSite act state = ⟨answer, { state with heap := after.1, world := after.2 }, events⟩ := by
  unfold onSite Act.within
  dsimp only
  rw [hact]

/-- A block is taken out of a free one that is large enough, and its tag is written. -/
theorem take_run {request : HeapRequest} {size align index : Nat} {block : Block}
    (hserves : request.Serves size align) (hsettled : state.heap.layout.Settled)
    (hblock : state.heap.layout.blocks.get? index = some block) (hfree : block.isFree = true)
    (hsize : request.search ≤ block.size) :
    ∃ taken part layout,
      state.heap.layout.take index request.need request.align = .ok (taken, layout) ∧
      layout.blocks.get? taken = some part ∧
      (do
        let block ← onSite (Heap.step fun layout ↦ layout.take index request.need request.align)
        let address := (← (← get).heap.layout.block block).address
        writeTag address (.live block)
        Word.add address headerSize : Act (HeapState κ ω) Nat) state =
          ⟨.ok (.ok (part.address + headerSize)), { state with
            heap := { state.heap with layout }
            memory := state.memory.writeTag part.address (.live taken) }, []⟩ := by
  obtain ⟨taken, part, layout, htake, hsettledAfter, hpart, -, -, -, hneed, -⟩ :=
    hsettled.take hblock hfree hserves.need (hserves.need_le.trans hsize)
      (hserves.room.imp_right fun hroom ↦ hroom.trans hsize)
  have hend := hsettledAfter.payload_lt hpart (hserves.need.min_le.trans hneed)
  have hpointer : Word.add part.address headerSize = .ok (part.address + headerSize) := if_pos hend
  have hstep := onSite_run (@Heap.step_run κ ω _
    (fun layout ↦ layout.take index request.need request.align) _ _ _ htake state.world)
  refine ⟨taken, part, layout, htake, hpart, ?_⟩
  rw [Act.bind_run_of_silent hstep, Act.get_bind_run]
  dsimp only
  rw [Layout.block_eq hpart, Act.lift_ok_bind_run]
  dsimp only [writeTag]
  rw [Act.modify_bind_run, hpointer]
  rfl

/-- The allocation is refused for want of memory. The heap has the layout, in which all blocks are
as they were, and nothing is written. -/
structure FailsWith (state : HeapState κ ω) (after : Layout)
    (outcome : Outcome (HeapState κ ω) Nat) : Prop where
  answer : outcome.answer = .ok (.error .noMemoryAvailable)
  layout_eq : outcome.state.heap.layout = after
  config_eq : outcome.state.heap.config = state.heap.config
  memory_eq : outcome.state.memory = state.memory
  blocks : ∀ index block, state.heap.layout.blocks.get? index = some block →
    outcome.state.heap.layout.blocks.get? index = some block

/-- The allocation is granted, with a block that is cut out of the one found in the layout. -/
structure TakesFrom (request : HeapRequest) (before : Layout)
    (outcome : Outcome (HeapState κ ω) Nat) : Prop where
  answer : ∃ pointer, outcome.answer = .ok (.ok pointer)
  taken : ∃ index used, before.findFree? request.search = .ok (some index) ∧
    before.take index request.need request.align = .ok (used, outcome.state.heap.layout)

variable [PageSupplier κ ω]

/-- The pages that an allocation asks for and what it comes to: it is refused just if the second
page is, and otherwise granted. Faults are those of the supplier. -/
inductive Grows (state : HeapState κ ω) (request : HeapRequest) (watermark demand : Nat)
    (outcome : Outcome (HeapState κ ω) Nat) : Prop
  | refused {middle : Layout} {first : List Event} {error : AllocError}
      (hfirst : state.heap.layout.GrowsFor watermark state.heap.config.pageSize middle first)
      (hsecond : middle.GrowsFor demand (max demand state.heap.config.pageSize) middle
        [.refused (max demand state.heap.config.pageSize) error])
      (hcalls : calls outcome.events =
        first ++ [.refused (max demand state.heap.config.pageSize) error])
      (hfails : state.FailsWith middle outcome)
  | granted {middle last : Layout} {first second : List Event}
      (hfirst : state.heap.layout.GrowsFor watermark state.heap.config.pageSize middle first)
      (hsecond : middle.GrowsFor demand (max demand state.heap.config.pageSize) last second)
      (hcalls : calls outcome.events = first ++ second)
      (hgiven : ∀ error, second ≠ [.refused (max demand state.heap.config.pageSize) error])
      (htakes : TakesFrom request last outcome)
  | faults {asked : Nat} {fault : Fault}
      (hasked : asked = state.heap.config.pageSize ∨
        asked = max demand state.heap.config.pageSize)
      (hanswer : outcome.answer = .error fault)
      (hsupply : Heap.FaultsAsking asked fault
        (outcome.state.heap.supplier, outcome.state.world))

variable {config : HeapConfig} {used : Set UsedBlock} {log : List Event} {size align : Nat}
  {request : HeapRequest}

/-- What holds of both growths holds of the allocation. -/
theorem allocateAligned_grows (hkeeps : Heap.Keeps config used (state.heap, state.world) log)
    (hcheck : HeapRequest.check state.heap.config size align = .ok (.ok request))
    (hconforming : Conforming (log ++ (allocateAligned size align state).events))
    {watermark demand : Nat} (hwatermark : roundUp state.heap.config.growWatermark = .ok watermark)
    (hdemand : roundUp request.search = .ok demand) :
    state.Grows request watermark demand (allocateAligned size align state) := by
  obtain rfl : state.heap.config = config := hkeeps.config_eq
  have hserves := HeapRequest.check_spec hcheck
  unfold allocateAligned at hconforming ⊢
  rw [Act.get_bind_run, Act.bind_run_of_silent (Act.liftM_checked_run hcheck state)]
    at hconforming ⊢
  have hfirst : Conforming (log ++ (Heap.growIfLow (state.heap, state.world)).events) :=
    hconforming.of_bind
  obtain ⟨fault, site, events, hrun, hfault⟩ | ⟨site, events, hrun, hgrows⟩ :=
    hkeeps.growIfLow_cases hwatermark hfirst
  · rw [Act.bind_run_of_fault (onSite_run hrun)]
    exact .faults (.inl rfl) rfl hfault
  rw [hrun] at hfirst
  have hmiddle : Heap.Keeps state.heap.config used site (log ++ events) :=
    (Heap.ensures_growIfLow.of_run hrun hkeeps.underOrderly hfirst.orderly).toKeeps
  rw [Act.bind_run_of_value (onSite_run hrun)] at hconforming ⊢
  obtain ⟨heap, world⟩ := site
  dsimp only at hconforming ⊢
  rw [← List.append_assoc] at hconforming
  have hsecond :
      Conforming (log ++ events ++ (Heap.findOrGrow request.search (heap, world)).events) :=
    hconforming.of_bind
  obtain ⟨fault, site, more, hsearch, hfault⟩ |
      ⟨answer, ⟨after, rest⟩, more, hsearch, hgrowsAgain, hends⟩ :=
    hmiddle.findOrGrow_cases hserves.search_le hdemand hsecond
  · rw [Act.bind_run_of_fault (onSite_run hsearch)]
    exact .faults (.inr rfl) rfl hfault
  rw [hsearch] at hsecond
  obtain ⟨hlast, hblock⟩ := (Heap.ensures_findOrGrow hserves.search_le).of_run hsearch
    hmiddle.underOrderly hsecond.orderly
  obtain ⟨rfl, error, hcalls⟩ | ⟨index, rfl, hfound, hgiven⟩ := hends
  · rw [Act.bind_run_of_refused (onSite_run hsearch)]
    rw [hcalls] at hgrowsAgain
    have hsame := hgrowsAgain.eq_of_refused
    rw [hsame] at hgrowsAgain
    refine .refused hgrows hgrowsAgain ?_
      ⟨rfl, hsame, hlast.config_eq, rfl, fun number block hblock ↦ ?_⟩
    · rw [calls_append, hcalls]
    · show after.layout.blocks.get? number = some block
      rw [hsame]
      exact hgrows.blocks_eq hblock
  · obtain ⟨block, hblockAt, hfree, hle⟩ := hblock index rfl
    obtain ⟨taken, part, layout, htake, -, htaken⟩ :=
      @take_run κ ω { state with heap := after, world := rest } _ _ _ _ _ hserves hlast.settled
        hblockAt hfree hle
    rw [Act.bind_run_of_value (onSite_run hsearch), htaken, List.append_nil]
    exact .granted hgrows hgrowsAgain (calls_append _ _) hgiven
      ⟨⟨part.address + headerSize, rfl⟩, index, taken, hfound, htake⟩

end HeapState

namespace HeapRun

variable {κ ω : Type} [PageSupplier κ ω] {state : HeapState κ ω} {deeds : List HeapDeed}
  {log : List Event} {mayWrite : HeapState κ ω → List Nat → Memory → Prop} {size align : Nat}
  {request : HeapRequest}

/-- With a supplier that gives what it is asked for, an allocation that passed its check asks first
for a page of the usual size, just if no free block reaches the watermark rounded up, and then for a
page that is large enough, just if no free block is. It calls the supplier for nothing else. It is
refused just if the second page is refused; all blocks stay as they were then, and the heap differs
at most by the first page. Otherwise it is granted, unless the supplier faults. -/
theorem grows_on_demand (hrun : HeapRun mayWrite state deeds log)
    (hcheck : HeapRequest.check state.heap.config size align = .ok (.ok request))
    (hconforming : Conforming (log ++ (HeapState.allocateAligned size align state).events)) :
    ∃ watermark demand, roundUp state.heap.config.growWatermark = .ok watermark ∧
      roundUp request.search = .ok demand ∧
      state.Grows request watermark demand (HeapState.allocateAligned size align state) := by
  obtain ⟨config, used, hkeeps, -⟩ := hrun.exists_points hconforming.of_append.orderly
  obtain rfl : state.heap.config = config := hkeeps.config_eq
  obtain ⟨demand, hdemand, -⟩ := exists_roundUp_of_le (HeapRequest.check_spec hcheck).search_le
  have hwatermark := hkeeps.valid.roundUp_growWatermark
  exact ⟨_, demand, hwatermark, hdemand,
    HeapState.allocateAligned_grows hkeeps hcheck hconforming hwatermark hdemand⟩

/-- A heap on its first page, with a supplier that hands out one region more. -/
def cappedPage : Outcome (Heap.Site LinearSupplier Unit) Unit :=
  Heap.grow (HeapConfig.pageSize {})
    ({ config := {}, supplier := { next := 4096, stop := 2 ^ 32, limit := some 2 } }, ())

/-- The heap with most of the page taken. -/
def mostTaken : HeapState LinearSupplier Unit :=
  (HeapState.allocate 13000 ⟨cappedPage.state.1, .blank, cappedPage.state.2⟩).state

theorem mostTaken_run : HeapRun AnyWrite mostTaken [.allocate 13000 (.ok 4112)] firstLog := by
  have hvalid : ({} : HeapConfig).validate.run = .ok (.ok ()) := by decide +kernel
  have hpage : cappedPage.answer = .ok (.ok ()) := by decide +kernel
  have hlog : cappedPage.events = firstLog := by decide +kernel
  have hnew : HeapRun AnyWrite ⟨cappedPage.state.1, .blank, cappedPage.state.2⟩ [] firstLog :=
    .created (Heap.create_run hvalid (Outcome.eq_of_answer hpage hlog)) .blank
  exact @allocated _ _ _ _ _ _ _ hnew 13000 (.ok 4112) [] (by decide +kernel)

theorem conforming_threeLog : Conforming threeLog where
  orderly := orderly_threeLog
  generous := generous_threeLog
  aligned := by
    intro size region hmem
    obtain ⟨rfl, rfl | rfl⟩ := of_mem_threeLog hmem
    · decide
    · decide

/-- A page is added as no free block reaches the watermark, and the one that the allocation needs is
refused. -/
theorem grows_on_demand_of_two_pages :
    HeapRun AnyWrite mostTaken [.allocate 13000 (.ok 4112)] firstLog ∧
    HeapRequest.check mostTaken.heap.config 20000 16 = .ok (.ok ⟨20480, 20480, 16⟩) ∧
    Conforming (firstLog ++ (HeapState.allocateAligned 20000 16 mostTaken).events) ∧
    ∃ middle, mostTaken.heap.layout.GrowsFor 4096 16384 middle [.supplied 16384 ⟨20480, 16384⟩] ∧
      middle.GrowsFor 20480 20480 middle [.refused 20480 .noMemoryAvailable] ∧
      mostTaken.FailsWith middle (HeapState.allocateAligned 20000 16 mostTaken) := by
  have hshown : ((HeapState.allocateAligned 20000 16 mostTaken).answer,
      (HeapState.allocateAligned 20000 16 mostTaken).events) =
      (.ok (.error .noMemoryAvailable), [.supplied 16384 ⟨20480, 16384⟩,
        .noted (.pageAdded 20480 16384), .refused 20480 .noMemoryAvailable]) := by decide +kernel
  obtain ⟨hanswer, hevents⟩ := Prod.mk.inj hshown
  have hcheck : @Eq (Except Fault (Except AllocError HeapRequest))
      (HeapRequest.check mostTaken.heap.config 20000 16) (.ok (.ok ⟨20480, 20480, 16⟩)) := by
    decide +kernel
  have hpage : mostTaken.heap.config.pageSize = 16384 := by decide +kernel
  have hwatermark : (roundUp mostTaken.heap.config.growWatermark) = .ok 4096 := by decide +kernel
  have hdemand : roundUp 20480 = .ok 20480 := by decide +kernel
  have hconforming : Conforming
      (firstLog ++ (HeapState.allocateAligned 20000 16 mostTaken).events) := by
    rw [hevents]
    exact conforming_threeLog.append_refused 20480 .noMemoryAvailable
  refine ⟨mostTaken_run, hcheck, hconforming, ?_⟩
  obtain ⟨watermark, demand, hlow, hround, hends⟩ :=
    grows_on_demand mostTaken_run hcheck hconforming
  obtain rfl := Except.ok.inj (hwatermark.symm.trans hlow)
  obtain rfl := Except.ok.inj (hdemand.symm.trans hround)
  cases hends with
  | @refused middle first error hfirst hsecond hcalls hfails =>
    rw [hevents, hpage] at hcalls
    rw [hpage] at hfirst hsecond
    have hsplit : first ++ [.refused (max 20480 16384) error] =
        [.supplied 16384 ⟨20480, 16384⟩] ++ [.refused 20480 .noMemoryAvailable] := hcalls.symm
    obtain ⟨rfl, hrefused⟩ := List.append_inj' hsplit rfl
    rw [hrefused] at hsecond
    exact ⟨middle, hfirst, hsecond, hfails⟩
  | granted _ _ _ _ htakes =>
    obtain ⟨pointer, hgiven⟩ := htakes.answer
    rw [hanswer] at hgiven
    cases hgiven
  | faults _ hfault _ =>
    rw [hanswer] at hfault
    cases hfault

end HeapRun

end KernelMemory
