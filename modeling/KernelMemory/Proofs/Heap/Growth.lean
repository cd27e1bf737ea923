import KernelMemory.Heap.Basic
import KernelMemory.Proofs.Contract
import KernelMemory.Proofs.Heap.Arguments

/-!
# Growth

How a heap comes by its pages and gives them back. At all times the regions that are out are those
of its pages (`Backed`), and a region that cannot be used goes back at once. Of the supplier nothing
is known but what is in the contract with it.
-/

set_option autoImplicit false
set_option relaxedAutoImplicit false

namespace KernelMemory

/-- The number of bytes that a page on the region has. -/
def Region.pageSize (region : Region) : Nat :=
  min region.size maxBlockSize / blockAlign * blockAlign

theorem Region.pageSize_le (region : Region) : region.pageSize ≤ region.size :=
  (Nat.div_mul_le_self _ _).trans (Nat.min_le_left _ _)

/-- Every page lies at the start of a region of its own, and no other region is out. -/
structure Backed (pages : Nat → Option Page) (out : List Region) : Prop where
  region : ∀ number page, pages number = some page →
    ∃ region ∈ out, region.base = page.base ∧ region.pageSize = page.size
  page : ∀ region ∈ out, ∃ number page, pages number = some page ∧ page.base = region.base
  nodup : (out.map Region.base).Nodup

theorem backed_empty : Backed (fun _ ↦ none) [] where
  region := fun _ _ hpage ↦ absurd hpage (by simp)
  page := fun _ hregion ↦ absurd hregion List.not_mem_nil
  nodup := List.nodup_nil

/-- A region that goes back is the only one that starts at its base. -/
theorem mem_eraseP_base {out : List Region} (hnodup : (out.map Region.base).Nodup) {base : Nat}
    {region : Region} : region ∈ out.eraseP (fun region ↦ region.base == base) ↔
      region ∈ out ∧ region.base ≠ base := by
  induction out with
  | nil => simp
  | cons first out ih =>
    rw [List.map_cons, List.nodup_cons] at hnodup
    have hfirst : ∀ other ∈ out, other.base ≠ first.base := fun other hother heq ↦
      hnodup.1 (heq ▸ List.mem_map_of_mem hother)
    by_cases heq : first.base = base
    · simp only [List.eraseP_cons, beq_iff_eq.mpr heq, cond_true, List.mem_cons]
      grind
    · simp only [List.eraseP_cons, beq_eq_false_iff_ne.mpr heq, cond_false, List.mem_cons,
        ih hnodup.2]
      grind

namespace Backed

variable {pages : Nat → Option Page} {out : List Region} (hbacked : Backed pages out)

include hbacked

/-- A region that is out is that of a page. -/
theorem pageSize_eq {region : Region} (hregion : region ∈ out) :
    ∃ number page, pages number = some page ∧ page.base = region.base ∧
      page.size = region.pageSize := by
  obtain ⟨number, page, hpage, hbase⟩ := hbacked.page region hregion
  obtain ⟨other, hother, hotherBase, hsize⟩ := hbacked.region number page hpage
  have heq : other = region :=
    List.inj_on_of_nodup_map hbacked.nodup hother hregion (hotherBase.trans hbase)
  exact ⟨number, page, hpage, hbase, heq ▸ hsize.symm⟩

/-- The region of a page has the places of the page. -/
theorem exists_region_of_mem {number place : Nat} {page : Page} (hpage : pages number = some page)
    (hplace : place ∈ Set.Ico page.base (page.base + page.size)) :
    ∃ region ∈ out, region.base = page.base ∧
      place ∈ Set.Ico region.base (region.base + region.size) := by
  obtain ⟨region, hregion, hbase, hsize⟩ := hbacked.region number page hpage
  have hle := region.pageSize_le
  rw [Set.mem_Ico] at hplace
  exact ⟨region, hregion, hbase, Set.mem_Ico.mpr ⟨by omega, by omega⟩⟩

/-- A page on a region that shares no byte with the others lies apart from the other pages. -/
theorem apart (husable : ∀ number page, pages number = some page → page.Usable) {region : Region}
    (hdisjoint : region.DisjointFrom out) (hpos : 0 < region.pageSize) (number : Nat) (page : Page)
    (hpage : pages number = some page) :
    region.base + region.pageSize ≤ page.base ∨ page.base + page.size ≤ region.base := by
  obtain ⟨other, hother, hbase, hsize⟩ := hbacked.region number page hpage
  have hmin := (husable number page hpage).min_le
  rw [minBlockSize_eq] at hmin
  have hle := region.pageSize_le
  have hotherLe := other.pageSize_le
  have hapart := Region.apart_of_disjoint hdisjoint hother (by omega) (by omega)
  omega

theorem addPage (husable : ∀ number page, pages number = some page → page.Usable)
    {region : Region} (hdisjoint : region.DisjointFrom out) {number : Nat} {page : Page}
    (hnone : pages number = none) (hbase : page.base = region.base) (hpos : 0 < page.size)
    (hsize : page.size = region.pageSize) :
    Backed (pagesWith pages number page) (region :: out) := by
  have hold := hbacked.region
  have holdPage := hbacked.page
  have happly : ∀ other, pagesWith pages number page other =
      if other = number then some page else pages other := fun other ↦ Function.update_apply ..
  refine ⟨fun other otherPage hother ↦ ?_, fun other hother ↦ ?_, ?_⟩
  · grind
  · grind
  · rw [List.map_cons, List.nodup_cons]
    refine ⟨fun hmem ↦ ?_, hbacked.nodup⟩
    obtain ⟨other, hother, hsame⟩ := List.mem_map.mp hmem
    obtain ⟨otherNumber, otherPage, hotherPage, hotherBase, hotherSize⟩ :=
      hbacked.pageSize_eq hother
    have hmin := (husable otherNumber otherPage hotherPage).min_le
    rw [minBlockSize_eq] at hmin
    have hapart := hbacked.apart husable hdisjoint (hsize ▸ hpos) otherNumber otherPage hotherPage
    omega

theorem dropPage (hpages : ∀ first second firstPage secondPage, pages first = some firstPage →
      pages second = some secondPage → first ≠ second → firstPage.base ≠ secondPage.base)
    {number : Nat} {page : Page} (hpage : pages number = some page) :
    Backed (pagesWithout pages number)
      (out.eraseP fun region ↦ region.base == page.base) := by
  have hmem : ∀ region, region ∈ out.eraseP (fun region ↦ region.base == page.base) ↔
      region ∈ out ∧ region.base ≠ page.base := fun region ↦ mem_eraseP_base hbacked.nodup
  have hregion := hbacked.region
  have hpageOf := hbacked.page
  have happly : ∀ other, pagesWithout pages number other =
      if other = number then none else pages other := fun other ↦ Function.update_apply ..
  refine ⟨fun other otherPage hother ↦ ?_, fun region hmemRegion ↦ ?_, ?_⟩
  · rw [happly] at hother
    split_ifs at hother with heq
    obtain ⟨region, hin, hbase, hsize⟩ := hregion other otherPage hother
    refine ⟨region, (hmem region).mpr ⟨hin, ?_⟩, hbase, hsize⟩
    rw [hbase]
    exact hpages other number otherPage page hother hpage heq
  · obtain ⟨hin, hne⟩ := (hmem region).mp hmemRegion
    obtain ⟨other, otherPage, hother, hbase⟩ := hpageOf region hin
    refine ⟨other, otherPage, ?_, hbase⟩
    rw [happly, if_neg]
    · exact hother
    · rintro rfl
      obtain rfl : otherPage = page := Option.some.inj (hother.symm.trans hpage)
      exact hne hbase.symm
  · exact (List.eraseP_sublist.map Region.base).nodup hbacked.nodup

end Backed

/-- Giving a region back faults just if the supplier does. -/
theorem PageSupplier.giveBack_answer {κ ω : Type} [PageSupplier κ ω] (base : Nat) (state : κ × ω) :
    (giveBack base state).answer = (release base state).answer.map fun _ ↦ .ok () := by
  rcases hrun : release base state with ⟨fault | answer, after, events⟩
  · rw [giveBack_of_fault hrun]
    rfl
  · rw [giveBack_of_answer hrun]
    rfl

namespace Heap

variable {κ ω : Type}

theorem step_run {α : Type} {change : Layout → Except Fault (α × Layout)} {heap : Heap κ}
    {value : α} {after : Layout} (hchange : change heap.layout = .ok (value, after)) (world : ω) :
    step change (heap, world) = ⟨.ok (.ok value), ({ heap with layout := after }, world), []⟩ := by
  unfold step
  rw [Act.get_bind_run]
  simp only [hchange]
  rfl

/-- The heap is as it should be between two requests, with the given blocks in use. -/
structure Keeps (config : HeapConfig) (used : Set UsedBlock) (site : Site κ ω)
    (log : List Event) : Prop where
  config_eq : site.1.config = config
  valid : config.Consistent
  settled : site.1.layout.Settled
  used_eq : usedBlocks site.1.layout.blocks.get? = used
  backed : Backed site.1.layout.pages.get? (outstanding log)
  balanced : Balanced log

/-- The world beside the heap does not count. -/
theorem Keeps.of_world {config : HeapConfig} {used : Set UsedBlock} {site : Site κ ω}
    {log : List Event} (hkeeps : Keeps config used site log) (world : ω) :
    Keeps config used (site.1, world) log :=
  ⟨hkeeps.config_eq, hkeeps.valid, hkeeps.settled, hkeeps.used_eq, hkeeps.backed,
    hkeeps.balanced⟩

/-- A notice changes nothing about the heap. -/
theorem Keeps.note {config : HeapConfig} {used : Set UsedBlock} {site : Site κ ω}
    {log : List Event} (hkeeps : Keeps config used site log) (notice : Notice) :
    Keeps config used site (log ++ [.noted notice]) where
  config_eq := hkeeps.config_eq
  valid := hkeeps.valid
  settled := hkeeps.settled
  used_eq := hkeeps.used_eq
  backed := by
    rw [outstanding_snoc]
    exact hkeeps.backed
  balanced := hkeeps.balanced.snoc fun _ heq ↦ absurd heq (by simp)

variable [PageSupplier κ ω] (contract : Contract κ ω)

/-- The heap has the given layout, and the given regions are out. -/
structure At (config : HeapConfig) (layout : Layout) (out : List Region) (site : Site κ ω)
    (log : List Event) : Prop where
  config_eq : site.1.config = config
  layout_eq : site.1.layout = layout
  stands : contract.Stands out (site.1.supplier, site.2) log

/-- The heap is as it should be between two requests, and so is the supplier. -/
structure KeepsUnder (config : HeapConfig) (used : Set UsedBlock) (site : Site κ ω)
    (log : List Event) : Prop extends Keeps config used site log where
  holds : contract.Holds (site.1.supplier, site.2) (outstanding log)

/-- A page was added to a layout, on a region that was given for the size that was asked for. -/
structure Grown (config : HeapConfig) (layout : Layout) (size : Nat) (site : Site κ ω)
    (log : List Event) : Prop
    extends KeepsUnder contract config (usedBlocks layout.blocks.get?) site log where
  grows : ∃ region, .supplied size region ∈ log ∧ layout.Grows site.1.layout region.pageSize

variable {contract} {config : HeapConfig} {layout : Layout} {out : List Region}
  {used : Set UsedBlock} {α : Type}

theorem KeepsUnder.at {site : Site κ ω} {log : List Event}
    (hkeeps : KeepsUnder contract config used site log) :
    At contract config site.1.layout (outstanding log) site log :=
  ⟨hkeeps.config_eq, rfl, hkeeps.holds, rfl, hkeeps.balanced⟩

theorem At.keeps {site : Site κ ω} {log : List Event}
    (hat : At contract config layout out site log)
    (hvalid : config.Consistent) (hsettled : layout.Settled) (hbacked : Backed layout.pages.get? out) :
    KeepsUnder contract config (usedBlocks layout.blocks.get?) site log := by
  obtain ⟨hconfig, rfl, hholds, rfl, hbalanced⟩ := hat
  exact ⟨⟨hconfig, hvalid, hsettled, rfl, hbacked, hbalanced⟩, hholds⟩

/-- An act that keeps whatever layout there is can be judged at each of them. -/
theorem ensures_of_at {act : Act (Site κ ω) α}
    {post : Except AllocError α → Site κ ω → List Event → Prop}
    (hact : ∀ layout out, config.Consistent → layout.Settled → Backed layout.pages.get? out →
      usedBlocks layout.blocks.get? = used →
      Act.Ensures contract.terms (At contract config layout out) act post) :
    Act.Ensures contract.terms (KeepsUnder contract config used) act post := by
  intro site log hkeeps hadmits
  exact hact _ _ hkeeps.valid hkeeps.settled hkeeps.backed hkeeps.used_eq site log hkeeps.at hadmits

/-! ### Single acts -/

theorem gives_note (notice : Notice) :
    Act.Gives contract.terms (At contract config layout out) (Act.note notice)
      fun _ ↦ At contract config layout out :=
  Act.gives_emit fun _ _ hat ↦ ⟨hat.config_eq, hat.layout_eq, hat.stands.note notice⟩

theorem KeepsUnder.note {site : Site κ ω} {log : List Event}
    (hkeeps : KeepsUnder contract config used site log) (notice : Notice) :
    KeepsUnder contract config used site (log ++ [.noted notice]) where
  toKeeps := hkeeps.toKeeps.note notice
  holds := by
    rw [outstanding_snoc]
    exact hkeeps.holds

/-- A search comes to its end if the size can be rounded up to that of a block. -/
theorem gives_findFree? {size : Nat} {pre : Site κ ω → List Event → Prop}
    (hpre : ∀ site log, pre site log → site.1.layout.Settled)
    (hround : ∃ rounded, roundUp size = .ok rounded ∧ rounded ≤ maxBlockSize) :
    Act.Gives contract.terms pre (findFree? size)
      fun found site log ↦ site.1.layout.findFree? size = .ok found ∧ pre site log := by
  unfold findFree?
  refine Act.gives_get.bind fun read ↦ Act.Gives.ensures (Act.gives_lift ?_) ?_
  · intro site log fault hread hfault
    obtain ⟨rfl, hstate⟩ := hread
    obtain ⟨rounded, hrounded, hle⟩ := hround
    obtain ⟨found, hfound⟩ := (hpre _ _ hstate).exists_findFree? hrounded hle
    rw [hfound] at hfault
    cases hfault
  · intro found site log hread
    obtain ⟨hfound, rfl, hstate⟩ := hread
    exact ⟨found, rfl, hfound, hstate⟩

/-- A step changes the layout and nothing else. -/
theorem gives_step (change : Layout → Except Fault (α × Layout))
    (hfault : ∀ fault, change layout = .error fault → contract.terms.Forgives fault) :
    Act.Gives contract.terms (At contract config layout out) (step change) fun value site log ↦
      ∃ after, change layout = .ok (value, after) ∧ At contract config after out site log := by
  unfold step
  refine Act.gives_get.bind fun read ↦ (Act.gives_lift ?_).bind fun changed ↦ ?_
  · intro site log fault hpre hchange
    obtain ⟨rfl, hat⟩ := hpre
    exact hfault fault (hat.layout_eq ▸ hchange)
  have hset : Act.Gives contract.terms (fun (site : Site κ ω) log ↦
      change read.1.layout = .ok changed ∧ read = site ∧ At contract config layout out site log)
      (set ({ read.1 with layout := changed.2 }, read.2)) fun _ site log ↦
        change layout = .ok changed ∧ At contract config changed.2 out site log := by
    refine Act.gives_set fun site log hpre ↦ ?_
    obtain ⟨hchange, rfl, hat⟩ := hpre
    exact ⟨hat.layout_eq ▸ hchange, hat.config_eq, rfl, hat.stands⟩
  refine hset.bind fun _ ↦ (Act.gives_pure changed.1).ensures ?_
  rintro value site log ⟨rfl, hchange, hat⟩
  exact ⟨changed.1, rfl, changed.2, hchange, hat⟩

/-- A step whose result is known gives it. -/
theorem gives_step_of_eq {change : Layout → Except Fault (α × Layout)} {value : α} {after : Layout}
    (hchange : change layout = .ok (value, after)) :
    Act.Gives contract.terms (At contract config layout out) (step change) fun given site log ↦
      given = value ∧ At contract config after out site log := by
  refine (gives_step change fun fault hfault ↦ ?_).ensures fun given site log hgiven ↦ ?_
  · rw [hchange] at hfault
    cases hfault
  · obtain ⟨other, hother, hat⟩ := hgiven
    rw [hchange, Except.ok.injEq, Prod.mk.injEq] at hother
    obtain ⟨rfl, rfl⟩ := hother
    exact ⟨value, rfl, rfl, hat⟩

/-- What an act of the supplier does is done beside the heap. -/
theorem ensures_onSupplier {act : Act (κ × ω) α}
    {post : Except AllocError α → κ × ω → List Event → Prop}
    (hact : Act.Ensures contract.terms (contract.Stands out) act post) :
    Act.Ensures contract.terms (At contract config layout out) (onSupplier act)
      fun answer site log ↦ site.1.config = config ∧ site.1.layout = layout ∧
        post answer (site.1.supplier, site.2) log := by
  unfold onSupplier
  refine Act.ensures_within fun site ↦ ?_
  intro state log hpre hadmits
  obtain ⟨rfl, hat⟩ := hpre
  exact (hact _ log hat.stands hadmits).mono fun answer state log hpost ↦
    ⟨hat.config_eq, hat.layout_eq, hpost⟩

theorem gives_giveBack {region : Region} (hregion : region ∈ out) :
    Act.Gives contract.terms (At contract config layout out)
      (onSupplier (PageSupplier.giveBack region.base))
      fun _ ↦ At contract config layout (out.eraseP fun other ↦ other.base == region.base) := by
  refine Act.Ensures.mono (ensures_onSupplier (Contract.gives_giveBack hregion))
    (fun _ _ hat ↦ hat) fun answer site log hpost ↦ ?_
  obtain ⟨hconfig, hlayout, value, rfl, hstands⟩ := hpost
  exact ⟨value, rfl, hconfig, hlayout, hstands⟩

theorem ensures_request {size : Nat} (hsize : size ≤ maxBlockSize) :
    Act.Ensures contract.terms (At contract config layout out)
      (onSupplier (PageSupplier.request size)) fun answer site log ↦ match answer with
        | .ok region => (region.DisjointFrom out ∧ (region.base + region.size < Word.limit ∨
            contract.terms.Forgives .addOverflow)) ∧ .supplied size region ∈ log ∧
            At contract config layout (region :: out) site log
        | .error _ => At contract config layout out site log := by
  refine (ensures_onSupplier (Contract.ensures_request hsize)).mono (fun _ _ hat ↦ hat)
    fun answer site log hpost ↦ ?_
  obtain ⟨hconfig, hlayout, hpost⟩ := hpost
  cases answer with
  | ok region => exact ⟨hpost.1, hpost.2.1, hconfig, hlayout, hpost.2.2⟩
  | error error => exact ⟨hconfig, hlayout, hpost⟩

omit [PageSupplier κ ω] in
theorem eraseP_head (region : Region) :
    (region :: out).eraseP (fun other ↦ other.base == region.base) = out := by
  simp

/-! ### Pages that come and go -/

omit [PageSupplier κ ω] in
theorem alignDown_eq (region : Region) :
    Word.alignDown (min region.size maxBlockSize) blockAlign = .ok region.pageSize := by
  have hmin : min region.size maxBlockSize ≤ maxBlockSize := Nat.min_le_right _ _
  exact Word.alignDown_eq (hmin.trans_lt (by decide)) (by decide) (by decide)

omit [PageSupplier κ ω] in
/-- What a region has room for makes a page. -/
theorem usable_of_region {region : Region}
    (haligned : ¬ (decide (region.base % blockAlign ≠ 0) || decide (region.base = 0)) = true)
    (hmin : ¬ region.pageSize < minBlockSize)
    (hend : region.base + region.pageSize < Word.limit) :
    Page.Usable ⟨region.base, region.pageSize, 0⟩ := by
  simp only [Bool.or_eq_true, decide_eq_true_eq, not_or, not_not] at haligned
  exact ⟨Nat.pos_of_ne_zero haligned.2, Nat.dvd_of_mod_eq_zero haligned.1, Nat.le_of_not_lt hmin,
    Nat.dvd_mul_left _ _, (Nat.div_mul_le_self _ _).trans (Nat.min_le_right _ _), hend⟩

/-- A region that can be used becomes a page. -/
theorem gives_addPage {region : Region} (hvalid : config.Consistent) (hsettled : layout.Settled)
    (hbacked : Backed layout.pages.get? out) (hdisjoint : region.DisjointFrom out)
    (hend : region.base + region.size < Word.limit ∨ contract.terms.Forgives .addOverflow)
    (haligned : ¬ (decide (region.base % blockAlign ≠ 0) || decide (region.base = 0)) = true)
    (hmin : ¬ region.pageSize < minBlockSize) :
    Act.Gives contract.terms (At contract config layout (region :: out))
      (step fun layout ↦ return ((), ← layout.addPage region.base region.pageSize))
      fun _ site log ↦ layout.Grows site.1.layout region.pageSize ∧
        KeepsUnder contract config (usedBlocks layout.blocks.get?) site log := by
  by_cases hfits : region.base + region.pageSize < Word.limit
  · have husable := usable_of_region haligned hmin hfits
    have hpos : 0 < region.pageSize := (by decide : 0 < minBlockSize).trans_le husable.min_le
    obtain ⟨number, page, after, haddPage, hsettledAfter, hused, hpages, hnone, hbase, hsize,
      hgrows⟩ :=
      hsettled.addPage husable (hbacked.apart hsettled.shaped.tiled.usable hdisjoint hpos)
    have hchange : (do return ((), ← layout.addPage region.base region.pageSize) :
        Except Fault (Unit × Layout)) = .ok ((), after) := by
      rw [haddPage, ok_bind, pure_eq_ok]
    refine (gives_step_of_eq hchange).ensures fun value site log hgiven ↦
      ⟨value, rfl, hgiven.2.layout_eq ▸ hgrows, ?_⟩
    rw [← hused]
    refine hgiven.2.keeps hvalid hsettledAfter ?_
    rw [hpages]
    exact hbacked.addPage hsettled.shaped.tiled.usable hdisjoint hnone hbase (hsize ▸ hpos) hsize
  · have haddPage := Layout.addPage_eq_error hsettled.shaped.blocks hsettled.shaped.pages hfits
    have hoverflow : contract.terms.Forgives .addOverflow := by
      have hle := region.pageSize_le
      exact hend.resolve_left (by omega)
    refine (gives_step _ fun fault hfault ↦ ?_).ensures fun value site log hgiven ↦ ?_
    · rw [haddPage, error_bind] at hfault
      cases hfault
      exact hoverflow
    · obtain ⟨after, hchange, -⟩ := hgiven
      rw [haddPage, error_bind] at hchange
      cases hchange

/-- A region becomes a page, or it goes back and all is as before. -/
theorem ensures_addRegion {region : Region} (hvalid : config.Consistent) (hsettled : layout.Settled)
    (hbacked : Backed layout.pages.get? out) (hdisjoint : region.DisjointFrom out)
    (hend : region.base + region.size < Word.limit ∨ contract.terms.Forgives .addOverflow) :
    Act.Ensures contract.terms (At contract config layout (region :: out)) (addRegion region)
      fun answer site log ↦ match answer with
        | .ok _ => layout.Grows site.1.layout region.pageSize ∧
            KeepsUnder contract config (usedBlocks layout.blocks.get?) site log
        | .error _ => At contract config layout out site log := by
  have hback : Act.Gives contract.terms (At contract config layout (region :: out))
      (onSupplier (PageSupplier.giveBack region.base))
      fun _ ↦ At contract config layout out := by
    refine (gives_giveBack List.mem_cons_self).ensures fun value site log hat ↦ ⟨value, rfl, ?_⟩
    rwa [eraseP_head] at hat
  unfold addRegion
  dsimp only
  split
  · refine (gives_note _).bind fun _ ↦ hback.bind fun _ ↦ ?_
    exact Act.ensures_throw_bind fun _ _ hat ↦ hat
  rename_i haligned
  refine (Act.gives_lift_of_eq (alignDown_eq region)).bind fun size ↦
    Act.ensures_of_fact fun hsize ↦ ?_
  subst hsize
  split
  · exact hback.bind fun _ ↦ Act.ensures_throw_bind fun _ _ hat ↦ hat
  rename_i hmin
  refine (gives_addPage hvalid hsettled hbacked hdisjoint hend haligned hmin).bind fun _ ↦ ?_
  exact (Act.gives_emit fun _ _ hpre ↦ ⟨hpre.1, hpre.2.note _⟩).ensures fun _ _ _ hpost ↦ hpost

/-- A growth gives one page more, or it fails and leaves all as it was. -/
theorem ensures_grow {size : Nat} (hvalid : config.Consistent) (hsettled : layout.Settled)
    (hbacked : Backed layout.pages.get? out) (hsize : size ≤ maxBlockSize) :
    Act.Ensures contract.terms (At contract config layout out) (grow size)
      fun answer site log ↦ match answer with
        | .ok _ => Grown contract config layout (max size config.pageSize) site log
        | .error _ => At contract config layout out site log := by
  unfold grow
  refine Act.gives_get.bind fun read ↦ ?_
  intro site log hpre
  obtain ⟨rfl, hat⟩ := hpre
  obtain rfl := hat.config_eq
  have hmax := Nat.max_le.mpr ⟨hsize, hvalid.le_max⟩
  refine ((ensures_request hmax).bind (fun region ↦ Act.ensures_of_fact fun hregion ↦ ?_)
    fun _ _ _ hat ↦ hat) read log hat
  refine ((ensures_addRegion hvalid hsettled hbacked hregion.1 hregion.2).with_mem _).mono
    (fun _ _ hpre ↦ hpre) fun answer site log hpost ↦ ?_
  cases answer with
  | ok value => exact ⟨hpost.2.2, region, hpost.1, hpost.2.1⟩
  | error error => exact hpost.2

/-- If no free block reaches the watermark there is one page more, or the growth failed. -/
theorem ensures_growIfLow_of_at (hvalid : config.Consistent) (hsettled : layout.Settled)
    (hbacked : Backed layout.pages.get? out) :
    Act.Ensures contract.terms (At contract config layout out) growIfLow fun _ site log ↦
      At contract config layout out site log ∨
        (layout.findFree? config.growWatermark = .ok none ∧
          Grown contract config layout config.pageSize site log) := by
  unfold growIfLow
  refine Act.gives_get.bind fun read ↦ ?_
  intro site log hpre
  obtain ⟨rfl, hat⟩ := hpre
  obtain rfl := hat.config_eq
  refine ((gives_findFree? (fun _ _ hat ↦ hat.layout_eq ▸ hsettled)
    ⟨_, hvalid.roundUp_growWatermark, hvalid.watermark_le.trans hvalid.le_max⟩).bind
      fun found ↦ ?_) read log hat
  cases found with
  | some index => exact (Act.gives_pure ()).ensures fun _ _ _ hpre ↦ .inl hpre.2.2
  | none =>
    intro site log hpre
    have hlow : layout.findFree? read.1.config.growWatermark = .ok none := hpre.2.layout_eq ▸ hpre.1
    refine ((ensures_grow hvalid hsettled hbacked hvalid.le_max).settle.bind fun settled ↦ ?_)
      site log hpre.2
    cases settled with
    | ok value =>
      rw [Nat.max_self]
      exact (Act.gives_pure ()).ensures fun _ _ _ hpre ↦ .inr ⟨hlow, hpre.2⟩
    | error error => exact (gives_note _).ensures fun _ _ _ hat ↦ .inl hat

theorem ensures_growIfLow :
    Act.Ensures contract.terms (KeepsUnder contract config used) growIfLow
      fun _ ↦ KeepsUnder contract config used := by
  refine ensures_of_at fun layout out hvalid hsettled hbacked hused ↦ ?_
  subst hused
  refine (ensures_growIfLow_of_at hvalid hsettled hbacked).mono (fun _ _ hat ↦ hat)
    fun answer site log hpost ↦ ?_
  rcases hpost with hat | ⟨-, hgrown⟩
  · exact hat.keeps hvalid hsettled hbacked
  · exact hgrown.toKeepsUnder

/-- A search that finds nothing is made again if there is one page more. -/
theorem ensures_findOrGrow_of_at {size rounded : Nat} (hround : roundUp size = .ok rounded)
    (hrounded : rounded ≤ maxBlockSize) (hvalid : config.Consistent) (hsettled : layout.Settled)
    (hbacked : Backed layout.pages.get? out) :
    Act.Ensures contract.terms (At contract config layout out) (findOrGrow size)
      fun answer site log ↦
        (At contract config layout out site log ∧ ∀ index, answer = .ok index →
          layout.findFree? size = .ok (some index)) ∨
        (layout.findFree? size = .ok none ∧
          Grown contract config layout (max rounded config.pageSize) site log ∧
          site.1.layout.findFree? size = .ok answer.toOption) := by
  unfold findOrGrow
  refine (gives_findFree? (fun _ _ hat ↦ hat.layout_eq ▸ hsettled)
    ⟨rounded, hround, hrounded⟩).bind fun found ↦ ?_
  cases found with
  | some index =>
    refine (Act.gives_pure index).ensures fun value site log hvalue ↦ .inl ?_
    obtain ⟨rfl, hfound, hat⟩ := hvalue
    refine ⟨hat, fun other heq ↦ ?_⟩
    rw [← Except.ok.inj heq, ← hfound, hat.layout_eq]
  | none =>
    intro site log hpre
    have hlow : layout.findFree? size = .ok none := hpre.2.layout_eq ▸ hpre.1
    refine ((Act.gives_lift_of_eq hround).bind fun size ↦ Act.ensures_of_fact fun heq ↦ ?_)
      site log hpre.2
    subst heq
    refine (ensures_grow hvalid hsettled hbacked hrounded).settle.bind fun settled ↦ ?_
    cases settled with
    | error error =>
      exact Act.ensures_throw fun _ _ hat ↦ .inl ⟨hat, fun _ heq ↦ by simp at heq⟩
    | ok value =>
      refine (gives_findFree? (fun _ _ hgrown ↦ hgrown.settled)
        ⟨size, hround, hrounded⟩).bind fun found ↦ ?_
      cases found with
      | none => exact Act.ensures_throw fun _ _ hpost ↦ .inr ⟨hlow, hpost.2, hpost.1⟩
      | some index =>
        refine (Act.gives_pure index).ensures fun value site log hvalue ↦ .inr ?_
        obtain ⟨rfl, hfound, hgrown⟩ := hvalue
        exact ⟨hlow, hgrown, hfound⟩

/-- A block that is found is free and large enough. -/
theorem ensures_findOrGrow {size : Nat} (hsize : size ≤ maxBlockSize) :
    Act.Ensures contract.terms (KeepsUnder contract config used) (findOrGrow size)
      fun answer site log ↦ KeepsUnder contract config used site log ∧ ∀ index,
        answer = .ok index → ∃ block, site.1.layout.blocks.get? index = some block ∧
          block.isFree = true ∧ size ≤ block.size := by
  obtain ⟨rounded, hround, hrounded⟩ := exists_roundUp_of_le hsize
  refine ensures_of_at fun layout out hvalid hsettled hbacked hused ↦ ?_
  subst hused
  refine (ensures_findOrGrow_of_at hround hrounded hvalid hsettled hbacked).mono
    (fun _ _ hat ↦ hat) fun answer site log hpost ↦ ?_
  rcases hpost with ⟨hat, hfound⟩ | ⟨-, hgrown, hfound⟩
  · refine ⟨hat.keeps hvalid hsettled hbacked, fun index heq ↦ ?_⟩
    rw [hat.layout_eq]
    exact hsettled.findFree? hsize (hfound index heq)
  · refine ⟨hgrown.toKeepsUnder, fun index heq ↦ ?_⟩
    rw [heq] at hfound
    exact hgrown.settled.findFree? hsize hfound

/-- A page that is one free block goes back. -/
theorem gives_releasePage {first : Nat} {block : Block} {page : Page} (hvalid : config.Consistent)
    (hsettled : layout.Settled) (hbacked : Backed layout.pages.get? out)
    (hdrop : Droppable layout.blocks.get? layout.pages.get? first block page) :
    Act.Gives contract.terms (At contract config layout out) (releasePage block.page)
      fun _ ↦ KeepsUnder contract config (usedBlocks layout.blocks.get?) := by
  obtain ⟨after, hdropPage, hsettledAfter, hused, hpages⟩ := hsettled.dropPage hdrop
  obtain ⟨region, hregion, hbase, -⟩ := hbacked.region _ page hdrop.page_eq
  unfold releasePage
  refine (gives_step_of_eq hdropPage).bind fun dropped ↦ Act.ensures_of_fact fun hsame ↦ ?_
  subst hsame
  refine (gives_note _).bind fun _ ↦ ?_
  rw [← hbase]
  refine (gives_giveBack hregion).ensures fun value site log hat ↦ ⟨value, rfl, ?_⟩
  rw [← hused]
  refine hat.keeps hvalid hsettledAfter ?_
  rw [hpages, hbase]
  exact hbacked.dropPage (fun _ _ _ _ ↦ hsettled.shaped.tiled.page_base_ne) hdrop.page_eq

/-- A page is dropped, that is noted, and its region goes back. -/
theorem releasePage_run {heap : Heap κ} {number : Nat} {page : Page} {dropped : Layout}
    (hdrop : heap.layout.dropPage number = .ok (page, dropped)) (world : ω) :
    releasePage number (heap, world) =
      let outcome := PageSupplier.giveBack page.base (heap.supplier, world)
      ⟨outcome.answer,
        ({ heap with layout := dropped, supplier := outcome.state.1 }, outcome.state.2),
        .noted (.pageReleased page.base page.size) :: outcome.events⟩ := by
  have hstep := @step_run κ ω _ (fun layout ↦ layout.dropPage number) heap _ _ hdrop world
  unfold releasePage
  rw [Act.bind_run_of_silent hstep]
  rfl

/-- A page that is one free block can be given back unless the supplier faults. -/
theorem releasePage_answer {heap : Heap κ} {world : ω} {first : Nat} {block : Block} {page : Page}
    (hsettled : heap.layout.Settled)
    (hdrop : Droppable heap.layout.blocks.get? heap.layout.pages.get? first block page) :
    (releasePage block.page (heap, world)).answer =
      (PageSupplier.release page.base (heap.supplier, world)).answer.map fun _ ↦ .ok () := by
  obtain ⟨after, hdropPage, -⟩ := hsettled.dropPage hdrop
  rw [releasePage_run hdropPage]
  exact PageSupplier.giveBack_answer page.base (heap.supplier, world)

end Heap

end KernelMemory
