import KernelMemory.Proofs.Heap.Growth

/-!
# The lifetime of a heap

A heap starts out with its first page, or it is not made and nothing is out (`Heap.ensures_create`).
While it lives the regions that are out are its pages (`Heap.Keeps.perm`). When it ends all of them
go back (`Heap.gives_destruct`).
-/

set_option autoImplicit false
set_option relaxedAutoImplicit false

namespace KernelMemory

namespace Heap

variable {κ ω : Type}

/-! ### The beginning -/

theorem usedBlocks_empty : usedBlocks (Layout.blocks {}).get? = ∅ := by
  show usedBlocks (fun _ ↦ none) = ∅
  ext used
  simp [usedBlocks]

variable [PageSupplier κ ω] {contract : Contract κ ω} {config : HeapConfig}

/-- A heap is made if its first growth comes to its end. -/
theorem create_run {supplier : κ} {world : ω} {site : Site κ ω} {events : List Event}
    (hvalid : config.validate = .ok (.ok ()))
    (hgrow : grow config.pageSize ({ config, supplier }, world) = ⟨.ok (.ok ()), site, events⟩) :
    create supplier config world = ⟨.ok (.ok site.1), site.2, events⟩ := by
  have hcheck : Act.ofChecked config.validate world = ⟨.ok (.ok ()), world, []⟩ := by
    unfold Act.ofChecked
    rw [hvalid]
    rfl
  unfold create
  refine (Act.bind_run_of_silent hcheck _).trans ?_
  dsimp only
  rw [hgrow]
  rfl

/-- A heap that is made has its first page. If none is made, nothing is out. -/
theorem ensures_create_grown (supplier : κ)
    (hfault : ∀ fault, config.validate.run = .error fault → contract.terms.Forgives fault) :
    Act.Ensures contract.terms (fun world log ↦ contract.Stands [] (supplier, world) log)
      (create supplier config) fun answer world log ↦ match answer with
        | .ok heap => Grown contract config {} config.pageSize (heap, world) log
        | .error _ => ∃ supplier, contract.Stands [] (supplier, world) log := by
  unfold create
  refine (Act.ensures_ofChecked hfault).bind (fun _ ↦ Act.ensures_of_fact fun hvalidate ↦ ?_)
    fun _ _ _ hpre ↦ ⟨supplier, hpre.2⟩
  have hvalid := HeapConfig.consistent_of_validate hvalidate
  intro world log hstands hadmits
  have hgrow := ensures_grow hvalid Layout.settled_empty backed_empty hvalid.le_max
    ({ config, supplier }, world) log ⟨rfl, rfl, hstands⟩ hadmits
  rw [Nat.max_self] at hgrow
  dsimp only at hadmits ⊢
  rcases hrun : grow config.pageSize ({ config, supplier }, world) with
    ⟨fault | error | value, site, events⟩
  · rw [hrun] at hgrow
    exact hgrow
  · rw [hrun] at hgrow
    exact ⟨site.1.supplier, hgrow.stands⟩
  · rw [hrun] at hgrow
    exact hgrow

/-- In a heap that is made no block is in use. -/
theorem ensures_create (supplier : κ)
    (hfault : ∀ fault, config.validate.run = .error fault → contract.terms.Forgives fault) :
    Act.Ensures contract.terms (fun world log ↦ contract.Stands [] (supplier, world) log)
      (create supplier config) fun answer world log ↦ match answer with
        | .ok heap => KeepsUnder contract config ∅ (heap, world) log
        | .error _ => ∃ supplier, contract.Stands [] (supplier, world) log := by
  refine (ensures_create_grown supplier hfault).mono (fun _ _ hpre ↦ hpre)
    fun answer world log hpost ↦ ?_
  cases answer with
  | ok heap => exact usedBlocks_empty ▸ hpost.toKeepsUnder
  | error error => exact hpost

/-! ### The end -/

omit [PageSupplier κ ω] in
/-- The regions that are out are the pages, each once. -/
theorem Keeps.perm {used : Set UsedBlock} {site : Site κ ω} {log : List Event}
    (hkeeps : Keeps config used site log) :
    ((outstanding log).map fun region ↦ (region.base, region.pageSize)).Perm
      (site.1.layout.pages.toList.map fun entry ↦ (entry.2.base, entry.2.size)) := by
  have hbacked := hkeeps.backed
  have htiled := hkeeps.settled.shaped.tiled
  have hout : ((outstanding log).map fun region ↦ (region.base, region.pageSize)).Nodup := by
    refine List.Nodup.of_map Prod.fst ?_
    rw [List.map_map]
    exact hbacked.nodup
  have hpages : (site.1.layout.pages.toList.map fun entry ↦
      (entry.2.base, entry.2.size)).Nodup := by
    refine (List.Nodup.of_map _ (Arena.nodup_toList _)).map_on
      fun first hfirst second hsecond heq ↦ ?_
    obtain ⟨number, page⟩ := first
    obtain ⟨other, otherPage⟩ := second
    rw [Arena.mem_toList] at hfirst hsecond
    obtain ⟨hbase, -⟩ := Prod.mk.inj heq
    by_cases hsame : number = other
    · subst hsame
      rw [Option.some.inj (hfirst.symm.trans hsecond)]
    · exact absurd hbase (htiled.page_base_ne hfirst hsecond hsame)
  rw [List.perm_ext_iff_of_nodup hout hpages]
  rintro ⟨base, size⟩
  simp only [List.mem_map, Prod.mk.injEq, Prod.exists, Arena.mem_toList]
  constructor
  · rintro ⟨region, hregion, rfl, rfl⟩
    exact hbacked.pageSize_eq hregion
  · rintro ⟨number, page, hpage, rfl, rfl⟩
    exact hbacked.region number page hpage

/-- Pages whose regions are all that is out can all be given back. -/
theorem gives_giveBackAll {pages : List (Nat × Page)} {out : List Region}
    (hperm : (out.map Region.base).Perm (pages.map fun entry ↦ entry.2.base)) :
    Act.Gives contract.terms (contract.Stands out)
      (pages.forM fun (_, page) ↦ do
        Act.note (.pageDropped page.base)
        PageSupplier.giveBack page.base) fun _ ↦ contract.Stands [] := by
  induction pages generalizing out with
  | nil =>
    obtain rfl : out = [] := List.map_eq_nil_iff.mp hperm.eq_nil
    exact (Act.gives_pure ()).ensures fun value state log hpre ↦ ⟨value, rfl, hpre.2⟩
  | cons entry pages ih =>
    rw [List.map_cons] at hperm
    have hmem : entry.2.base ∈ out.map Region.base := hperm.mem_iff.mpr List.mem_cons_self
    obtain ⟨region, hregion, hbase⟩ := List.mem_map.mp hmem
    have hrest : ((out.eraseP fun other ↦ other.base == region.base).map Region.base).Perm
        (pages.map fun entry ↦ entry.2.base) := by
      rw [map_base_eraseP, hbase, ← List.erase_cons_head entry.2.base (pages.map _)]
      exact hperm.erase entry.2.base
    have hnote : Act.Gives contract.terms (contract.Stands out)
        (Act.note (.pageDropped entry.2.base)) fun _ ↦ contract.Stands out :=
      Act.gives_emit fun state log hstands ↦ hstands.note _
    rw [List.forM]
    refine Act.Gives.bind (hnote.bind fun _ ↦ ?_) fun _ ↦ ih hrest
    rw [← hbase]
    exact Contract.gives_giveBack hregion

/-- When a heap ends nothing is out any more. -/
theorem gives_destruct {used : Set UsedBlock} (heap : Heap κ) :
    Act.Gives contract.terms (fun world log ↦ KeepsUnder contract config used (heap, world) log)
      (destruct heap) fun supplier world log ↦ contract.Stands [] (supplier, world) log := by
  intro world log hkeeps hadmits
  have hperm : ((outstanding log).map Region.base).Perm
      (heap.layout.pages.toList.map fun entry ↦ entry.2.base) := by
    have hmap := hkeeps.perm.map Prod.fst
    rwa [List.map_map, List.map_map] at hmap
  have hback : Act.Gives contract.terms (contract.Stands (outstanding log))
      (do
        heap.layout.pages.toList.forM fun (_, page) ↦ do
          Act.note (.pageDropped page.base)
          PageSupplier.giveBack page.base
        return (← get).1 : Act (κ × ω) κ)
      fun supplier state log ↦ supplier = state.1 ∧ contract.Stands [] state log := by
    refine (gives_giveBackAll hperm).bind fun _ ↦ Act.gives_get.bind fun read ↦ ?_
    refine (Act.gives_pure _).ensures fun supplier state log hpre ↦ ?_
    obtain ⟨rfl, rfl, hstands⟩ := hpre
    exact ⟨_, rfl, rfl, hstands⟩
  refine (hback (heap.supplier, world) log ⟨hkeeps.holds, rfl, hkeeps.balanced⟩ hadmits).map
    fun answer state log hpost ↦ ?_
  obtain ⟨supplier, rfl, rfl, hstands⟩ := hpost
  exact ⟨state.1, rfl, hstands⟩

end Heap

end KernelMemory
