import KernelMemory.Proofs.Heap.Runs
import KernelMemory.Proofs.Heap.Survey

/-!
# Well-formed heaps

What a heap promises of its blocks, its free lists and its counts between two calls
(`Layout.WellFormed`), in terms of the records alone. It holds after every run, whatever the
supplier answers and whatever is written to memory, and the check of the layout finds no defect then
(`HeapRun.layout_wellFormed`).
-/

set_option autoImplicit false
set_option relaxedAutoImplicit false

namespace KernelMemory

namespace Layout

/-- The pages that are one free block. -/
def pagesFree (layout : Layout) : Set Nat :=
  {number | ∃ page index block, layout.pages.get? number = some page ∧
    layout.blocks.get? index = some block ∧ block.page = number ∧ block.isFree = true ∧
    block.size = page.size}

/-- Pages are tiled by blocks that know their neighbours, free blocks are never neighbours and are
each on the list of their class, the marks tell which lists have members, and the counts are right.
-/
structure WellFormed (layout : Layout) : Prop where
  pages : ∀ number page, layout.pages.get? number = some page → page.Usable ∧
    ∃ first walk, layout.firstBlock number = .ok first ∧
      PageWalk layout.blocks.get? number page ⟨none, false, page.base⟩ (some first) walk ∧
      (walk.map Prod.fst).Nodup ∧
      ∀ index block, (index, block) ∈ walk ↔
        layout.blocks.get? index = some block ∧ block.page = number
  pages_apart : ∀ first second firstPage secondPage, layout.pages.get? first = some firstPage →
    layout.pages.get? second = some secondPage → first ≠ second →
    Disjoint (Set.Ico firstPage.base (firstPage.base + firstPage.size))
      (Set.Ico secondPage.base (secondPage.base + secondPage.size))
  page : ∀ index block, layout.blocks.get? index = some block →
    ∃ page, layout.pages.get? block.page = some page
  inner : ∀ index block, layout.blocks.get? index = some block → block.isSentinel = false →
    minBlockSize ≤ block.size ∧ block.size % blockAlign = 0
  sentinel : ∀ index block, layout.blocks.get? index = some block →
    (block.isSentinel = true ↔ block.next = none) ∧ (block.isSentinel = true → block.isFree = false)
  next : ∀ index block next, layout.blocks.get? index = some block → block.next = some next →
    ∃ after, layout.blocks.get? next = some after ∧ after.prev = some index
  prev : ∀ index block prev, layout.blocks.get? index = some block → block.prev = some prev →
    ∃ before, layout.blocks.get? prev = some before ∧ before.next = some index ∧
      block.isPrevFree = before.isFree ∧ ¬ (before.isFree = true ∧ block.isFree = true)
  first : ∀ index block, layout.blocks.get? index = some block → block.prev = none →
    block.isPrevFree = false
  listed : ∀ index block, layout.blocks.get? index = some block → block.isFree = true →
    (SizeClass.ofSize block.size).InRange
  members : ∀ sizeClass : SizeClass, sizeClass.InRange → ∃ members slots,
    layout.lists.members sizeClass = .ok members ∧ members.Nodup ∧
    (∀ index, index ∈ members ↔ ∃ block, layout.blocks.get? index = some block ∧
      block.isFree = true ∧ SizeClass.ofSize block.size = sizeClass) ∧
    layout.lists.slotsOf sizeClass.level = .ok slots ∧
    (slots.has sizeClass.slot = true ↔ members ≠ [])
  levels : ∀ level < levelCount, ∃ slots, layout.lists.slotsOf level = .ok slots ∧
    (layout.lists.levels.has level = true ↔ ∃ slot, slots.has slot = true) ∧
    ∀ slot, slots.has slot = true → slot < slotCount
  levels_lt : ∀ level, layout.lists.levels.has level = true → level < levelCount
  total : layout.total = (layout.pages.toList.map fun entry ↦ entry.2.size).sum
  free : layout.free = (layout.blocks.toList.map fun entry ↦
    if entry.2.isFree then entry.2.size else 0).sum
  freePages : layout.freePages = layout.pagesFree.ncard

variable {layout : Layout}

namespace Settled

variable (hsettled : layout.Settled)

include hsettled

theorem prev_none_of_size_eq {index : Nat} {block : Block} {page : Page}
    (hblock : layout.blocks.get? index = some block)
    (hpage : layout.pages.get? block.page = some page) (hsize : block.size = page.size) :
    block.prev = none := by
  have htiled := hsettled.shaped.tiled
  by_contra hprev
  obtain ⟨prev, hprev⟩ := Option.ne_none_iff_exists'.mp hprev
  obtain ⟨before, hbefore, -, hsame, hend, -, hmin⟩ := htiled.before hblock hprev
  have hwithin := htiled.within hblock hpage
  have hwithinBefore := htiled.within hbefore (hsame ▸ hpage)
  rw [minBlockSize_eq] at hmin
  omega

/-- A page that is one free block has one block that covers it. -/
theorem ncard_pagesFree : layout.pagesFree.ncard = layout.freePages := by
  have htiled := hsettled.shaped.tiled
  let pageOf : Nat → Nat := fun index ↦ (layout.blocks.get? index).elim 0 Block.page
  have himage : layout.pagesFree = pageOf '' spanning layout.blocks.get? layout.pages.get? := by
    ext number
    constructor
    · rintro ⟨page, index, block, hpage, hblock, rfl, hfree, hsize⟩
      have hprev := hsettled.prev_none_of_size_eq hblock hpage hsize
      refine ⟨index, ⟨block, page, hblock, hfree, hprev, hpage, hsize⟩, ?_⟩
      simp only [pageOf, hblock, Option.elim_some]
    · rintro ⟨index, ⟨block, page, hblock, hfree, -, hpage, hsize⟩, rfl⟩
      simp only [pageOf, hblock, Option.elim_some]
      exact ⟨page, index, block, hpage, hblock, rfl, hfree, hsize⟩
  have hinj : Set.InjOn pageOf (spanning layout.blocks.get? layout.pages.get?) := by
    rintro first ⟨block, page, hblock, -, -, hpage, hsize⟩ second
      ⟨other, -, hother, hotherFree, -, -, -⟩ hsame
    simp only [pageOf, hblock, hother, Option.elim_some] at hsame
    obtain hsecond | hsecond := htiled.eq_or_eq_sentinel hblock hpage hsize hother hsame.symm
    · exact hsecond.symm
    · obtain ⟨last, hlast, -, hnone⟩ := htiled.sentinel _ page hpage
      obtain rfl : last = other := Option.some.inj (hlast.symm.trans (hsecond ▸ hother))
      rw [(htiled.last _ last hlast hnone).2.1] at hotherFree
      exact absurd hotherFree (by decide)
  rw [himage, hinj.ncard_image, ← hsettled.shaped.free_pages, Set.sdiff_empty]

theorem wellFormed : layout.WellFormed := by
  have htiled := hsettled.shaped.tiled
  have hsorted := hsettled.shaped.sorted
  obtain ⟨members, hmembers⟩ := hsettled.exists_members
  refine
    { pages       := fun number page hpage ↦ ?_
      pages_apart := fun first second firstPage secondPage hfirst hsecond hne ↦ ?_
      page        := fun index block hblock ↦ ?_
      inner       := fun index block hblock hsentinel ↦ ?_
      sentinel    := fun index block hblock ↦ ?_
      next        := fun index block next hblock hnext ↦ ?_
      prev        := fun index block prev hblock hprev ↦ ?_
      first       := fun index block hblock hprev ↦ (htiled.first index block hblock hprev).1
      listed      := fun index block hblock _ ↦
        SizeClass.ofSize_inRange (hsettled.shaped.size_le hblock)
      members     := fun sizeClass hclass ↦ ?_
      levels      := fun level hlevel ↦ ?_
      levels_lt   := fun level hmark ↦ ?_
      total       := ?_
      free        := ?_
      freePages   := hsettled.ncard_pagesFree.symm }
  · obtain ⟨first, walk, hwalk, hmem⟩ := htiled.exists_pageWalk hpage
    exact ⟨htiled.usable number page hpage, first, walk, hsettled.firstBlock_eq hpage hwalk, hwalk,
      hwalk.nodup htiled, hmem⟩
  · have hapart := htiled.pages_apart first second firstPage secondPage hfirst hsecond hne
    rw [Set.Ico_disjoint_Ico]
    omega
  · obtain ⟨page, hpage, -⟩ := htiled.end_le index block hblock
    exact ⟨page, hpage⟩
  · obtain ⟨next, hnext⟩ := htiled.exists_next hblock (beq_eq_false_iff_ne.mp hsentinel)
    obtain ⟨hmin, hdvd⟩ := htiled.inner index block next hblock hnext
    exact ⟨hmin, Nat.mod_eq_zero_of_dvd hdvd⟩
  · have hiff : block.isSentinel = true ↔ block.next = none :=
      beq_iff_eq.trans (htiled.size_eq_zero_iff hblock)
    exact ⟨hiff, fun hsentinel ↦ (htiled.last index block hblock (hiff.mp hsentinel)).2.1⟩
  · obtain ⟨after, hafter, hprev, -⟩ := htiled.follows index block next hblock hnext
    exact ⟨after, hafter, hprev⟩
  · obtain ⟨before, hbefore, hnext, -, -, hfree, -⟩ := htiled.before hblock hprev
    refine ⟨before, hbefore, hnext, hfree.symm, fun hboth ↦ ?_⟩
    obtain hmem | ⟨other, hmem, -⟩ :=
      hsettled.apart index block hblock hboth.2 (hfree.symm.trans hboth.1)
    · exact hmem
    · exact hmem
  · obtain ⟨heq, hnodup, hmem, hmark⟩ := hmembers sizeClass hclass
    refine ⟨members sizeClass, _, heq, hnodup, hmem, hsorted.slotsOf_eq hclass.level_lt, ?_⟩
    rw [hmark, Bool.not_eq_true', ← Bool.not_eq_true, List.isEmpty_iff]
  · exact ⟨_, hsorted.slotsOf_eq hlevel, hsorted.levels_has_iff,
      fun slot hslot ↦ (hsorted.lt_of_slotsAt_has hslot).2⟩
  · obtain ⟨slot, hslot⟩ := hsorted.levels_has_iff.mp hmark
    exact (hsorted.lt_of_slotsAt_has hslot).1
  · exact hsettled.shaped.total_eq_sum
  · rw [← hsettled.shaped.free]
    exact Arena.sumOf_get?_eq Block.freeSize layout.blocks

end Settled

end Layout

namespace HeapRun

variable {κ ω : Type} [PageSupplier κ ω] {state : HeapState κ ω} {deeds : List HeapDeed}
  {log : List Event}

/-- A heap is well-formed after every run, and its check finds no defect. -/
theorem layout_wellFormed (hrun : HeapRun AnyWrite state deeds log) (horderly : Orderly log) :
    state.heap.layout.WellFormed ∧ state.heap.layout.verify = .ok (.ok ()) := by
  obtain ⟨config, used, hkeeps, -⟩ := hrun.exists_points horderly
  exact ⟨hkeeps.settled.wellFormed, hkeeps.settled.verify_eq⟩

/-- A heap with one block in use is well-formed, and so it is when the block is freed. -/
theorem layout_wellFormed_of_one_allocation :
    ∃ (taken freed : HeapState LinearSupplier Unit) (log : List Event),
      HeapRun AnyWrite taken [.allocate 100 (.ok 4112)] log ∧
      HeapRun AnyWrite freed [.allocate 100 (.ok 4112), .deallocate 4112 (.ok ())] log ∧
      taken.heap.layout.WellFormed ∧ freed.heap.layout.WellFormed := by
  obtain ⟨taken, freed, log, htaken, hfreed, horderly⟩ := exists_run_of_one_allocation
  exact ⟨taken, freed, log, htaken _, hfreed _, (layout_wellFormed (htaken _) horderly).1,
    (layout_wellFormed (hfreed _) horderly).1⟩

end HeapRun

end KernelMemory
