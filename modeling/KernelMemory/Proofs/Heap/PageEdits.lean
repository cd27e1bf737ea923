import KernelMemory.Proofs.Heap.Edits

/-!
# Pages come and go

A page is added as one free block with a sentinel (`blocksWith`, `pagesWith`), and a page that is
one free block can be dropped (`blocksWithout`, `pagesWithout`). All other blocks and pages stay
as they are.
-/

set_option autoImplicit false
set_option relaxedAutoImplicit false

namespace KernelMemory

variable {blocks : Nat → Option Block} {pages : Nat → Option Page}

/-! ### A page comes -/

section With

/-- The pages and one more. -/
def pagesWith (pages : Nat → Option Page) (number : Nat) (page : Page) : Nat → Option Page :=
  Function.update pages number (some page)

/-- The blocks, and those of a new page: one free block and the sentinel. -/
def blocksWith (blocks : Nat → Option Block) (number first : Nat) (page : Page) :
    Nat → Option Block := fun other ↦
  if other = page.sentinel then
    some
      { address := page.base + page.size, size := 0, isFree := false, isPrevFree := true,
        prev := some first, next := none, page := number }
  else if other = first then
    some
      { address := page.base, size := page.size, isFree := true, isPrevFree := false, prev := none,
        next := some page.sentinel, page := number }
  else blocks other

/-- A page with unused numbers for it and its blocks, at a place that no page has. -/
structure Addable (blocks : Nat → Option Block) (pages : Nat → Option Page) (number first : Nat)
    (page : Page) : Prop where
  number_none : pages number = none
  first_none : blocks first = none
  sentinel_none : blocks page.sentinel = none
  ne : first ≠ page.sentinel
  usable : page.Usable
  apart : ∀ other otherPage, pages other = some otherPage →
    page.base + page.size ≤ otherPage.base ∨ otherPage.base + otherPage.size ≤ page.base

variable {number first : Nat} {page : Page} (htiled : Tiled blocks pages)
  (hpage : Addable blocks pages number first page)

include htiled hpage

theorem Addable.page_ne : ∀ index block, blocks index = some block → block.page ≠ number := by
  intro index block hblock heq
  obtain ⟨other, hother, -⟩ := htiled.end_le index block hblock
  rw [heq, hpage.number_none] at hother
  exact absurd hother (by simp)

theorem Tiled.addPage :
    Tiled (blocksWith blocks number first page) (pagesWith pages number page) := by
  have hpageNe := hpage.page_ne htiled
  have hmin := hpage.usable.min_le
  have hdvd := hpage.usable.size_dvd
  have happly : ∀ other, pagesWith pages number page other =
      if other = number then some page else pages other := fun other ↦ Function.update_apply ..
  have husable := hpage.usable
  obtain ⟨hnumber, hfirst, hsentinel, hne, -, hpageApart⟩ := hpage
  rw [minBlockSize_eq] at hmin
  constructor
  · have hfollows := htiled.follows
    grind [blocksWith]
  · have hprecedes := htiled.precedes
    grind [blocksWith]
  · have hfirst := htiled.first
    grind [blocksWith]
  · have hlast := htiled.last
    grind [blocksWith]
  · have hinner := htiled.inner
    have hmin := minBlockSize_eq
    grind [blocksWith]
  · have hend := htiled.end_le
    grind [blocksWith]
  · have hsentinels := htiled.sentinel
    have hnew : ∃ block, blocksWith blocks number first page page.sentinel = some block ∧
        block.page = number ∧ block.next = none := ⟨_, if_pos rfl, rfl, rfl⟩
    grind [blocksWith]
  · have husable := htiled.usable
    grind
  · have hapart := htiled.pages_apart
    grind

omit htiled in
theorem usedBlocks_addPage :
    usedBlocks (blocksWith blocks number first page) = usedBlocks blocks := by
  obtain ⟨hnumber, hfirst, hsentinel, hne, -⟩ := hpage
  ext ⟨other, address, size⟩
  simp only [usedBlocks, Set.mem_ofPred_eq, blocksWith]
  grind

omit htiled in
theorem freeBlocks_addPage :
    freeBlocks (blocksWith blocks number first page) {first} = freeBlocks blocks ∅ := by
  obtain ⟨hnumber, hfirst, hsentinel, hne, -⟩ := hpage
  ext ⟨other, size⟩
  simp only [freeBlocks, Set.mem_ofPred_eq, Set.mem_singleton_iff, Set.mem_empty_iff_false,
    blocksWith]
  grind

theorem spanning_addPage : spanning (blocksWith blocks number first page)
    (pagesWith pages number page) = insert first (spanning blocks pages) := by
  have hpageNe := hpage.page_ne htiled
  have happly : ∀ other, pagesWith pages number page other =
      if other = number then some page else pages other := fun other ↦ Function.update_apply ..
  obtain ⟨hnumber, hfirst, hsentinel, hne, -⟩ := hpage
  ext other
  simp only [spanning, Set.mem_ofPred_eq, Set.mem_insert_iff, blocksWith, happly]
  by_cases hother : other = first
  · simp [hother, hne]
  · grind

omit htiled in
theorem Apart.addPage (hapart : Apart blocks ∅) :
    Apart (blocksWith blocks number first page) ∅ := by
  obtain ⟨hnumber, hfirst, hsentinel, hne, -⟩ := hpage
  unfold Apart blocksWith at *
  grind

end With

/-! ### A page goes -/

section Without

def pagesWithout (pages : Nat → Option Page) (number : Nat) : Nat → Option Page :=
  Function.update pages number none

/-- The blocks without those of a page that is one free block. -/
def blocksWithout (blocks : Nat → Option Block) (first sentinel : Nat) : Nat → Option Block :=
  fun other ↦ if other = first ∨ other = sentinel then none else blocks other

/-- A free block that spans a page. -/
structure Droppable (blocks : Nat → Option Block) (pages : Nat → Option Page) (first : Nat)
    (block : Block) (page : Page) : Prop where
  block_eq : blocks first = some block
  isFree : block.isFree = true
  prev_none : block.prev = none
  page_eq : pages block.page = some page
  size_eq : block.size = page.size

variable {first : Nat} {block : Block} {page : Page} (htiled : Tiled blocks pages)
  (hdrop : Droppable blocks pages first block page)

include htiled hdrop

/-- The block after one that spans its page is the sentinel. -/
theorem Droppable.sentinel : first ≠ page.sentinel ∧ block.next = some page.sentinel ∧
    ∃ last, blocks page.sentinel = some last ∧ last.prev = some first ∧ last.next = none ∧
      last.isFree = false := by
  obtain ⟨hblock, hfree, -, hpage, hsize⟩ := hdrop
  obtain ⟨next, last, -, hnext, hlast⟩ :=
    htiled.neighbours hblock (htiled.size_of_isFree hblock hfree)
  obtain ⟨other, hother, hprev, hsame, -⟩ := htiled.follows first block next hblock hnext
  obtain rfl : other = last := Option.some.inj (hother.symm.trans hlast)
  have hne : next ≠ first := Neighbours.ne ⟨hblock, hnext, hlast⟩ htiled
  obtain rfl : next = page.sentinel :=
    (htiled.eq_or_eq_sentinel hblock hpage hsize hlast hsame).resolve_left hne
  obtain ⟨sentinel, hsentinel, -, hnone⟩ := htiled.sentinel _ _ hpage
  obtain rfl : sentinel = other := Option.some.inj (hsentinel.symm.trans hlast)
  exact ⟨hne.symm, hnext, sentinel, hlast, hprev, hnone, (htiled.last _ _ hlast hnone).2.1⟩

/-- The page has no other blocks. -/
theorem Droppable.only : ∀ other otherBlock, blocks other = some otherBlock →
    otherBlock.page = block.page → other = first ∨ other = page.sentinel :=
  fun _ _ hother hsame ↦
    htiled.eq_or_eq_sentinel hdrop.block_eq hdrop.page_eq hdrop.size_eq hother hsame

theorem Tiled.dropPage :
    Tiled (blocksWithout blocks first page.sentinel) (pagesWithout pages block.page) := by
  have honly := hdrop.only htiled
  have happly : ∀ other, pagesWithout pages block.page other =
      if other = block.page then none else pages other := fun other ↦ Function.update_apply ..
  have hfollows := htiled.follows
  have hprecedes := htiled.precedes
  obtain ⟨hne, hnext, last, hlast, hlastPrev, hlastNext, -⟩ := hdrop.sentinel htiled
  obtain ⟨hblock, hfree, hprev, hpage, hsize⟩ := hdrop
  constructor
  · grind [blocksWithout]
  · grind [blocksWithout]
  · have hfirst := htiled.first
    grind [blocksWithout]
  · have hlast := htiled.last
    grind [blocksWithout]
  · have hinner := htiled.inner
    grind [blocksWithout]
  · have hend := htiled.end_le
    grind [blocksWithout]
  · have hsentinel := htiled.sentinel
    grind [blocksWithout]
  · have husable := htiled.usable
    grind
  · have hapart := htiled.pages_apart
    grind

theorem usedBlocks_dropPage :
    usedBlocks (blocksWithout blocks first page.sentinel) = usedBlocks blocks := by
  obtain ⟨hne, hnext, last, hlast, -, hlastNext, -⟩ := hdrop.sentinel htiled
  have hlastSize := (htiled.last _ _ hlast hlastNext).1
  obtain ⟨hblock, hfree, -⟩ := hdrop
  ext ⟨other, address, size⟩
  simp only [usedBlocks, Set.mem_ofPred_eq, blocksWithout]
  grind

theorem freeBlocks_dropPage : freeBlocks (blocksWithout blocks first page.sentinel) ∅ =
    freeBlocks blocks {first} := by
  obtain ⟨hne, hnext, last, hlast, -, -, hlastFree⟩ := hdrop.sentinel htiled
  ext ⟨other, size⟩
  simp only [freeBlocks, Set.mem_ofPred_eq, Set.mem_singleton_iff, Set.mem_empty_iff_false,
    blocksWithout]
  grind

theorem spanning_dropPage : spanning (blocksWithout blocks first page.sentinel)
    (pagesWithout pages block.page) = spanning blocks pages \ {first} := by
  have honly := hdrop.only htiled
  have happly : ∀ other, pagesWithout pages block.page other =
      if other = block.page then none else pages other := fun other ↦ Function.update_apply ..
  obtain ⟨hne, hnext, last, hlast, -, -, hlastFree⟩ := hdrop.sentinel htiled
  ext other
  simp only [spanning, Set.mem_ofPred_eq, Set.mem_sdiff, Set.mem_singleton_iff, blocksWithout,
    happly]
  grind

omit htiled hdrop in
theorem Apart.dropPage (hapart : Apart blocks ∅) (sentinel : Nat) :
    Apart (blocksWithout blocks first sentinel) ∅ := by
  unfold Apart blocksWithout at *
  grind

end Without

end KernelMemory
