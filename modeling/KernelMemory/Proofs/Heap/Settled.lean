import KernelMemory.Proofs.Heap.Shape

/-!
# Settled layouts

The layout without pages is settled, and it stays so when a page is added or one that is a single
free block is dropped. Neither touches a block in use. A free block that a search finds is large
enough.
-/

set_option autoImplicit false
set_option relaxedAutoImplicit false

namespace KernelMemory

namespace Layout

theorem settled_empty : Settled {} where
  shaped :=
    { blocks := ⟨[], Arena.chained_empty⟩
      pages := ⟨[], Arena.chained_empty⟩
      tiled := by
        show Tiled (fun _ ↦ none) fun _ ↦ none
        constructor <;> simp
      sorted := by
        have hnone : freeBlocks (fun _ ↦ none) ∅ = ∅ := by
          ext free
          simp [freeBlocks]
        show FreeLists.Sorted .empty (freeBlocks (fun _ ↦ none) ∅)
        rw [hnone]
        exact FreeLists.sorted_empty
      total := sumOf_empty
      page_total := sumOf_empty
      free := sumOf_empty
      free_pages := by
        have hnone : spanning (fun _ ↦ none) (fun _ ↦ none) = ∅ := by
          ext index
          simp [spanning]
        show (spanning (fun _ ↦ none) (fun _ ↦ none) \ ∅).ncard = 0
        rw [hnone, Set.empty_sdiff, Set.ncard_empty] }
  apart := by
    show Apart (fun _ ↦ none) ∅
    unfold Apart
    simp

/-- There is one page more, which has the given size and is one free block. All other free blocks
were there before. -/
structure Grows (layout after : Layout) (size : Nat) : Prop where
  freePages : after.freePages = layout.freePages + 1
  pages : ∀ number page, after.pages.get? number = some page →
    layout.pages.get? number = some page ∨ page.size = size
  fresh : ∃ index block, after.blocks.get? index = some block ∧ block.isFree = true ∧
    block.size = size
  free : ∀ index block, after.blocks.get? index = some block → block.isFree = true →
    layout.blocks.get? index = some block ∨ index ∈ spanning after.blocks.get? after.pages.get?

/-! ### What a page brings and takes -/

section Pages

variable {layout : Layout} {number first free freePages : Nat} {block : Block} {page : Page}
  {blocks : Arena Block} {pages : Arena Page}

/-- The free block of a new page is loose. -/
theorem Shaped.addPage (hshaped : layout.Shaped ∅ free freePages)
    (hpage : Addable layout.blocks.get? layout.pages.get? number first page)
    (hblocks : blocks.get? = blocksWith layout.blocks.get? number first page)
    (hpages : pages.get? = pagesWith layout.pages.get? number page) (hblocksSound : blocks.Sound)
    (hpagesSound : pages.Sound) (ownFree ownFreePages : Nat) :
    Shaped { layout with
      blocks, pages, total := layout.total + page.size, free := ownFree, freePages := ownFreePages }
      {first} (free + page.size) freePages := by
  have hfinite := Arena.indices_finite layout.blocks
  refine ⟨hblocksSound, hpagesSound, ?_, ?_, ?_, ?_, ?_, ?_⟩
  · show Tiled blocks.get? pages.get?
    rw [hblocks, hpages]
    exact hshaped.tiled.addPage hpage
  · show layout.lists.Sorted (freeBlocks blocks.get? {first})
    rw [hblocks, freeBlocks_addPage hpage]
    exact hshaped.sorted
  · show sumOf Block.size blocks.get? = layout.total + page.size
    obtain ⟨block, -, hsize, hsum⟩ := sumOf_addPage hfinite weighs_size hpage
    rw [hblocks, hsum, hsize, hshaped.total]
  · show sumOf Page.size pages.get? = layout.total + page.size
    rw [hpages, pagesWith, sumOf_insert (Arena.indices_finite layout.pages) hpage.number_none,
      hshaped.page_total]
  · show sumOf Block.freeSize blocks.get? = free + page.size
    obtain ⟨block, hfree, hsize, hsum⟩ := sumOf_addPage hfinite weighs_freeSize hpage
    rw [hblocks, hsum, Block.freeSize, if_pos hfree, hsize, hshaped.free]
  · show (spanning blocks.get? pages.get? \ {first}).ncard = freePages
    have hnotMem : first ∉ spanning layout.blocks.get? layout.pages.get? := fun hmem ↦
      spanning_subset _ _ hmem hpage.first_none
    rw [hblocks, hpages, spanning_addPage hshaped.tiled hpage,
      Set.insert_sdiff_self_of_notMem hnotMem, ← hshaped.free_pages, Set.sdiff_empty]

/-- The free block of a new page is the only one that was not there before. -/
theorem Grows.of_blocksWith {after : Layout}
    (htiled : Tiled layout.blocks.get? layout.pages.get?)
    (hpage : Addable layout.blocks.get? layout.pages.get? number first page)
    (hblocks : after.blocks.get? = blocksWith layout.blocks.get? number first page)
    (hpages : after.pages.get? = pagesWith layout.pages.get? number page)
    (hfreePages : after.freePages = layout.freePages + 1) : layout.Grows after page.size where
  freePages := hfreePages
  pages := by
    intro other otherPage hother
    rw [hpages, pagesWith, Function.update_apply] at hother
    split_ifs at hother with hsame
    · exact .inr (congrArg Page.size (Option.some.inj hother).symm)
    · exact .inl hother
  fresh := by
    have hblock := congrFun hblocks first
    rw [blocksWith, if_neg hpage.ne, if_pos rfl] at hblock
    exact ⟨first, _, hblock, rfl, rfl⟩
  free := by
    intro index block hblock hfree
    by_cases hsame : index = first
    · right
      rw [hsame, hblocks, hpages, spanning_addPage htiled hpage]
      exact Set.mem_insert _ _
    · left
      rw [hblocks, blocksWith, if_neg hsame] at hblock
      split_ifs at hblock
      · obtain rfl := Option.some.inj hblock
        cases hfree
      · exact hblock

/-- A page goes with its loose block. -/
theorem Shaped.dropPage (hshaped : layout.Shaped {first} free freePages)
    (hdrop : Droppable layout.blocks.get? layout.pages.get? first block page)
    (hblocks : blocks.get? = blocksWithout layout.blocks.get? first page.sentinel)
    (hpages : pages.get? = pagesWithout layout.pages.get? block.page) (hblocksSound : blocks.Sound)
    (hpagesSound : pages.Sound) (ownFree ownFreePages : Nat) :
    Shaped { layout with
      blocks, pages, total := layout.total - page.size, free := ownFree, freePages := ownFreePages }
      ∅ (free - page.size) freePages := by
  have hfinite := Arena.indices_finite layout.blocks
  refine ⟨hblocksSound, hpagesSound, ?_, ?_, ?_, ?_, ?_, ?_⟩
  · show Tiled blocks.get? pages.get?
    rw [hblocks, hpages]
    exact hshaped.tiled.dropPage hdrop
  · show layout.lists.Sorted (freeBlocks blocks.get? ∅)
    rw [hblocks, freeBlocks_dropPage hshaped.tiled hdrop]
    exact hshaped.sorted
  · show sumOf Block.size blocks.get? = layout.total - page.size
    have hsum := sumOf_dropPage hfinite weighs_size hshaped.tiled hdrop
    rw [hshaped.total, hdrop.size_eq] at hsum
    rw [hblocks, ← hsum, Nat.add_sub_cancel]
  · show sumOf Page.size pages.get? = layout.total - page.size
    have hsum := @sumOf_erase _ Page.size _ _ (Arena.indices_finite layout.pages) _ hdrop.page_eq
    rw [hshaped.page_total] at hsum
    rw [hpages, pagesWithout, ← hsum, Nat.add_sub_cancel]
  · show sumOf Block.freeSize blocks.get? = free - page.size
    have hsum := sumOf_dropPage hfinite weighs_freeSize hshaped.tiled hdrop
    rw [hshaped.free, Block.freeSize, if_pos hdrop.isFree, hdrop.size_eq] at hsum
    rw [hblocks, ← hsum, Nat.add_sub_cancel]
  · show (spanning blocks.get? pages.get? \ ∅).ncard = freePages
    rw [hblocks, hpages, spanning_dropPage hshaped.tiled hdrop, Set.sdiff_empty]
    exact hshaped.free_pages

end Pages

namespace Settled

variable {layout : Layout} (hsettled : layout.Settled)

include hsettled

/-- A search finds a free block that is large enough. -/
theorem findFree? {size index : Nat} (hsize : size ≤ maxBlockSize)
    (hfind : layout.findFree? size = .ok (some index)) :
    ∃ block, layout.blocks.get? index = some block ∧ block.isFree = true ∧ size ≤ block.size := by
  unfold Layout.findFree? at hfind
  obtain ⟨found, ⟨-, block, hblock, hfree, rfl⟩, hle⟩ := hsettled.shaped.sorted.find? hsize hfind
  exact ⟨block, hblock, hfree, hle⟩

/-- A search comes to its end if the size can be rounded up to that of a block. -/
theorem exists_findFree? {size rounded : Nat} (hround : roundUp size = .ok rounded)
    (hrounded : rounded ≤ maxBlockSize) : ∃ found, layout.findFree? size = .ok found :=
  hsettled.shaped.sorted.exists_find? hround hrounded

/-- A page apart from the others fits into what memory they leave. -/
theorem total_add_lt {base size : Nat} (husable : Page.Usable ⟨base, size, 0⟩)
    (hapart : ∀ number page, layout.pages.get? number = some page →
      base + size ≤ page.base ∨ page.base + page.size ≤ base) :
    layout.total + size < Word.limit := by
  have hfinite := Arena.indices_finite layout.pages
  obtain ⟨number, hnumber⟩ := hfinite.exists_notMem
  have hnone : layout.pages.get? number = none := not_not.mp hnumber
  have hpages := hsettled.shaped.tiled.usable
  have hpagesApart := hsettled.shaped.tiled.pages_apart
  have hlt : sumOf Page.size (pagesWith layout.pages.get? number ⟨base, size, 0⟩) < Word.limit := by
    unfold pagesWith
    refine sumOf_pages_lt (indices_update_finite hfinite _) ?_ ?_
    · grind
    · grind
  rwa [pagesWith, sumOf_insert hfinite hnone, hsettled.shaped.page_total] at hlt

/-- So there are not as many free pages as there are words. -/
theorem freePages_add_one_lt {base size : Nat} (husable : Page.Usable ⟨base, size, 0⟩)
    (hapart : ∀ number page, layout.pages.get? number = some page →
      base + size ≤ page.base ∨ page.base + page.size ≤ base) :
    layout.freePages + 1 < Word.limit := by
  have htotal := hsettled.total_add_lt husable hapart
  have hle := hsettled.shaped.freePages_le
  have hfree := hsettled.shaped.free_le
  have hmin : 32 ≤ size := husable.min_le
  omega

/-- A page can be added at a place that no other page has. -/
theorem addPage {base size : Nat} (husable : Page.Usable ⟨base, size, 0⟩)
    (hapart : ∀ number page, layout.pages.get? number = some page →
      base + size ≤ page.base ∨ page.base + page.size ≤ base) :
    ∃ number page after, layout.addPage base size = .ok after ∧ after.Settled ∧
      usedBlocks after.blocks.get? = usedBlocks layout.blocks.get? ∧
      after.pages.get? = pagesWith layout.pages.get? number page ∧
      layout.pages.get? number = none ∧ page.base = base ∧ page.size = size ∧
      layout.Grows after size := by
  have htotal := hsettled.total_add_lt husable hapart
  have hcount := hsettled.freePages_add_one_lt husable hapart
  obtain ⟨hshaped, hspread⟩ := hsettled
  obtain ⟨number, first, sentinel, blocks, pages, haddPage, hnumber, hfirst, hsentinel, hne,
    hblocks, hpages, hblocksSound, hpagesSound⟩ :=
    addPage_eq hshaped.blocks hshaped.pages husable.end_lt htotal
      ((Nat.add_le_add_right hshaped.free_le size).trans_lt htotal) hcount
  have hadd : Addable layout.blocks.get? layout.pages.get? number first ⟨base, size, sentinel⟩ :=
    { number_none := hnumber
      first_none := hfirst
      sentinel_none := hsentinel
      ne := hne
      usable := ⟨husable.base_pos, husable.base_dvd, husable.min_le, husable.size_dvd,
        husable.size_le, husable.end_lt⟩
      apart := hapart }
  have hloose := hshaped.addPage hadd hblocks hpages hblocksSound hpagesSound (layout.free + size)
    (layout.freePages + 1)
  rw [← insert_empty_eq] at hloose
  have hspanning : first ∈ spanning blocks.get? pages.get? := by
    rw [hblocks, hpages, spanning_addPage hshaped.tiled hadd]
    exact Set.mem_insert _ _
  obtain ⟨block, _, hblock, hfree, -⟩ := id hspanning
  obtain ⟨spans, hspans, hmember⟩ := hloose.spansPage_eq hblock hfree
  obtain rfl : spans = true := hmember.mpr hspanning
  obtain ⟨lists, henlist, hdone⟩ := hloose.enlist hblock hfree (Set.notMem_empty _) hspans
  refine ⟨number, ⟨base, size, sentinel⟩, _, haddPage.trans henlist, ⟨hdone, ?_⟩, ?_, hpages,
    hnumber, rfl, rfl, .of_blocksWith hshaped.tiled hadd hblocks hpages rfl⟩
  · show Apart blocks.get? ∅
    rw [hblocks]
    exact hspread.addPage hadd
  · show usedBlocks blocks.get? = _
    rw [hblocks]
    exact usedBlocks_addPage hadd

/-- A page that is one free block can be dropped. -/
theorem dropPage {first : Nat} {block : Block} {page : Page}
    (hdrop : Droppable layout.blocks.get? layout.pages.get? first block page) :
    ∃ after, layout.dropPage block.page = .ok (page, after) ∧ after.Settled ∧
      usedBlocks after.blocks.get? = usedBlocks layout.blocks.get? ∧
      after.pages.get? = pagesWithout layout.pages.get? block.page := by
  obtain ⟨hshaped, hspread⟩ := hsettled
  have hspanning : first ∈ spanning layout.blocks.get? layout.pages.get? :=
    ⟨block, page, hdrop.block_eq, hdrop.isFree, hdrop.prev_none, hdrop.page_eq, hdrop.size_eq⟩
  obtain ⟨spans, hspans, hmember⟩ := hshaped.spansPage_eq hdrop.block_eq hdrop.isFree
  obtain rfl : spans = true := hmember.mpr hspanning
  obtain ⟨lists, rest, hdelist, hrest, hloose⟩ :=
    hshaped.delist hdrop.block_eq hdrop.isFree (Set.notMem_empty _) hspans
  rw [insert_empty_eq] at hloose
  have hpageSize : page.size ≤ layout.total := by
    rw [← hshaped.page_total]
    exact le_sumOf (Arena.indices_finite layout.pages) hdrop.page_eq
  have hblockSize : page.size ≤ layout.free := by
    have hle := @le_sumOf _ Block.freeSize _ _ (Arena.indices_finite layout.blocks) _ hdrop.block_eq
    rwa [Block.freeSize, if_pos hdrop.isFree, hdrop.size_eq, hshaped.free] at hle
  obtain ⟨blocks, pages, hdropPage, hblocks, hpages, hblocksSound, hpagesSound⟩ :=
    dropPage_eq hshaped.blocks hshaped.pages hshaped.tiled hdrop hdelist hpageSize hblockSize
      (hrest ▸ Nat.succ_pos rest)
  have hdone := hloose.dropPage hdrop hblocks hpages hblocksSound hpagesSound
    (layout.free - page.size) (layout.freePages - 1)
  have hfreePages : layout.freePages - 1 = rest := by
    rw [hrest, Bool.toNat_true, Nat.add_sub_cancel]
  refine ⟨_, hdropPage, ⟨?_, ?_⟩, ?_, hpages⟩
  · show Shaped _ ∅ (layout.free - page.size) (layout.freePages - 1)
    rw [hfreePages] at hdone ⊢
    exact hdone
  · show Apart blocks.get? ∅
    rw [hblocks]
    exact hspread.dropPage _
  · show usedBlocks blocks.get? = _
    rw [hblocks]
    exact usedBlocks_dropPage hshaped.tiled hdrop

end Settled

end Layout

end KernelMemory
