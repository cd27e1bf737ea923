import KernelMemory.Proofs.Heap.Bytes
import KernelMemory.Proofs.Heap.Steps

/-!
# The shape of a layout

What holds of a layout at every step, also in the middle of an allocation (`Layout.Shaped`): the
pages are tiled, the free blocks that are not loose are sorted into the lists, and the counts add
up. Between two requests no block is loose and no two neighbours are free (`Layout.Settled`).

Every step of a layout keeps its shape. What a step does to the blocks in use is told by the edit
it is.
-/

set_option autoImplicit false
set_option relaxedAutoImplicit false

namespace KernelMemory

namespace Layout

/-- The blocks tile the pages, just the free blocks that are not loose are listed, and the bytes of
all blocks, of the free ones and the number of listed pages are as given. -/
structure Shaped (layout : Layout) (loose : Set Nat) (free freePages : Nat) : Prop where
  blocks : layout.blocks.Sound
  pages : layout.pages.Sound
  tiled : Tiled layout.blocks.get? layout.pages.get?
  sorted : layout.lists.Sorted (freeBlocks layout.blocks.get? loose)
  total : sumOf Block.size layout.blocks.get? = layout.total
  page_total : sumOf Page.size layout.pages.get? = layout.total
  free : sumOf Block.freeSize layout.blocks.get? = free
  free_pages : (spanning layout.blocks.get? layout.pages.get? \ loose).ncard = freePages

/-- The layout is as it should be between two requests. -/
structure Settled (layout : Layout) : Prop where
  shaped : layout.Shaped ∅ layout.free layout.freePages
  apart : Apart layout.blocks.get? ∅

theorem spanning_subset (blocks : Nat → Option Block) (pages : Nat → Option Page) :
    spanning blocks pages ⊆ indices blocks := by
  rintro index ⟨block, -, hblock, -⟩ hnone
  rw [hblock] at hnone
  exact absurd hnone (by simp)

theorem finite_spanning (layout : Layout) :
    (spanning layout.blocks.get? layout.pages.get?).Finite :=
  (Arena.indices_finite layout.blocks).subset (spanning_subset _ _)

/-- A member counts once more when it is not left out. -/
theorem ncard_sdiff_insert {set loose : Set Nat} (hset : set.Finite) {index : Nat}
    (hloose : index ∉ loose) {member : Bool} (hmember : member = true ↔ index ∈ set) :
    (set \ loose).ncard = (set \ insert index loose).ncard + member.toNat := by
  have hdiff : set \ insert index loose = (set \ loose) \ {index} := by
    ext other
    simp only [Set.mem_sdiff, Set.mem_insert_iff, Set.mem_singleton_iff]
    tauto
  rw [hdiff]
  cases member with
  | false =>
    have hnotMem : index ∉ set \ loose := fun hmem ↦ absurd (hmember.mpr hmem.1) (by decide)
    rw [Set.sdiff_singleton_eq_self hnotMem]
    rfl
  | true =>
    have hmem : index ∈ set \ loose := ⟨hmember.mp rfl, hloose⟩
    exact (Set.ncard_sdiff_singleton_add_one hmem hset.sdiff).symm

theorem sdiff_insert_of_notMem {set loose : Set Nat} {index : Nat} (hnotMem : index ∉ set) :
    set \ insert index loose = set \ loose := by
  ext other
  simp only [Set.mem_sdiff, Set.mem_insert_iff]
  grind

theorem exists_of_mem_freeBlocks {blocks : Nat → Option Block} {loose : Set Nat} {index size : Nat}
    (hmem : (index, size) ∈ freeBlocks blocks loose) : ∃ block, blocks index = some block := by
  obtain ⟨-, block, hblock, -⟩ := hmem
  exact ⟨block, hblock⟩

theorem freeBlocks_insert {blocks : Nat → Option Block} {index : Nat} {block : Block}
    (hblock : blocks index = some block) (loose : Set Nat) :
    freeBlocks blocks (insert index loose) = freeBlocks blocks loose \ {(index, block.size)} := by
  ext ⟨other, size⟩
  simp only [freeBlocks, Set.mem_sdiff, Set.mem_ofPred_eq, Set.mem_singleton_iff, Prod.mk.injEq,
    Set.mem_insert_iff]
  grind

namespace Shaped

variable {layout : Layout} {loose : Set Nat} {free freePages : Nat} {index next : Nat}
  {block after : Block} (hshaped : layout.Shaped loose free freePages)

include hshaped

theorem size_le (hblock : layout.blocks.get? index = some block) : block.size ≤ maxBlockSize := by
  obtain ⟨page, hpage, hend⟩ := hshaped.tiled.end_le index block hblock
  have hwithin := hshaped.tiled.within hblock hpage
  have hsize := (hshaped.tiled.usable _ _ hpage).size_le
  omega

theorem end_lt (hblock : layout.blocks.get? index = some block) :
    block.address + block.size < Word.limit := by
  obtain ⟨page, hpage, hend⟩ := hshaped.tiled.end_le index block hblock
  exact hend.trans_lt (hshaped.tiled.usable _ _ hpage).end_lt

/-- The counts of a layout are its own affair. -/
theorem with_counts (ownFree ownFreePages : Nat) :
    Shaped { layout with free := ownFree, freePages := ownFreePages } loose free freePages :=
  ⟨hshaped.blocks, hshaped.pages, hshaped.tiled, hshaped.sorted, hshaped.total, hshaped.page_total,
    hshaped.free, hshaped.free_pages⟩

theorem free_le : free ≤ layout.total := by
  rw [← hshaped.total, ← hshaped.free]
  exact sumOf_le_sumOf (Arena.indices_finite layout.blocks) Block.freeSize_le

/-- Every free page has free bytes. -/
theorem freePages_le : freePages ≤ free := by
  rw [← hshaped.free_pages, ← hshaped.free]
  refine ncard_le_sumOf (Arena.indices_finite layout.blocks) fun index hindex ↦ ?_
  obtain ⟨⟨block, page, hblock, hfree, -, hpage, hsize⟩, -⟩ := hindex
  have hmin := (hshaped.tiled.usable _ _ hpage).min_le
  refine ⟨block, hblock, ?_⟩
  rw [Block.freeSize, if_pos hfree, hsize]
  exact (by decide : 0 < minBlockSize).trans_le hmin

theorem total_lt : layout.total < Word.limit := by
  rw [← hshaped.page_total]
  exact sumOf_pages_lt (Arena.indices_finite layout.pages) hshaped.tiled.usable
    hshaped.tiled.pages_apart

theorem total_eq_sum :
    layout.total = (layout.pages.toList.map fun entry ↦ entry.2.size).sum := by
  rw [← hshaped.page_total, Arena.sumOf_get?_eq]

/-- Whether a free block spans its page can be asked. -/
theorem spansPage_eq (hblock : layout.blocks.get? index = some block)
    (hfree : block.isFree = true) : ∃ spans, layout.spansPage index = .ok spans ∧
      (spans = true ↔ index ∈ spanning layout.blocks.get? layout.pages.get?) := by
  obtain ⟨page, hpage, -⟩ := hshaped.tiled.end_le index block hblock
  have hmem : index ∈ spanning layout.blocks.get? layout.pages.get? ↔
      block.prev = none ∧ block.size = page.size := by
    simp only [spanning, Set.mem_ofPred_eq, hblock, Option.some.injEq, exists_and_left,
      exists_eq_left', hfree, true_and, hpage]
  cases hprev : block.prev with
  | none =>
    refine ⟨block.size == page.size, ?_, ?_⟩
    · simp only [spansPage, block_eq hblock, ok_bind, hprev, Option.isSome_none, Bool.false_eq_true,
        if_false, page_eq hpage, pure_eq_ok]
    · rw [hmem, beq_iff_eq, hprev]
      exact (and_iff_right rfl).symm
  | some prev =>
    refine ⟨false, ?_, ?_⟩
    · simp only [spansPage, block_eq hblock, ok_bind, hprev, Option.isSome_some, if_true,
        pure_eq_ok]
    · rw [hmem, hprev]
      simp

/-- The first of two free neighbours does not span its page. -/
theorem spansPage_of_joinable {gone last : Nat} {goneBlock lastBlock : Block}
    (hjoin : Joinable layout.blocks.get? index block gone goneBlock last lastBlock) :
    layout.spansPage index = .ok false := by
  obtain ⟨spans, hspans, hmember⟩ := hshaped.spansPage_eq hjoin.left.block_eq hjoin.isFree
  obtain rfl : spans = false := by
    rw [Bool.eq_false_iff]
    exact fun hspan ↦ hjoin.notMem_spanning hshaped.tiled (hmember.mp hspan)
  exact hspans

/-- A free block that is on its list can be taken off it. -/
theorem delist (hblock : layout.blocks.get? index = some block) (hfree : block.isFree = true)
    (hloose : index ∉ loose) {spans : Bool} (hspans : layout.spansPage index = .ok spans) :
    ∃ lists rest, layout.delist index = .ok { layout with lists } ∧
      freePages = rest + spans.toNat ∧
      Shaped { layout with lists } (insert index loose) free rest := by
  obtain ⟨lists, hdelist, hsorted⟩ :=
    delist_eq hshaped.sorted (fun _ _ ↦ exists_of_mem_freeBlocks) hblock
      ⟨hloose, block, hblock, hfree, rfl⟩
  obtain ⟨other, hother, hmember⟩ := hshaped.spansPage_eq hblock hfree
  obtain rfl : other = spans := Except.ok.inj (hother.symm.trans hspans)
  refine ⟨lists, _, hdelist, ?_, hshaped.blocks, hshaped.pages, hshaped.tiled, ?_, hshaped.total,
    hshaped.page_total, hshaped.free, rfl⟩
  · rw [← hshaped.free_pages]
    exact ncard_sdiff_insert (finite_spanning layout) hloose hmember
  · rw [freeBlocks_insert hblock]
    exact hsorted

omit hshaped in
/-- A loose block can be put on its list. -/
theorem enlist (hshaped : layout.Shaped (insert index loose) free freePages)
    (hblock : layout.blocks.get? index = some block) (hfree : block.isFree = true)
    (hloose : index ∉ loose) {spans : Bool} (hspans : layout.spansPage index = .ok spans) :
    ∃ lists, layout.enlist index = .ok { layout with lists } ∧
      Shaped { layout with lists } loose free (freePages + spans.toNat) := by
  have hmem : (index, block.size) ∈ freeBlocks layout.blocks.get? loose :=
    ⟨hloose, block, hblock, hfree, rfl⟩
  have hnone : ∀ size, (index, size) ∉ freeBlocks layout.blocks.get? (insert index loose) :=
    fun size hsize ↦ hsize.1 (Set.mem_insert _ _)
  obtain ⟨lists, henlist, hsorted⟩ :=
    enlist_eq hshaped.sorted (fun _ _ ↦ exists_of_mem_freeBlocks) hblock hnone
      (hshaped.size_le hblock)
  obtain ⟨other, hother, hmember⟩ := hshaped.spansPage_eq hblock hfree
  obtain rfl : other = spans := Except.ok.inj (hother.symm.trans hspans)
  refine ⟨lists, henlist, hshaped.blocks, hshaped.pages, hshaped.tiled, ?_, hshaped.total,
    hshaped.page_total, hshaped.free, ?_⟩
  · rw [freeBlocks_insert hblock, Set.insert_sdiff_singleton, Set.insert_eq_of_mem hmem] at hsorted
    exact hsorted
  · rw [← hshaped.free_pages]
    exact ncard_sdiff_insert (finite_spanning layout) hloose hmember

/-- A block in use can be made free; it is loose then. -/
theorem setFree_true (hpair : Neighbours layout.blocks.get? index block next after)
    (hused : block.isFree = false) :
    ∃ blocks, layout.setFree index true = .ok { layout with blocks } ∧
      blocks.get? = freeAt layout.blocks.get? index block true ∧
      Shaped { layout with blocks } (insert index loose) (free + block.size) freePages := by
  obtain ⟨upcoming, hawaits⟩ := hshaped.blocks.exists_awaits
  obtain ⟨blocks, hset, hget, hafter⟩ := setFree_eq hawaits hshaped.tiled hpair true
  have hfinite := Arena.indices_finite layout.blocks
  have hnotFree : (index, block.size) ∉ freeBlocks layout.blocks.get? loose := by
    rintro ⟨-, other, hother, hfree, -⟩
    obtain rfl : other = block := Option.some.inj (hother.symm.trans hpair.block_eq)
    exact absurd (hused.symm.trans hfree) (by decide)
  have hnotSpanning : index ∉ spanning layout.blocks.get? layout.pages.get? := by
    rintro ⟨other, -, hother, hfree, -⟩
    obtain rfl : other = block := Option.some.inj (hother.symm.trans hpair.block_eq)
    exact absurd (hused.symm.trans hfree) (by decide)
  refine ⟨blocks, hset, hget, ⟨hafter.sound, hshaped.pages, ?_, ?_, ?_, hshaped.page_total,
    ?_, ?_⟩⟩
  · rw [hget]
    exact hshaped.tiled.freeAt hpair true
  · rw [hget, freeBlocks_freeAt hshaped.tiled hpair, freeBlocks_insert hpair.block_eq,
      Set.sdiff_singleton_eq_self hnotFree]
    exact hshaped.sorted
  · rw [hget]
    have hsum := sumOf_freeAt hfinite weighs_size hshaped.tiled hpair true
    exact (Nat.add_right_cancel hsum).trans hshaped.total
  · rw [hget, ← hshaped.free]
    have hsum := sumOf_freeAt hfinite weighs_freeSize hshaped.tiled hpair true
    simpa only [Block.freeSize, hused, Bool.false_eq_true, if_false, if_true, Nat.add_zero]
      using hsum
  · rw [hget, spanning_freeAt hshaped.tiled hpair, sdiff_insert_of_notMem hnotSpanning]
    exact hshaped.free_pages

/-- A loose block can be taken into use. -/
theorem setFree_false (hpair : Neighbours layout.blocks.get? index block next after)
    (hfree : block.isFree = true) (hloose : loose = insert index ∅) :
    ∃ blocks, layout.setFree index false = .ok { layout with blocks } ∧
      blocks.get? = freeAt layout.blocks.get? index block false ∧
      ∃ rest, free = rest + block.size ∧ Shaped { layout with blocks } ∅ rest freePages := by
  subst hloose
  obtain ⟨upcoming, hawaits⟩ := hshaped.blocks.exists_awaits
  obtain ⟨blocks, hset, hget, hafter⟩ := setFree_eq hawaits hshaped.tiled hpair false
  have hfinite := Arena.indices_finite layout.blocks
  have hindex : blocks.get? index = some { block with isFree := false } := by
    rw [hget, freeAt_apply hshaped.tiled hpair, if_pos rfl]
  have hused : ∀ other, blocks.get? index = some other → other.isFree = false := by
    intro other hother
    rw [← Option.some.inj (hindex.symm.trans hother)]
  have hnotFree : ∀ size, (index, size) ∉ freeBlocks blocks.get? ∅ := by
    rintro size ⟨-, other, hother, hotherFree, -⟩
    exact absurd ((hused other hother).symm.trans hotherFree) (by decide)
  have hnotSpanning : index ∉ spanning blocks.get? layout.pages.get? := by
    rintro ⟨other, -, hother, hotherFree, -⟩
    exact absurd ((hused other hother).symm.trans hotherFree) (by decide)
  have hsum := sumOf_freeAt hfinite weighs_freeSize hshaped.tiled hpair false
  simp only [Block.freeSize, hfree, Bool.false_eq_true, if_false, if_true, Nat.add_zero] at hsum
  refine ⟨blocks, hset, hget, _, (hshaped.free.symm.trans hsum.symm), hafter.sound, hshaped.pages,
    ?_, ?_, ?_, hshaped.page_total, by rw [hget], ?_⟩
  · rw [hget]
    exact hshaped.tiled.freeAt hpair false
  · have hsame := freeBlocks_insert hindex ∅
    rw [Set.sdiff_singleton_eq_self (hnotFree _)] at hsame
    rw [← hsame, hget, freeBlocks_freeAt hshaped.tiled hpair]
    exact hshaped.sorted
  · rw [hget]
    have hsize := sumOf_freeAt hfinite weighs_size hshaped.tiled hpair false
    exact (Nat.add_right_cancel hsize).trans hshaped.total
  · rw [← sdiff_insert_of_notMem hnotSpanning, hget, spanning_freeAt hshaped.tiled hpair]
    exact hshaped.free_pages

/-- A loose block can be cut; both parts are loose. -/
theorem split (hpair : Neighbours layout.blocks.get? index block next after)
    (hfree : block.isFree = true) (hloose : index ∈ loose) {offset : Nat}
    (hmin : minBlockSize ≤ offset) (hroom : minBlockSize + offset ≤ block.size)
    (hdvd : blockAlign ∣ offset) :
    ∃ rest blocks, layout.split index offset = .ok (rest, { layout with blocks }) ∧
      Cuttable layout.blocks.get? block rest offset ∧
      blocks.get? = cutAt layout.blocks.get? index block rest offset ∧
      Shaped { layout with blocks } (insert rest loose) free freePages := by
  obtain ⟨upcoming, hawaits⟩ := hshaped.blocks.exists_awaits
  obtain ⟨blocks, hsplit, hnone, hget, hafter⟩ := split_eq hawaits hshaped.tiled hpair hfree hmin
    hroom (hshaped.end_lt hpair.block_eq)
  generalize upcoming.head = rest at *
  have hcut : Cuttable layout.blocks.get? block rest offset := ⟨hfree, hnone, hmin, hroom, hdvd⟩
  have hfinite := Arena.indices_finite layout.blocks
  refine ⟨rest, blocks, hsplit, hcut, hget, hafter.sound, hshaped.pages, ?_, ?_, ?_,
    hshaped.page_total, ?_, ?_⟩
  · rw [hget]
    exact hshaped.tiled.cutAt hpair hcut
  · rw [hget, freeBlocks_cutAt hshaped.tiled hpair hcut hloose]
    exact hshaped.sorted
  · have hsum := sumOf_cutAt hfinite weighs_size hshaped.tiled hpair hcut
    rw [hget, ← hshaped.total]
    simp only at hsum
    omega
  · have hsum := sumOf_cutAt hfinite weighs_freeSize hshaped.tiled hpair hcut
    rw [hget, ← hshaped.free]
    simp only [Block.freeSize, hfree, if_true] at hsum
    omega
  · rw [hget, spanning_cutAt hshaped.tiled hpair hcut hloose]
    exact hshaped.free_pages

/-- Two loose neighbours can be joined. -/
theorem absorb {gone last : Nat} {goneBlock lastBlock : Block}
    (hjoin : Joinable layout.blocks.get? index block gone goneBlock last lastBlock)
    (hloose : loose = {index, gone}) :
    ∃ blocks, layout.absorb index gone = .ok { layout with blocks } ∧
      blocks.get? = joinAt layout.blocks.get? index block gone goneBlock ∧
      Shaped { layout with blocks } {index} free freePages := by
  subst hloose
  have hend := hshaped.end_lt hjoin.right.block_eq
  obtain ⟨other, hother, -, -, haddress, -⟩ :=
    hshaped.tiled.follows _ _ _ hjoin.left.block_eq hjoin.left.next_eq
  obtain rfl : other = goneBlock := Option.some.inj (hother.symm.trans hjoin.left.after_eq)
  obtain ⟨upcoming, hawaits⟩ := hshaped.blocks.exists_awaits
  obtain ⟨blocks, habsorb, hget, hafter⟩ := absorb_eq hawaits hshaped.tiled hjoin (by omega)
  have hfinite := Arena.indices_finite layout.blocks
  refine ⟨blocks, habsorb, hget, hafter.sound, hshaped.pages, ?_, ?_, ?_, hshaped.page_total,
    ?_, ?_⟩
  · rw [hget]
    exact hshaped.tiled.joinAt hjoin
  · rw [hget, freeBlocks_joinAt hshaped.tiled hjoin]
    exact hshaped.sorted
  · have hsum := sumOf_joinAt hfinite weighs_size hshaped.tiled hjoin
    rw [hget, ← hshaped.total]
    simp only at hsum
    omega
  · have hsum := sumOf_joinAt hfinite weighs_freeSize hshaped.tiled hjoin
    rw [hget, ← hshaped.free]
    simp only [Block.freeSize, hjoin.isFree, hjoin.gone_isFree, if_true] at hsum
    omega
  · rw [hget, spanning_joinAt hshaped.tiled hjoin]
    exact hshaped.free_pages

end Shaped

end Layout

end KernelMemory
