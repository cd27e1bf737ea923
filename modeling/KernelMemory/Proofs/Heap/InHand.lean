import KernelMemory.Proofs.Heap.Settled

/-!
# A free block in hand

In the middle of a request one free block is in hand (`Layout.InHand`): it is on no list and may
have free neighbours, while the rest of the layout is as it should be. It can be joined with its
neighbours, cut, and in the end listed or taken into use.

None of this shows to the users of the other blocks (`Layout.Rearranged`).
-/

set_option autoImplicit false
set_option relaxedAutoImplicit false

namespace KernelMemory

namespace Layout

/-- Only the free blocks are arranged in another way. -/
structure Rearranged (before after : Layout) : Prop where
  used : usedBlocks after.blocks.get? = usedBlocks before.blocks.get?
  pages : after.pages = before.pages
  total : after.total = before.total
  free : after.free = before.free
  freePages : after.freePages = before.freePages

theorem Rearranged.refl (layout : Layout) : Rearranged layout layout := ⟨rfl, rfl, rfl, rfl, rfl⟩

theorem Rearranged.trans {first middle last : Layout} (hfirst : Rearranged first middle)
    (hlast : Rearranged middle last) : Rearranged first last where
  used := hlast.used.trans hfirst.used
  pages := hlast.pages.trans hfirst.pages
  total := hlast.total.trans hfirst.total
  free := hlast.free.trans hfirst.free
  freePages := hlast.freePages.trans hfirst.freePages

/-- A free block is on no list and may have free neighbours; all other free blocks are listed, and
no two of them are neighbours. -/
structure InHand (layout : Layout) (index : Nat) (block : Block) (free freePages : Nat) : Prop where
  shaped : layout.Shaped {index} free freePages
  apart : Apart layout.blocks.get? {index}
  block_eq : layout.blocks.get? index = some block
  isFree : block.isFree = true

/-- The block right after the given one is not free. -/
def Ends (layout : Layout) (block : Block) : Prop :=
  ∀ next after, block.next = some next → layout.blocks.get? next = some after →
    after.isFree = false

theorem ends_of_neighbours {layout : Layout} {index next : Nat} {block after : Block}
    (hpair : Neighbours layout.blocks.get? index block next after) (hafter : after.isFree = false) :
    layout.Ends block := by
  intro other otherBlock hother hotherBlock
  obtain rfl : next = other := Option.some.inj (hpair.next_eq.symm.trans hother)
  obtain rfl : after = otherBlock := Option.some.inj (hpair.after_eq.symm.trans hotherBlock)
  exact hafter

/-- A block that follows another one does not span a page. -/
theorem spansPage_of_prev {layout : Layout} {index prev : Nat} {block : Block}
    (hblock : layout.blocks.get? index = some block) (hprev : block.prev = some prev) :
    layout.spansPage index = .ok false := by
  simp only [spansPage, block_eq hblock, ok_bind, hprev, Option.isSome_some, if_true, pure_eq_ok]

/-- A block with no free one behind it stays as it is. -/
theorem mergeNext_eq_self {layout : Layout} {index next : Nat} {block after : Block}
    (hpair : Neighbours layout.blocks.get? index block next after) (hafter : after.isFree = false) :
    layout.mergeNext index = .ok layout := by
  unfold mergeNext
  simp only [block_eq hpair.block_eq, ok_bind, hpair.next_eq, block_eq hpair.after_eq, hafter,
    Bool.false_and, Bool.false_eq_true, if_false, pure_eq_ok]

/-- A block with no free one before it stays as it is. -/
theorem mergePrev_eq_self {layout : Layout} {index : Nat} {block : Block}
    (hblock : layout.blocks.get? index = some block) (hprevFree : block.isPrevFree = false) :
    layout.mergePrev index = .ok (index, layout) := by
  unfold mergePrev
  simp only [block_eq hblock, ok_bind, hprevFree, Bool.false_eq_true, if_false, pure_eq_ok]

/-- Two free neighbours that are on no list are joined to one block in hand, if the block behind
them is in use. -/
theorem Shaped.absorb_inHand {layout : Layout} {index gone last free freePages : Nat}
    {block goneBlock lastBlock : Block} (hshaped : layout.Shaped {index, gone} free freePages)
    (hapart : Apart layout.blocks.get? {index, gone})
    (hjoin : Joinable layout.blocks.get? index block gone goneBlock last lastBlock)
    (hlast : lastBlock.isFree = false) :
    ∃ blocks joined, layout.absorb index gone = .ok { layout with blocks } ∧
      usedBlocks blocks.get? = usedBlocks layout.blocks.get? ∧
      InHand { layout with blocks } index joined free freePages ∧
      Ends { layout with blocks } joined ∧ joined.isPrevFree = block.isPrevFree ∧
      joined.page = block.page := by
  obtain ⟨blocks, habsorb, hget, hdone⟩ := hshaped.absorb hjoin rfl
  have hpair := hjoin.neighbours_joinAt hshaped.tiled
  have hused := usedBlocks_joinAt hshaped.tiled hjoin
  have hspread := hapart.joinAt hshaped.tiled hjoin
  rw [← hget] at hpair hused hspread
  exact ⟨blocks, _, habsorb, hused, ⟨hdone, hspread, hpair.block_eq, hjoin.isFree⟩,
    ends_of_neighbours hpair hlast, rfl, rfl⟩

namespace InHand

variable {layout : Layout} {index : Nat} {block : Block} {free freePages : Nat}
  (hhand : layout.InHand index block free freePages)

include hhand

theorem neighbours : ∃ next after, Neighbours layout.blocks.get? index block next after :=
  hhand.shaped.tiled.neighbours hhand.block_eq
    (hhand.shaped.tiled.size_of_isFree hhand.block_eq hhand.isFree)

/-- The block in hand is joined with the one after it if that is free. -/
theorem mergeNext : ∃ merged joined, layout.mergeNext index = .ok merged ∧
    Rearranged layout merged ∧ merged.InHand index joined free freePages ∧ merged.Ends joined ∧
      joined.page = block.page := by
  obtain ⟨next, after, hpair⟩ := hhand.neighbours
  obtain ⟨hshaped, hapart, hblock, hfree⟩ := id hhand
  cases hafter : after.isFree with
  | false =>
    exact ⟨layout, block, mergeNext_eq_self hpair hafter, Rearranged.refl layout, hhand,
      ends_of_neighbours hpair hafter, rfl⟩
  | true =>
    have hsize := hshaped.tiled.size_of_isFree hpair.after_eq hafter
    have hsentinel : after.isSentinel = false := by
      unfold Block.isSentinel
      exact beq_eq_false_iff_ne.mpr hsize
    obtain ⟨last, lastBlock, hright⟩ := hshaped.tiled.neighbours hpair.after_eq hsize
    have hjoin : Joinable layout.blocks.get? index block next after last lastBlock :=
      ⟨hpair, hright, hfree, hafter⟩
    have hprev := (hpair.follows hshaped.tiled).1
    obtain ⟨lists, rest, hdelist, hrest, hloose⟩ := hshaped.delist hpair.after_eq hafter
      (hpair.ne hshaped.tiled) (spansPage_of_prev hpair.after_eq hprev)
    obtain rfl : freePages = rest := hrest
    rw [Set.pair_comm] at hloose
    obtain ⟨blocks, joined, habsorb, hused, hjoined, hends, -, hpage⟩ :=
      hloose.absorb_inHand (hapart.mono (by simp)) hjoin (hjoin.last_isFree hshaped.tiled hapart)
    refine ⟨{ layout with blocks, lists }, joined, ?_, ⟨hused, rfl, rfl, rfl, rfl⟩, hjoined, hends,
      hpage⟩
    unfold Layout.mergeNext
    simp only [Layout.block_eq hblock, ok_bind, hpair.next_eq, Layout.block_eq hpair.after_eq,
      hafter, hsentinel, Bool.not_false, Bool.and_self, if_true, hdelist]
    exact habsorb

/-- The block in hand is joined with the one before it if that is free, and what comes of it is in
hand then. -/
theorem mergePrev (hends : layout.Ends block) : ∃ first merged joined,
    layout.mergePrev index = .ok (first, merged) ∧ Rearranged layout merged ∧
      merged.InHand first joined free freePages ∧ merged.Ends joined ∧
        joined.isPrevFree = false ∧ joined.page = block.page := by
  obtain ⟨hshaped, hapart, hblock, hfree⟩ := id hhand
  cases hprevFree : block.isPrevFree with
  | false =>
    exact ⟨index, layout, block, mergePrev_eq_self hblock hprevFree, Rearranged.refl layout, hhand,
      hends, hprevFree, rfl⟩
  | true =>
    cases hprev : block.prev with
    | none =>
      have hfirst := (hshaped.tiled.first index block hblock hprev).1
      exact absurd (hfirst.symm.trans hprevFree) (by decide)
    | some prev =>
      obtain ⟨before, hbefore, hnext, hpage, -, hbeforeFree, -⟩ := hshaped.tiled.before hblock hprev
      have hleft : Neighbours layout.blocks.get? prev before index block := ⟨hbefore, hnext, hblock⟩
      obtain ⟨last, lastBlock, hright⟩ := hhand.neighbours
      have hjoin : Joinable layout.blocks.get? prev before index block last lastBlock :=
        ⟨hleft, hright, hbeforeFree.trans hprevFree, hfree⟩
      obtain ⟨lists, rest, hdelist, hrest, hloose⟩ := hshaped.delist hbefore hjoin.isFree
        (hleft.ne hshaped.tiled).symm (hshaped.spansPage_of_joinable hjoin)
      obtain rfl : freePages = rest := hrest
      obtain ⟨blocks, joined, habsorb, hused, hjoined, hendsJoined, hjoinedPrev, hjoinedPage⟩ :=
        hloose.absorb_inHand (hapart.mono (by simp)) hjoin
          (hends last lastBlock hright.next_eq hright.after_eq)
      refine ⟨prev, { layout with blocks, lists }, joined, ?_, ⟨hused, rfl, rfl, rfl, rfl⟩, hjoined,
        hendsJoined, hjoinedPrev.trans (hjoin.isPrevFree hshaped.tiled hapart),
        hjoinedPage.trans hpage⟩
      unfold Layout.mergePrev
      simp only [Layout.block_eq hblock, ok_bind, hprevFree, if_true, hprev, hdelist, habsorb,
        pure_eq_ok]

omit hhand in
/-- A block without a free neighbour is apart from all of them. -/
theorem apart_empty (hhand : layout.InHand index block free freePages) (hends : layout.Ends block)
    (hprevFree : block.isPrevFree = false) : Apart layout.blocks.get? ∅ := by
  obtain ⟨hshaped, hapart, hblock, hfree⟩ := hhand
  have hprecedes := hshaped.tiled.precedes
  unfold Apart at hapart ⊢
  unfold Ends at hends
  grind

theorem hasFreeNeighbour_eq (hends : layout.Ends block) (hprevFree : block.isPrevFree = false) :
    layout.hasFreeNeighbour block = .ok false := by
  obtain ⟨next, after, hpair⟩ := hhand.neighbours
  unfold hasFreeNeighbour
  rw [hprevFree, if_neg Bool.false_ne_true]
  simp only [hpair.next_eq, Layout.block_eq hpair.after_eq, ok_bind, pure_eq_ok]
  rw [hends next after hpair.next_eq hpair.after_eq]

/-- A block in hand without a free neighbour is put on its list, and no block is loose then. -/
theorem enlist (hends : layout.Ends block) (hprevFree : block.isPrevFree = false) :
    ∃ lists spans, layout.enlist index = .ok { layout with lists } ∧
      Layout.spansPage { layout with lists } index = .ok spans ∧
      (spans = true ↔ index ∈ spanning layout.blocks.get? layout.pages.get?) ∧
      Shaped { layout with lists } ∅ free (freePages + spans.toNat) ∧
      Apart layout.blocks.get? ∅ := by
  have hapart := hhand.apart_empty hends hprevFree
  obtain ⟨hshaped, -, hblock, hfree⟩ := hhand
  obtain ⟨spans, hspans, hmember⟩ := hshaped.spansPage_eq hblock hfree
  rw [← insert_empty_eq] at hshaped
  obtain ⟨lists, henlist, hlisted⟩ := hshaped.enlist hblock hfree (Set.notMem_empty _) hspans
  exact ⟨lists, spans, henlist, hspans, hmember, hlisted, hapart⟩

end InHand

/-! ### Reclaiming -/

/-- A block in use that is made free is in hand. -/
theorem Settled.setFree_inHand {layout : Layout} (hsettled : layout.Settled) {index : Nat}
    {block : Block} (hblock : layout.blocks.get? index = some block) (hused : block.isFree = false)
    (hsize : block.size ≠ 0) :
    ∃ blocks, Word.add layout.free block.size = .ok (layout.free + block.size) ∧
      Layout.setFree { layout with free := layout.free + block.size } index true =
        .ok { layout with blocks, free := layout.free + block.size } ∧
      usedBlocks blocks.get? =
        usedBlocks layout.blocks.get? \ {⟨index, block.address, block.size⟩} ∧
      InHand { layout with blocks, free := layout.free + block.size } index
        { block with isFree := true } (layout.free + block.size) layout.freePages := by
  obtain ⟨hshaped, hspread⟩ := hsettled
  obtain ⟨next, after, hpair⟩ := hshaped.tiled.neighbours hblock hsize
  have hcounted := hshaped.with_counts (layout.free + block.size) layout.freePages
  obtain ⟨blocks, hset, hget, hfreed⟩ := hcounted.setFree_true hpair hused
  rw [insert_empty_eq] at hfreed
  replace hget : blocks.get? = freeAt layout.blocks.get? index block true := hget
  have hadd : Word.add layout.free block.size = .ok (layout.free + block.size) :=
    if_pos (hfreed.free_le.trans_lt hfreed.total_lt)
  have hpairFreed := hpair.freeAt hshaped.tiled true
  have hgone := usedBlocks_freeAt_true hshaped.tiled hpair
  have hapart := hspread.freeAt_true hshaped.tiled hpair
  rw [← hget] at hpairFreed hgone hapart
  exact ⟨blocks, hadd, hset, hgone, hfreed, hapart, hpairFreed.block_eq, rfl⟩

/-- A block in use can be freed. It is joined with its free neighbours, and if all of its page is
free then, the page is given and counts as free. -/
theorem Settled.reclaim {layout : Layout} (hsettled : layout.Settled) {index : Nat} {block : Block}
    (hblock : layout.blocks.get? index = some block) (hused : block.isFree = false)
    (hsize : block.size ≠ 0) :
    ∃ spare after, layout.reclaim index = .ok (spare, after) ∧ after.Settled ∧
      usedBlocks after.blocks.get? =
        usedBlocks layout.blocks.get? \ {⟨index, block.address, block.size⟩} ∧
      after.pages = layout.pages ∧ after.freePages = layout.freePages + spare.isSome.toNat ∧
      ∀ number, spare = some number → number = block.page ∧ ∃ first joined page,
        Droppable after.blocks.get? after.pages.get? first joined page ∧ joined.page = number := by
  obtain ⟨blocks, hadd, hset, hgone, hhand⟩ := hsettled.setFree_inHand hblock hused hsize
  obtain ⟨forward, grown, hmergeNext, hforward, hhandForward, hendsForward, hpageForward⟩ :=
    hhand.mergeNext
  obtain ⟨first, both, joined, hmergePrev, hboth, hhandBoth, hends, hprevFree, hpageBoth⟩ :=
    hhandForward.mergePrev hendsForward
  have hneighbour := hhandBoth.hasFreeNeighbour_eq hends hprevFree
  obtain ⟨lists, spans, henlist, hspans, hmember, hlisted, hapart⟩ :=
    hhandBoth.enlist hends hprevFree
  have hrearranged := hforward.trans hboth
  have hfree : both.free = layout.free + block.size := hrearranged.free
  have hfreePages : both.freePages = layout.freePages := hrearranged.freePages
  have hcount : both.freePages + spans.toNat < Word.limit := by
    rw [hfreePages]
    exact (hlisted.freePages_le.trans hlisted.free_le).trans_lt hlisted.total_lt
  refine ⟨if spans then some joined.page else none,
    { both with lists, freePages := both.freePages + spans.toNat }, ?_, ⟨?_, hapart⟩,
    hrearranged.used.trans hgone, hrearranged.pages, ?_, fun number hnumber ↦ ?_⟩
  · unfold Layout.reclaim
    simp only [block_eq hblock, ok_bind, hadd, hset, hmergeNext, hmergePrev,
      block_eq hhandBoth.block_eq, hneighbour, Bool.false_eq_true, if_false, henlist, hspans,
      pure_eq_ok]
    cases spans with
    | false => rfl
    | true =>
      have haddCount : Word.add both.freePages 1 = .ok (both.freePages + 1) := if_pos hcount
      simp only [if_true, haddCount, ok_bind, Bool.toNat_true]
  · show Shaped { both with lists, freePages := both.freePages + spans.toNat } ∅ both.free
      (both.freePages + spans.toNat)
    rw [hfree, hfreePages]
    exact hlisted.with_counts (layout.free + block.size) (layout.freePages + spans.toNat)
  · show both.freePages + spans.toNat = _
    rw [hfreePages]
    cases spans <;> rfl
  · cases spans with
    | false => cases hnumber
    | true =>
      obtain rfl : joined.page = number := Option.some.inj hnumber
      obtain ⟨found, page, hfound, hfoundFree, hfirst, hpage, hsizeEq⟩ := hmember.mp rfl
      obtain rfl : found = joined := Option.some.inj (hfound.symm.trans hhandBoth.block_eq)
      exact ⟨hpageBoth.trans hpageForward, first, found, page,
        ⟨hfound, hfoundFree, hfirst, hpage, hsizeEq⟩, rfl⟩

end Layout

end KernelMemory
