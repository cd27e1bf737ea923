import KernelMemory.Proofs.Arena.Upcoming
import KernelMemory.Proofs.Heap.FreeLists
import KernelMemory.Proofs.Heap.PageEdits

/-!
# Steps of a layout as edits

Each step that changes the blocks of a layout is one of the edits of its map of blocks, and leaves
the rest of the layout alone. A step that is possible does not fault. A cut gives the new block the
first of the indices that are awaited, and a join puts the index of the block that goes in front of
them.
-/

set_option autoImplicit false
set_option relaxedAutoImplicit false

namespace KernelMemory

namespace Arena

/-- The chain of vacant slots runs through all holes. -/
def Sound {α : Type} (arena : Arena α) : Prop := ∃ holes, arena.Chained holes

theorem Sound.exists_awaits {α : Type} {arena : Arena α} (hsound : arena.Sound) :
    ∃ upcoming, arena.Awaits upcoming := by
  obtain ⟨_, hchained⟩ := hsound
  exact ⟨_, hchained.awaits⟩

theorem Awaits.sound {α : Type} {arena : Arena α} {upcoming : Stream' Nat}
    (harena : arena.Awaits upcoming) : arena.Sound := by
  obtain ⟨holes, hchained, -⟩ := harena
  exact ⟨holes, hchained⟩

end Arena

namespace Layout

variable {layout : Layout} {index next : Nat} {block after : Block}

theorem block_eq (hblock : layout.blocks.get? index = some block) :
    layout.block index = .ok block :=
  Arena.get_eq hblock

theorem page_eq {number : Nat} {page : Page} (hpage : layout.pages.get? number = some page) :
    layout.page number = .ok page :=
  Arena.get_eq hpage

section Blocks

variable {upcoming : Stream' Nat} (hawaits : layout.blocks.Awaits upcoming)

include hawaits

theorem modifyBlock_eq (hblock : layout.blocks.get? index = some block) (change : Block → Block) :
    ∃ blocks, layout.modifyBlock index change = .ok { layout with blocks } ∧
      blocks.get? = Function.update layout.blocks.get? index (some (change block)) ∧
      blocks.Awaits upcoming := by
  obtain ⟨blocks, hmodify, hget, hafter⟩ := hawaits.modify hblock change
  refine ⟨blocks, ?_, hget, hafter⟩
  unfold modifyBlock
  rw [hmodify]
  rfl

variable {pages : Nat → Option Page} (htiled : Tiled layout.blocks.get? pages)

include htiled

theorem setFree_eq (hpair : Neighbours layout.blocks.get? index block next after) (isFree : Bool) :
    ∃ blocks, layout.setFree index isFree = .ok { layout with blocks } ∧
      blocks.get? = freeAt layout.blocks.get? index block isFree ∧
      blocks.Awaits upcoming := by
  have hne := hpair.ne htiled
  obtain ⟨first, hfirst, hgetFirst, hawaitsFirst⟩ := modifyBlock_eq hawaits hpair.block_eq
    fun block ↦ { block with isFree }
  have hblock : first.get? index = some { block with isFree } := by
    rw [hgetFirst, Function.update_self]
  have hafter : first.get? next = some after := by
    rw [hgetFirst, Function.update_of_ne hne]
    exact hpair.after_eq
  obtain ⟨blocks, hblocks, hget, hawaitsAfter⟩ :=
    @modifyBlock_eq { layout with blocks := first } next after _ hawaitsFirst hafter
      fun next ↦ { next with isPrevFree := isFree }
  refine ⟨blocks, ?_, ?_, hawaitsAfter⟩
  · have hread : Layout.block { layout with blocks := first } index = .ok { block with isFree } :=
      block_eq hblock
    simp only [setFree, hfirst, ok_bind, hread, hpair.next_eq, modifyNeighbour]
    exact hblocks
  · funext other
    rw [hget, freeAt_apply htiled hpair, Function.update_apply, hgetFirst, Function.update_apply]
    grind

/-- A cut that leaves two blocks is possible. -/
theorem split_eq (hpair : Neighbours layout.blocks.get? index block next after)
    (hfree : block.isFree = true) {offset : Nat} (hmin : minBlockSize ≤ offset)
    (hroom : minBlockSize + offset ≤ block.size) (hend : block.address + block.size < Word.limit) :
    ∃ blocks, layout.split index offset = .ok (upcoming.head, { layout with blocks }) ∧
      layout.blocks.get? upcoming.head = none ∧
      blocks.get? = cutAt layout.blocks.get? index block upcoming.head offset ∧
      blocks.Awaits upcoming.tail := by
  have hne := hpair.ne htiled
  obtain ⟨first, hinsert, hnone, hgetFirst, hawaitsFirst⟩ := hawaits.insert
    { address := block.address + offset, size := block.size - offset, isFree := true,
      isPrevFree := true, prev := some index, next := block.next, page := block.page }
  generalize upcoming.head = rest at *
  have hrestIndex : index ≠ rest := by
    rintro rfl
    exact absurd (hnone.symm.trans hpair.block_eq) (by simp)
  have hrestNext : next ≠ rest := by
    rintro rfl
    exact absurd (hnone.symm.trans hpair.after_eq) (by simp)
  have hblock : first.get? index = some block := by
    rw [hgetFirst, Function.update_of_ne hrestIndex]
    exact hpair.block_eq
  obtain ⟨second, hsecond, hgetSecond, hawaitsSecond⟩ :=
    @modifyBlock_eq { layout with blocks := first } index block _ hawaitsFirst hblock
      fun block ↦ { block with size := offset, next := some rest }
  have hafter : second.get? next = some after := by
    rw [hgetSecond, Function.update_of_ne hne, hgetFirst, Function.update_of_ne hrestNext]
    exact hpair.after_eq
  obtain ⟨blocks, hblocks, hget, hawaitsAfter⟩ :=
    @modifyBlock_eq { layout with blocks := second } next after _ hawaitsSecond hafter
      fun next ↦ { next with prev := some rest, isPrevFree := true }
  refine ⟨blocks, ?_, hnone, ?_, hawaitsAfter⟩
  · have hsub : Word.sub block.size offset = .ok (block.size - offset) := if_pos (by omega)
    have hadd : Word.add block.address offset = .ok (block.address + offset) := if_pos (by omega)
    have hrestMin : minBlockSize ≤ block.size - offset := by omega
    simp only [split, block_eq hpair.block_eq, ok_bind, hfree, if_true, if_pos hmin, hsub,
      if_pos hrestMin, hadd, hinsert, hsecond]
    simp only [hpair.next_eq, modifyNeighbour, hblocks]
    rfl
  · funext other
    rw [hget, cutAt_apply htiled hpair, Function.update_apply, hgetSecond, Function.update_apply,
      hgetFirst, Function.update_apply, hpair.next_eq]
    split_ifs <;> simp_all

/-- Two free neighbours can be joined. -/
theorem absorb_eq {gone last : Nat} {goneBlock lastBlock : Block}
    (hjoin : Joinable layout.blocks.get? index block gone goneBlock last lastBlock)
    (hend : block.size + goneBlock.size < Word.limit) :
    ∃ blocks, layout.absorb index gone = .ok { layout with blocks } ∧
      blocks.get? = joinAt layout.blocks.get? index block gone goneBlock ∧
      blocks.Awaits (Stream'.cons gone upcoming) := by
  have hne := hjoin.left.ne htiled
  have hneRight := hjoin.right.ne htiled
  have hneLast := hjoin.last_ne htiled
  obtain ⟨first, hremove, hgetFirst, hawaitsFirst⟩ := hawaits.remove hjoin.left.after_eq
  have hblock : first.get? index = some block := by
    rw [hgetFirst, Function.update_of_ne hne.symm]
    exact hjoin.left.block_eq
  obtain ⟨second, hsecond, hgetSecond, hawaitsSecond⟩ :=
    @modifyBlock_eq { layout with blocks := first } index block _ hawaitsFirst hblock
      fun joined ↦ { joined with size := block.size + goneBlock.size, next := goneBlock.next }
  have hlast : second.get? last = some lastBlock := by
    rw [hgetSecond, Function.update_of_ne hneLast, hgetFirst, Function.update_of_ne hneRight]
    exact hjoin.right.after_eq
  obtain ⟨blocks, hblocks, hget, hawaitsAfter⟩ :=
    @modifyBlock_eq { layout with blocks := second } last lastBlock _ hawaitsSecond hlast
      fun after ↦ { after with prev := some index, isPrevFree := block.isFree }
  refine ⟨blocks, ?_, ?_, hawaitsAfter⟩
  · have hadd : Word.add block.size goneBlock.size = .ok (block.size + goneBlock.size) :=
      if_pos hend
    have hread : Layout.block { layout with blocks := first } index = .ok block := block_eq hblock
    have hreadSecond : Layout.block { layout with blocks := second } index =
        .ok { block with size := block.size + goneBlock.size, next := goneBlock.next } :=
      block_eq (by rw [hgetSecond, Function.update_self])
    simp only [absorb, block_eq hjoin.left.block_eq, ok_bind, hjoin.left.next_eq, if_true, hremove,
      hread, hadd, hsecond, hreadSecond]
    simp only [hjoin.right.next_eq, modifyNeighbour, hblocks]
  · funext other
    rw [hget, joinAt_apply htiled hjoin, Function.update_apply, hgetSecond, Function.update_apply,
      hgetFirst, Function.update_apply, hjoin.right.next_eq, hjoin.isFree]
    split_ifs <;> simp_all

end Blocks

/-! ### Pages -/

section Pages

variable (hblocks : layout.blocks.Sound) (hpages : layout.pages.Sound)

include hblocks hpages

/-- A page can be added whose numbers are those of the first vacant slots. -/
theorem addPage_eq {base size : Nat} (hend : base + size < Word.limit)
    (htotal : layout.total + size < Word.limit) (hfree : layout.free + size < Word.limit)
    (hcount : layout.freePages + 1 < Word.limit) :
    ∃ number first sentinel blocks pages,
      layout.addPage base size = Layout.enlist { layout with
        blocks, pages, total := layout.total + size, free := layout.free + size,
        freePages := layout.freePages + 1 } first ∧
      layout.pages.get? number = none ∧ layout.blocks.get? first = none ∧
      layout.blocks.get? sentinel = none ∧ first ≠ sentinel ∧
      blocks.get? = blocksWith layout.blocks.get? number first ⟨base, size, sentinel⟩ ∧
      pages.get? = pagesWith layout.pages.get? number ⟨base, size, sentinel⟩ ∧
      blocks.Sound ∧ pages.Sound := by
  obtain ⟨holes, hchained⟩ := hblocks
  obtain ⟨pageHoles, hpageChained⟩ := hpages
  obtain ⟨pages, hinsertPage, hnumber, hgetPages, hchainedPages⟩ :=
    hpageChained.insert { base, size, sentinel := 0 }
  generalize pageHoles.headD layout.pages.slots.size = number at *
  obtain ⟨one, hinsertOne, hfirst, hgetOne, hchainedOne⟩ := hchained.insert
    { address := base, size, isFree := true, isPrevFree := false, prev := none, next := none,
      page := number }
  generalize holes.headD layout.blocks.slots.size = first at *
  obtain ⟨two, hinsertTwo, hsentinel, hgetTwo, hchainedTwo⟩ := hchainedOne.insert
    { address := base + size, size := 0, isFree := false, isPrevFree := true, prev := some first,
      next := none, page := number }
  generalize holes.tail.headD one.slots.size = sentinel at *
  rw [hgetOne] at hsentinel
  have hne : sentinel ≠ first := by
    rintro rfl
    rw [Function.update_self] at hsentinel
    exact absurd hsentinel (by simp)
  rw [Function.update_of_ne hne] at hsentinel
  have hfirstTwo := congrFun hgetTwo first
  rw [Function.update_of_ne hne.symm, hgetOne, Function.update_self] at hfirstTwo
  obtain ⟨three, hmodifyBlocks, hgetThree, hchainedThree⟩ :=
    hchainedTwo.modify hfirstTwo fun block ↦ { block with next := some sentinel }
  have hnumberPages := congrFun hgetPages number
  rw [Function.update_self] at hnumberPages
  obtain ⟨final, hmodifyPages, hgetFinal, hchainedFinal⟩ :=
    hchainedPages.modify hnumberPages fun page ↦ { page with sentinel }
  refine ⟨number, first, sentinel, three, final, ?_, hnumber, hfirst, hsentinel, hne.symm, ?_, ?_,
    ⟨_, hchainedThree⟩, ⟨_, hchainedFinal⟩⟩
  · have hadd : Word.add base size = .ok (base + size) := if_pos hend
    have haddTotal : Word.add layout.total size = .ok (layout.total + size) := if_pos htotal
    have haddFree : Word.add layout.free size = .ok (layout.free + size) := if_pos hfree
    have haddCount : Word.add layout.freePages 1 = .ok (layout.freePages + 1) := if_pos hcount
    simp only [addPage, hinsertPage, ok_bind, hinsertOne, hadd, hinsertTwo, hmodifyBlocks,
      hmodifyPages, haddTotal, haddFree, haddCount]
  · funext other
    rw [hgetThree, hgetTwo, hgetOne]
    simp only [Function.update_apply, blocksWith]
    split_ifs <;> simp_all
  · funext other
    rw [hgetFinal, hgetPages]
    simp only [Function.update_apply, pagesWith]
    split_ifs <;> simp_all

/-- A page that would not end at an address cannot be added. -/
theorem addPage_eq_error {base size : Nat} (hend : ¬ base + size < Word.limit) :
    layout.addPage base size = .error .addOverflow := by
  obtain ⟨holes, hchained⟩ := hblocks
  obtain ⟨pageHoles, hpageChained⟩ := hpages
  obtain ⟨pages, hinsertPage, -⟩ := hpageChained.insert { base, size, sentinel := 0 }
  obtain ⟨one, hinsertOne, -⟩ := hchained.insert
    { address := base, size, isFree := true, isPrevFree := false, prev := none, next := none,
      page := pageHoles.headD layout.pages.slots.size }
  have hadd : Word.add base size = .error .addOverflow := if_neg hend
  simp only [addPage, hinsertPage, ok_bind, hinsertOne, hadd, error_bind]

omit hpages in
/-- A page that is one free block has that block before its sentinel. -/
theorem firstBlock_eq {first : Nat} {page : Page}
    (htiled : Tiled layout.blocks.get? layout.pages.get?)
    (hdrop : Droppable layout.blocks.get? layout.pages.get? first block page) :
    layout.firstBlock block.page = .ok first := by
  obtain ⟨-, -, last, hlast, hlastPrev, -⟩ := hdrop.sentinel htiled
  obtain ⟨holes, hchained⟩ := hblocks
  have hmem : first ∈ indices layout.blocks.get? := by
    unfold indices
    simp [hdrop.block_eq]
  have hsize : 0 < layout.blocks.size := by
    rw [hchained.size_eq]
    exact Set.ncard_pos (Arena.indices_finite layout.blocks) |>.mpr ⟨first, hmem⟩
  obtain ⟨steps, hsteps⟩ : ∃ steps, layout.blocks.size = steps + 1 :=
    ⟨layout.blocks.size - 1, by omega⟩
  simp only [firstBlock, page_eq hdrop.page_eq, ok_bind, hsteps, firstBefore, block_eq hlast,
    hlastPrev, block_eq hdrop.block_eq, hdrop.prev_none, pure_eq_ok]

theorem dropPage_eq {first : Nat} {page : Page} {lists : FreeLists}
    (htiled : Tiled layout.blocks.get? layout.pages.get?)
    (hdrop : Droppable layout.blocks.get? layout.pages.get? first block page)
    (hdelist : layout.delist first = .ok { layout with lists }) (htotal : page.size ≤ layout.total)
    (hfree : page.size ≤ layout.free) (hfreePages : 0 < layout.freePages) :
    ∃ blocks pages, layout.dropPage block.page = .ok (page, { layout with
        blocks, pages, lists, total := layout.total - page.size, free := layout.free - page.size,
        freePages := layout.freePages - 1 }) ∧
      blocks.get? = blocksWithout layout.blocks.get? first page.sentinel ∧
      pages.get? = pagesWithout layout.pages.get? block.page ∧ blocks.Sound ∧ pages.Sound := by
  have hfirst := firstBlock_eq hblocks htiled hdrop
  obtain ⟨hne, -, last, hlast, -⟩ := hdrop.sentinel htiled
  obtain ⟨holes, hchained⟩ := hblocks
  obtain ⟨pageHoles, hpageChained⟩ := hpages
  obtain ⟨one, hremoveOne, hgetOne, hchainedOne⟩ := hchained.remove hdrop.block_eq
  have hlastOne : one.get? page.sentinel = some last := by
    rw [hgetOne, Function.update_of_ne hne.symm]
    exact hlast
  obtain ⟨two, hremoveTwo, hgetTwo, hchainedTwo⟩ := hchainedOne.remove hlastOne
  obtain ⟨final, hremovePage, hgetFinal, hchainedFinal⟩ := hpageChained.remove hdrop.page_eq
  refine ⟨two, final, ?_, ?_, hgetFinal, ⟨_, hchainedTwo⟩, ⟨_, hchainedFinal⟩⟩
  · have hsubTotal : Word.sub layout.total page.size = .ok (layout.total - page.size) :=
      if_pos htotal
    have hsubFree : Word.sub layout.free page.size = .ok (layout.free - page.size) := if_pos hfree
    have hsubPages : Word.sub layout.freePages 1 = .ok (layout.freePages - 1) := if_pos hfreePages
    simp only [dropPage, hfirst, ok_bind, page_eq hdrop.page_eq, hdelist, hremoveOne, hremoveTwo,
      hremovePage, hsubTotal, hsubFree, hsubPages, pure_eq_ok]
  · funext other
    rw [hgetTwo, hgetOne]
    simp only [Function.update_apply, blocksWithout]
    split_ifs <;> simp_all

end Pages

/-! ### Lists -/

section Lists

variable {free : Set (Nat × Nat)} (hlists : layout.lists.Sorted free)
  (hthere : ∀ other size, (other, size) ∈ free → ∃ block, layout.blocks.get? other = some block)

include hlists hthere

theorem reach_eq {node : Nat} (hnode : FreeLists.Reaches free node) :
    layout.reach node = .ok () := by
  unfold reach
  rcases hnode with hhead | ⟨other, size, hmem, rfl⟩
  · have hnone : Word.sub? node classCount = none := if_neg (Nat.not_le.mpr hhead)
    rw [hnone]
    rfl
  · obtain ⟨record, hrecord⟩ := hthere other size hmem
    obtain ⟨node, hnode, -⟩ := hlists.exists_node hmem
    have hsome : Word.sub? (FreeLists.nodeOf other) classCount = some other := by
      unfold Word.sub? FreeLists.nodeOf
      rw [if_pos (Nat.le_add_right _ _), Nat.add_sub_cancel_left]
    simp only [hsome, block_eq hrecord, hnode, ok_bind, pure_eq_ok]

variable (hblock : layout.blocks.get? index = some block)

include hblock

theorem enlist_eq (hnone : ∀ size, (index, size) ∉ free) (hsize : block.size ≤ maxBlockSize) :
    ∃ lists, layout.enlist index = .ok { layout with lists } ∧
      lists.Sorted (insert (index, block.size) free) := by
  obtain ⟨head, hhead, hnext⟩ := hlists.exists_head hsize
  obtain ⟨lists, hinsert, hsorted⟩ := hlists.insert hnone hsize
  refine ⟨lists, ?_, hsorted⟩
  simp only [enlist, block_eq hblock, ok_bind, hhead, reach_eq hlists hthere hnext, hinsert,
    pure_eq_ok]

theorem delist_eq (hmem : (index, block.size) ∈ free) :
    ∃ lists, layout.delist index = .ok { layout with lists } ∧
      lists.Sorted (free \ {(index, block.size)}) := by
  obtain ⟨node, hnode, hprev, hnext⟩ := hlists.exists_node hmem
  obtain ⟨lists, hremove, hsorted⟩ := hlists.remove hmem
  refine ⟨lists, ?_, hsorted⟩
  simp only [delist, block_eq hblock, ok_bind, hnode, reach_eq hlists hthere hprev,
    reach_eq hlists hthere hnext, hremove, pure_eq_ok]

end Lists

/-! ### Steps that came to their end -/

section Done

variable {done : Layout}

/-- A cut that came to its end left two blocks that are large enough. -/
theorem of_split {offset rest : Nat} (hsplit : layout.split index offset = .ok (rest, done))
    (hblock : layout.blocks.get? index = some block) :
    minBlockSize ≤ offset ∧ minBlockSize + offset ≤ block.size := by
  unfold split at hsplit
  rw [block_eq hblock, ok_bind] at hsplit
  obtain ⟨-, hsplit⟩ := require_eq_ok_iff.mp hsplit
  obtain ⟨hmin, hsplit⟩ := require_eq_ok_iff.mp hsplit
  obtain ⟨size, hsub, hsplit⟩ := bind_eq_ok_iff.mp hsplit
  obtain ⟨hminRest, -⟩ := require_eq_ok_iff.mp hsplit
  unfold Word.sub at hsub
  split_ifs at hsub with hle
  obtain rfl := Except.ok.inj hsub
  omega

/-- To list a block changes the lists alone. -/
theorem of_enlist (henlist : layout.enlist index = .ok done) :
    ∃ block lists, layout.block index = .ok block ∧
      layout.lists.insert index block.size = .ok lists ∧ done = { layout with lists } := by
  obtain ⟨block, hblock, henlist⟩ := bind_eq_ok_iff.mp henlist
  obtain ⟨head, -, henlist⟩ := bind_eq_ok_iff.mp henlist
  obtain ⟨-, -, henlist⟩ := bind_eq_ok_iff.mp henlist
  obtain ⟨lists, hinsert, henlist⟩ := bind_eq_ok_iff.mp henlist
  exact ⟨block, lists, hblock, hinsert, (Except.ok.inj henlist).symm⟩

/-- To take a block off its list changes the lists alone. -/
theorem of_delist (hdelist : layout.delist index = .ok done) :
    ∃ block lists, layout.block index = .ok block ∧
      layout.lists.remove index block.size = .ok lists ∧ done = { layout with lists } := by
  obtain ⟨block, hblock, hdelist⟩ := bind_eq_ok_iff.mp hdelist
  obtain ⟨node, -, hdelist⟩ := bind_eq_ok_iff.mp hdelist
  obtain ⟨-, -, hdelist⟩ := bind_eq_ok_iff.mp hdelist
  obtain ⟨-, -, hdelist⟩ := bind_eq_ok_iff.mp hdelist
  obtain ⟨lists, hremove, hdelist⟩ := bind_eq_ok_iff.mp hdelist
  exact ⟨block, lists, hblock, hremove, (Except.ok.inj hdelist).symm⟩

end Done

end Layout

end KernelMemory
