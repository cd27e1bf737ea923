import KernelMemory.Proofs.Heap.Carve
import KernelMemory.Proofs.Heap.Picture

/-!
# Reclaiming undoes taking

An allocation takes a free block off its list, may cut it before and behind the part that it uses
and lists what it cuts off. To reclaim that part at once goes the same way back: it is joined with
what was cut off behind it and before it, and what comes of this is put in front of the list that
the free block was the first of. Each step back undoes one of the steps (`Layout.Undoes`), the last
one first, and so the layout shows what it showed before (`Layout.Settled.reclaim_undoes_take`).

Two settled layouts with one picture and the same pages agree in all that they hold
(`Layout.Restored`).
-/

set_option autoImplicit false
set_option relaxedAutoImplicit false

namespace KernelMemory

namespace Layout

/-- The step back leads from all that shows what the second layout does to what the first one
shows. -/
def Undoes (back : Layout → Layout → Prop) (before after : Layout) : Prop :=
  ∀ picture, before.Shows picture → ∃ shown, after.Shows shown ∧
    ∀ again done : Layout, again.Shows shown → back again done → done.Shows picture

/-- What was done last is undone first. -/
theorem Undoes.comp {first second : Layout → Layout → Prop} {before middle after : Layout}
    (hfirst : Undoes first before middle) (hsecond : Undoes second middle after) :
    Undoes (Relation.Comp second first) before after := by
  intro picture hbefore
  obtain ⟨shown, hmiddle, hback⟩ := hfirst picture hbefore
  obtain ⟨last, hafter, hlast⟩ := hsecond shown hmiddle
  refine ⟨last, hafter, fun again done hagain hdone ↦ ?_⟩
  obtain ⟨half, hhalf, hrest⟩ := hdone
  exact hback half done (hlast again half hagain hhalf) hrest

variable {layout : Layout} {picture : Picture} {index used need align : Nat} {block : Block}

namespace InHand

variable {free freePages offset rest part : Nat} {parted listed carved : Layout}
  (hhand : layout.InHand index block free freePages)

include hhand

/-! ### Cuts and joins -/

section Cut

variable (hsplit : layout.split index offset = .ok (rest, parted))
  (henlist : parted.enlist part = .ok listed)

include hsplit henlist

/-- A cut is seen in the blocks, to list one of the parts is not. -/
theorem blocks_of_cut : layout.blocks.get? rest = none ∧
    listed.blocks.get? = cutAt layout.blocks.get? index block rest offset := by
  obtain ⟨next, after, hpair⟩ := hhand.neighbours
  obtain ⟨hmin, hroom⟩ := of_split hsplit hhand.block_eq
  obtain ⟨upcoming, hawaits⟩ := hhand.shaped.blocks.exists_awaits
  obtain ⟨blocks, heq, hnone, hget, -⟩ := split_eq hawaits hhand.shaped.tiled hpair hhand.isFree
    hmin hroom (hhand.shaped.end_lt hhand.block_eq)
  obtain ⟨rfl, rfl⟩ := Prod.mk.inj (Except.ok.inj (heq.symm.trans hsplit))
  obtain ⟨-, lists, -, -, rfl⟩ := of_enlist henlist
  exact ⟨hnone, hget⟩

/-- A cut leaves the two parts of the block. -/
theorem parts_of_cut : listed.blocks.get? index = some (block.frontOf rest offset) ∧
    listed.blocks.get? rest = some (block.restOf index offset) := by
  obtain ⟨next, after, hpair⟩ := hhand.neighbours
  obtain ⟨hnone, hget⟩ := hhand.blocks_of_cut hsplit henlist
  have hjoin := Joinable.cutAt hhand.shaped.tiled hpair hhand.isFree hnone offset
  rw [← hget] at hjoin
  exact ⟨hjoin.left.block_eq, hjoin.left.after_eq⟩

/-- A cut one part of which is listed is taken back when this part is taken off its list and the
parts are joined. -/
theorem absorb_undoes_cut (hdvd : blockAlign ∣ offset) (hpart : part = index ∨ part = rest) :
    Undoes (fun again done ↦ ∃ off, again.delist part = .ok off ∧ off.absorb index rest = .ok done)
      layout listed := by
  intro picture hshows
  obtain ⟨next, after, hpair⟩ := hhand.neighbours
  have htiled := hhand.shaped.tiled
  have hend := hhand.shaped.end_lt hhand.block_eq
  obtain ⟨hmin, hroom⟩ := of_split hsplit hhand.block_eq
  rw [hshows.blocks_eq] at hpair htiled
  obtain ⟨rfl, hnone, hparted⟩ := hshows.split htiled hpair hhand.isFree hend hsplit
  have hjoin := Joinable.cutAt htiled hpair hhand.isFree hnone offset
  obtain ⟨partBlock, hpartBlock, hle⟩ : ∃ partBlock,
      (picture.cut index block offset).blocks part = some partBlock ∧
        partBlock.size ≤ block.size := by
    rcases hpart with rfl | rfl
    · exact ⟨_, hjoin.left.block_eq, (Nat.le_add_left _ _).trans hroom⟩
    · exact ⟨_, hjoin.left.after_eq, Nat.sub_le _ _⟩
  have hsize := hle.trans (hhand.shaped.size_le hhand.block_eq)
  have hnotMem : ∀ number < classCount,
      FreeLists.nodeOf part ∉ (picture.cut index block offset).members number := by
    refine fun number ↦ hhand.shaped.notMem_members hshows ?_
    rintro size ⟨hloose, record, hrecord, -⟩
    rcases hpart with rfl | rfl
    · exact hloose rfl
    · rw [hshows.blocks_eq, hnone] at hrecord
      cases hrecord
  refine ⟨_, hparted.enlist hpartBlock hsize hnotMem henlist, ?_⟩
  rintro again done hagain ⟨off, hdelist, habsorb⟩
  exact (hagain.delist_listed hpartBlock hsize hdelist).absorb_cut htiled hpair
    ⟨hhand.isFree, hnone, hmin, hroom, hdvd⟩ hend habsorb

end Cut

/-- What was cut off behind a block is joined with it again. -/
theorem mergeNext_undoes_carveBack (hends : layout.Ends block) (hdvd : blockAlign ∣ need)
    (hcarve : layout.carveBack index need = .ok carved) :
    Undoes (fun again done ↦ again.mergeNext index = .ok done) layout carved := by
  intro picture hshows
  rcases of_carveBack hhand.block_eq hcarve with rfl | ⟨rest, parted, hsplit, henlist⟩
  · obtain ⟨next, after, hpair⟩ := hhand.neighbours
    have hused := hends next after hpair.next_eq hpair.after_eq
    rw [hshows.blocks_eq] at hpair
    refine ⟨picture, hshows, fun again done hagain hmerge ↦ ?_⟩
    rw [← hagain.blocks_eq] at hpair
    rw [mergeNext_eq_self hpair hused] at hmerge
    obtain rfl := Except.ok.inj hmerge
    exact hagain
  · obtain ⟨hfront, hrest⟩ := hhand.parts_of_cut hsplit henlist
    obtain ⟨shown, hshown, hback⟩ :=
      hhand.absorb_undoes_cut hsplit henlist hdvd (.inr rfl) picture hshows
    have hroom := (of_split hsplit hhand.block_eq).2
    have hnext : (block.frontOf rest need).next = some rest := rfl
    have hmark : ((block.restOf index need).isFree && !(block.restOf index need).isSentinel) =
        true := by
      rw [minBlockSize_eq] at hroom
      have hne : block.size - need ≠ 0 := by omega
      simp [Block.restOf, Block.isSentinel, hne]
    rw [hshown.blocks_eq] at hfront hrest
    refine ⟨shown, hshown, fun again done hagain hmerge ↦ hback again done hagain ?_⟩
    unfold Layout.mergeNext at hmerge
    simp only [hagain.block_eq hfront, ok_bind, hnext, hagain.block_eq hrest, hmark, if_true]
      at hmerge
    exact bind_eq_ok_iff.mp hmerge

/-- What was cut off before a block is joined with it again, and keeps its index. -/
theorem mergePrev_undoes_carveFront (hapart : Apart layout.blocks.get? ∅)
    (hneed : BlockNeed need align) (hroom : need ≤ block.size)
    (halign : align = blockAlign ∨ need + align + minBlockSize ≤ block.size)
    (hcarve : layout.carveFront index need align = .ok (used, carved))
    (hshows : layout.Shows picture) :
    ∃ shown, carved.Shows shown ∧ ∀ (again : Layout) (first : Nat) (done : Layout),
      again.Shows shown → again.mergePrev used = .ok (first, done) →
        first = index ∧ done.Shows picture := by
  obtain ⟨_, _, part, heq, -, hhandPart, -⟩ := hhand.carveFront hapart hneed hroom halign
  obtain ⟨rfl, rfl⟩ := Prod.mk.inj (Except.ok.inj (heq.symm.trans hcarve))
  have hblock := hhand.block_eq
  rcases of_carveFront hblock hcarve with ⟨rfl, rfl⟩ | ⟨offset, parted, hsplit, henlist⟩
  · have hprevFree : block.isPrevFree = false := by
      rw [← Bool.not_eq_true]
      intro hprevFree
      obtain hmem | ⟨_, hmem, -⟩ := hapart _ block hblock hhand.isFree hprevFree
      · exact hmem
      · exact hmem
    rw [hshows.blocks_eq] at hblock
    refine ⟨picture, hshows, fun again first done hagain hmerge ↦ ?_⟩
    rw [← hagain.blocks_eq] at hblock
    rw [mergePrev_eq_self hblock hprevFree] at hmerge
    obtain ⟨rfl, rfl⟩ := Prod.mk.inj (Except.ok.inj hmerge)
    exact ⟨rfl, hagain⟩
  · obtain ⟨hfront, hrest⟩ := hhand.parts_of_cut hsplit henlist
    obtain rfl : part = block.restOf index offset :=
      Option.some.inj (hhandPart.block_eq.symm.trans hrest)
    -- both parts start at whole alignment steps, so the first one is a number of them long
    have hdvd : blockAlign ∣ offset :=
      (Nat.dvd_add_right (hhand.shaped.tiled.start hblock).1).mp
        (hhandPart.shaped.tiled.start hrest).1
    obtain ⟨shown, hshown, hback⟩ :=
      hhand.absorb_undoes_cut hsplit henlist hdvd (.inl rfl) picture hshows
    rw [hshown.blocks_eq] at hrest
    have hprevFree : (block.restOf index offset).isPrevFree = true := rfl
    have hprev : (block.restOf index offset).prev = some index := rfl
    refine ⟨shown, hshown, fun again first done hagain hmerge ↦ ?_⟩
    unfold Layout.mergePrev at hmerge
    simp only [hagain.block_eq hrest, ok_bind, hprevFree, if_true, hprev, pure_eq_ok] at hmerge
    obtain ⟨off, hdelist, hmerge⟩ := bind_eq_ok_iff.mp hmerge
    obtain ⟨joined, habsorb, hmerge⟩ := bind_eq_ok_iff.mp hmerge
    obtain ⟨rfl, rfl⟩ := Prod.mk.inj (Except.ok.inj hmerge)
    exact ⟨rfl, hback again joined hagain ⟨off, hdelist, habsorb⟩⟩

/-- A block that was taken into use is made free again. -/
theorem setFree_undoes_setFree {taken : Layout} (hset : layout.setFree index false = .ok taken) :
    Undoes (fun again done ↦ again.setFree index true = .ok done) layout taken := by
  intro picture hshows
  obtain ⟨next, after, hpair⟩ := hhand.neighbours
  have htiled := hhand.shaped.tiled
  rw [hshows.blocks_eq] at hpair htiled
  refine ⟨_, hshows.setFree htiled hpair hset, fun again done hagain hdone ↦ ?_⟩
  have hfreed := hagain.setFree (htiled.freeAt hpair false) (hpair.freeAt htiled false) hdone
  rwa [Picture.freed_freed htiled hpair hhand.isFree false] at hfreed

end InHand

/-! ### Whole requests -/

/-- The steps of an allocation. -/
theorem of_take {taken : Layout} (htake : layout.take index need align = .ok (used, taken)) :
    ∃ off freePages front back inUse free, layout.delist index = .ok off ∧
      Layout.carveFront { off with freePages } index need align = .ok (used, front) ∧
      front.carveBack used need = .ok back ∧ back.setFree used false = .ok inUse ∧
      taken = { inUse with free } := by
  obtain ⟨off, hdelist, htake⟩ := bind_eq_ok_iff.mp htake
  obtain ⟨spans, -, htake⟩ := bind_eq_ok_iff.mp htake
  obtain ⟨freePages, htake⟩ : ∃ freePages, (do
      let carved ← Layout.carve { off with freePages } index need align
      let layout ← carved.2.setFree carved.1 false
      return (carved.1, { layout with
        free := ← Word.sub layout.free (← layout.block carved.1).size }) :
        Except Fault (Nat × Layout)) = .ok (used, taken) := by
    split_ifs at htake
    · obtain ⟨freePages, -, htake⟩ := bind_eq_ok_iff.mp htake
      exact ⟨freePages, htake⟩
    · exact ⟨off.freePages, htake⟩
  obtain ⟨⟨part, carved⟩, hcarve, htake⟩ := bind_eq_ok_iff.mp htake
  obtain ⟨inUse, hset, htake⟩ := bind_eq_ok_iff.mp htake
  obtain ⟨record, -, htake⟩ := bind_eq_ok_iff.mp htake
  obtain ⟨free, -, htake⟩ := bind_eq_ok_iff.mp htake
  obtain ⟨rfl, rfl⟩ := Prod.mk.inj (Except.ok.inj htake)
  obtain ⟨⟨used, front⟩, hfront, hcarve⟩ := bind_eq_ok_iff.mp hcarve
  obtain ⟨back, hback, hcarve⟩ := bind_eq_ok_iff.mp hcarve
  obtain ⟨rfl, rfl⟩ := Prod.mk.inj (Except.ok.inj hcarve)
  exact ⟨off, freePages, front, back, inUse, free, hdelist, hfront, hback, hset, rfl⟩

/-- The steps of a deallocation. -/
theorem of_reclaim {spare : Option Nat} {after : Layout}
    (hreclaim : layout.reclaim used = .ok (spare, after)) :
    ∃ free freed forward first both listed freePages,
      Layout.setFree { layout with free } used true = .ok freed ∧
      freed.mergeNext used = .ok forward ∧ forward.mergePrev used = .ok (first, both) ∧
      both.enlist first = .ok listed ∧ after = { listed with freePages } := by
  obtain ⟨record, -, hreclaim⟩ := bind_eq_ok_iff.mp hreclaim
  obtain ⟨free, -, hreclaim⟩ := bind_eq_ok_iff.mp hreclaim
  obtain ⟨freed, hset, hreclaim⟩ := bind_eq_ok_iff.mp hreclaim
  obtain ⟨forward, hforward, hreclaim⟩ := bind_eq_ok_iff.mp hreclaim
  obtain ⟨⟨first, both⟩, hboth, hreclaim⟩ := bind_eq_ok_iff.mp hreclaim
  obtain ⟨joined, -, hreclaim⟩ := bind_eq_ok_iff.mp hreclaim
  obtain ⟨beside, -, hreclaim⟩ := bind_eq_ok_iff.mp hreclaim
  split_ifs at hreclaim
  · cases hreclaim
  obtain ⟨listed, henlist, hreclaim⟩ := bind_eq_ok_iff.mp hreclaim
  obtain ⟨spans, -, hreclaim⟩ := bind_eq_ok_iff.mp hreclaim
  obtain ⟨freePages, rfl⟩ : ∃ freePages, after = { listed with freePages } := by
    split_ifs at hreclaim
    · obtain ⟨freePages, -, hreclaim⟩ := bind_eq_ok_iff.mp hreclaim
      exact ⟨freePages, (Prod.mk.inj (Except.ok.inj hreclaim)).2.symm⟩
    · exact ⟨listed.freePages, (Prod.mk.inj (Except.ok.inj hreclaim)).2.symm⟩
  exact ⟨free, freed, forward, first, both, listed, freePages, hset, hforward, hboth, henlist, rfl⟩

namespace Settled

variable {off front taken : Layout} (hsettled : layout.Settled)

include hsettled

/-- A free block that was taken off its list is in hand, and still has no free neighbour. -/
theorem inHand_of_delist (hblock : layout.blocks.get? index = some block)
    (hfree : block.isFree = true) (hdelist : layout.delist index = .ok off) (freePages : Nat) :
    Apart off.blocks.get? ∅ ∧
      ∃ rest, InHand { off with freePages } index block layout.free rest := by
  obtain ⟨lists, _, rest, heq, -, -, -, hhand⟩ := hsettled.delist_inHand hblock hfree
  obtain rfl := Except.ok.inj (heq.symm.trans hdelist)
  exact ⟨hsettled.apart, rest, hhand.shaped.with_counts layout.free freePages, hhand.apart, hblock,
    hfree⟩

/-- A block that was found and cut in front is put back in front of its list. -/
theorem enlist_undoes_delist {search freePages : Nat}
    (hfind : layout.findFree? search = .ok (some index))
    (hblock : layout.blocks.get? index = some block) (hneed : BlockNeed need align)
    (hroom : need ≤ block.size)
    (halign : align = blockAlign ∨ need + align + minBlockSize ≤ block.size)
    (hdelist : layout.delist index = .ok off)
    (hcarve : Layout.carveFront { off with freePages } index need align = .ok (used, front)) :
    Undoes (fun again done ↦ ∃ first both, again.mergePrev used = .ok (first, both) ∧
      both.enlist first = .ok done) layout front := by
  intro picture hshows
  obtain ⟨size, ⟨-, record, hrecord, hfree, rfl⟩, hhead⟩ :=
    hsettled.shaped.sorted.head_of_find? hshows.marked hfind
  obtain rfl : block = record := Option.some.inj (hblock.symm.trans hrecord)
  obtain ⟨hapart, rest, hhand⟩ := hsettled.inHand_of_delist hblock hfree hdelist freePages
  have hsize := hsettled.shaped.size_le hblock
  rw [hshows.blocks_eq] at hblock
  have hoff := (hshows.delist hblock hsize (List.mem_of_mem_head? hhead) hdelist).with_counts
    off.free freePages
  have hnotMem : ∀ number < classCount,
      FreeLists.nodeOf index ∉ (picture.unlisted index block.size).members number :=
    fun _ ↦ hhand.shaped.notMem_members hoff fun _ hmem ↦ hmem.1 rfl
  obtain ⟨shown, hshown, hback⟩ :=
    hhand.mergePrev_undoes_carveFront hapart hneed hroom halign hcarve hoff
  refine ⟨shown, hshown, ?_⟩
  rintro again done hagain ⟨first, both, hmerge, henlist⟩
  obtain ⟨rfl, hboth⟩ := hback again first both hagain hmerge
  have hdone := hboth.enlist hblock hsize hnotMem henlist
  rwa [Picture.listed_unlisted hhead] at hdone

/-- An allocation from the block that was found is undone when its block is reclaimed. -/
theorem reclaim_undoes_take {search : Nat} (hfind : layout.findFree? search = .ok (some index))
    (hblock : layout.blocks.get? index = some block) (hfree : block.isFree = true)
    (hneed : BlockNeed need align) (hroom : need ≤ block.size)
    (halign : align = blockAlign ∨ need + align + minBlockSize ≤ block.size)
    (htake : layout.take index need align = .ok (used, taken)) :
    Undoes (fun again done ↦ ∃ spare, again.reclaim used = .ok (spare, done)) layout taken := by
  obtain ⟨off, freePages, front, back, inUse, free, hdelist, hfront, hback, hset, rfl⟩ :=
    of_take htake
  have hundoFront := hsettled.enlist_undoes_delist hfind hblock hneed hroom halign hdelist hfront
  obtain ⟨hapart, rest, hhand⟩ := hsettled.inHand_of_delist hblock hfree hdelist freePages
  obtain ⟨_, _, whole, heqFront, -, hhandFront, hends, hroomFront, -⟩ :=
    hhand.carveFront hapart hneed hroom halign
  obtain ⟨rfl, rfl⟩ := Prod.mk.inj (Except.ok.inj (heqFront.symm.trans hfront))
  obtain ⟨_, part, heqBack, -, hhandBack, -⟩ := hhandFront.carveBack hends hneed hroomFront
  obtain rfl := Except.ok.inj (heqBack.symm.trans hback)
  have hundo := (hundoFront.comp (hhandFront.mergeNext_undoes_carveBack hends hneed.dvd hback)).comp
    (hhandBack.setFree_undoes_setFree hset)
  intro picture hshows
  obtain ⟨shown, hshown, hstepsBack⟩ := hundo picture hshows
  refine ⟨shown, hshown.with_counts free inUse.freePages, ?_⟩
  rintro again done hagain ⟨spare, hreclaim⟩
  obtain ⟨free, freed, forward, first, both, listed, freePages, hfreed, hforward, hboth, hlisted,
    rfl⟩ := of_reclaim hreclaim
  have hdone := hstepsBack { again with free } listed (hagain.with_counts free again.freePages)
    ⟨freed, hfreed, forward, hforward, first, both, hboth, hlisted⟩
  exact hdone.with_counts listed.free freePages

end Settled

/-! ### Layouts that agree -/

/-- The second layout has the same pages, chains of blocks, free lists, marks and counts as the
first one, and gives the next blocks the same indices. -/
structure Restored (before after : Layout) : Prop where
  pages : after.pages = before.pages
  blocks : after.blocks.get? = before.blocks.get?
  allows_iff : ∀ deeds, after.blocks.Allows deeds ↔ before.blocks.Allows deeds
  members : ∀ sizeClass : SizeClass, sizeClass.InRange → ∃ members,
    before.lists.members sizeClass = .ok members ∧ after.lists.members sizeClass = .ok members
  levels : after.lists.levels = before.lists.levels
  slots : after.lists.slots = before.lists.slots
  total : after.total = before.total
  free : after.free = before.free
  freePages : after.freePages = before.freePages

/-- Settled layouts that show the same and have the same pages agree in all. -/
theorem Settled.restored {before after : Layout} (hbefore : before.Settled)
    (hafter : after.Settled) (hpages : after.pages = before.pages) (hshows : before.Shows picture)
    (hagain : after.Shows picture) : before.Restored after where
  pages := hpages
  blocks := hagain.blocks_eq.trans hshows.blocks_eq.symm
  allows_iff := Arena.Alike.allows_iff
    ⟨hagain.blocks_eq.trans hshows.blocks_eq.symm, _, hagain.awaits, hshows.awaits⟩
  members := fun _ hclass ↦ by
    obtain ⟨blocks, hblocks⟩ := hshows.marked.exists_blocks hclass.number_lt
    exact ⟨blocks, hshows.marked.members_eq hclass hblocks,
      hagain.marked.members_eq hclass hblocks⟩
  levels := hagain.marked.levels_eq hshows.marked
  slots := hagain.marked.slots_eq hshows.marked
  total := by
    rw [← hafter.shaped.total, ← hbefore.shaped.total, hagain.blocks_eq, hshows.blocks_eq]
  free := by
    rw [← hafter.shaped.free, ← hbefore.shaped.free, hagain.blocks_eq, hshows.blocks_eq]
  freePages := by
    rw [← hafter.shaped.free_pages, ← hbefore.shaped.free_pages, hagain.blocks_eq,
      hshows.blocks_eq, hpages]

end Layout

end KernelMemory
