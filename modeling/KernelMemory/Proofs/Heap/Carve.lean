import KernelMemory.Proofs.Heap.InHand

/-!
# Carving

A free block is cut down to what an allocation needs: the part with the aligned payload is taken
from its end, and what that part has too much is cut off behind it. Where the free block is large
enough for the alignment, none of this can go wrong.
-/

set_option autoImplicit false
set_option relaxedAutoImplicit false

namespace KernelMemory

/-- A size that a block may have, and an alignment that its payload may have. -/
structure BlockNeed (need align : Nat) : Prop where
  min_le : minBlockSize ≤ need
  dvd : blockAlign ∣ need
  isPowerOfTwo : Word.isPowerOfTwo align = true
  align_dvd : blockAlign ∣ align

/-- Larger powers of two are multiples of the alignment of blocks. -/
theorem blockAlign_dvd_of_le {align : Nat} (hpower : Word.isPowerOfTwo align = true)
    (hle : blockAlign ≤ align) : blockAlign ∣ align := by
  obtain ⟨exponent, rfl⟩ := Word.isPowerOfTwo_iff.mp hpower
  have hblockAlign : blockAlign = 2 ^ 4 := rfl
  rw [hblockAlign] at hle ⊢
  exact Nat.pow_dvd_pow 2 ((Nat.pow_le_pow_iff_right (by decide)).mp hle)

theorem BlockNeed.align_pos {need align : Nat} (hneed : BlockNeed need align) : 0 < align := by
  obtain ⟨exponent, rfl⟩ := Word.isPowerOfTwo_iff.mp hneed.isPowerOfTwo
  exact Nat.two_pow_pos exponent

/-- The place of a part with an aligned payload at the end of a free block that leaves room for it
and for a block before it. -/
theorem exists_aligned_offset {address size need align : Nat} (hneed : minBlockSize ≤ need)
    (hpos : 0 < align) (halign : blockAlign ∣ align) (haddress : blockAlign ∣ address)
    (hroom : need + align + minBlockSize ≤ size) :
    ∃ offset, (address + size - (need - headerSize)) / align * align =
        address + offset + headerSize ∧
      minBlockSize ≤ offset ∧ need + offset ≤ size ∧ blockAlign ∣ offset := by
  rw [minBlockSize_eq] at hneed hroom
  rw [blockAlign_eq] at halign haddress
  rw [minBlockSize_eq, blockAlign_eq, headerSize_eq]
  have hdvd : 16 ∣ (address + size - (need - 16)) / align * align :=
    Nat.dvd_mul_left_of_dvd halign _
  have hdiv := Nat.div_add_mod' (address + size - (need - 16)) align
  have hmod := Nat.mod_lt (address + size - (need - 16)) hpos
  refine ⟨(address + size - (need - 16)) / align * align - 16 - address, ?_, ?_, ?_, ?_⟩
  · omega
  · omega
  · omega
  · omega

namespace Layout

/-! ### The steps of a carving -/

section Inversion

variable {layout carved : Layout} {index used need align : Nat} {block : Block}
  (hblock : layout.blocks.get? index = some block)

include hblock

/-- A block is left as it is where its payload is aligned, and else cut, and its front listed. -/
theorem of_carveFront (hcarve : layout.carveFront index need align = .ok (used, carved)) :
    used = index ∧ carved = layout ∨
      ∃ offset parted, layout.split index offset = .ok (used, parted) ∧
        parted.enlist index = .ok carved := by
  unfold carveFront at hcarve
  rw [Layout.block_eq hblock, ok_bind] at hcarve
  obtain ⟨payload, -, hcarve⟩ := bind_eq_ok_iff.mp hcarve
  split_ifs at hcarve
  · obtain ⟨rfl, rfl⟩ := Prod.mk.inj (Except.ok.inj hcarve)
    exact .inl ⟨rfl, rfl⟩
  · obtain ⟨ending, -, hcarve⟩ := bind_eq_ok_iff.mp hcarve
    obtain ⟨length, -, hcarve⟩ := bind_eq_ok_iff.mp hcarve
    obtain ⟨last, -, hcarve⟩ := bind_eq_ok_iff.mp hcarve
    obtain ⟨place, -, hcarve⟩ := bind_eq_ok_iff.mp hcarve
    obtain ⟨start, -, hcarve⟩ := bind_eq_ok_iff.mp hcarve
    obtain ⟨offset, -, hcarve⟩ := bind_eq_ok_iff.mp hcarve
    obtain ⟨⟨rest, parted⟩, hsplit, hcarve⟩ := bind_eq_ok_iff.mp hcarve
    obtain ⟨listed, henlist, hcarve⟩ := bind_eq_ok_iff.mp hcarve
    obtain ⟨rfl, rfl⟩ := Prod.mk.inj (Except.ok.inj hcarve)
    exact .inr ⟨offset, parted, hsplit, henlist⟩

/-- A block with an aligned payload is not cut in front. -/
theorem carveFront_eq_self (hfits : block.address + headerSize < Word.limit)
    (haligned : (block.address + headerSize) % align = 0) (need : Nat) :
    layout.carveFront index need align = .ok (index, layout) := by
  have hadd : Word.add block.address headerSize = .ok (block.address + headerSize) := if_pos hfits
  unfold carveFront
  simp only [block_eq hblock, ok_bind, hadd, haligned, if_true, pure_eq_ok]

/-- A block of which all is needed is not cut behind. -/
theorem carveBack_eq_self : layout.carveBack index block.size = .ok layout := by
  have hsub : Word.sub block.size block.size = .ok 0 := by
    unfold Word.sub
    rw [if_pos (Nat.le_refl _), Nat.sub_self]
  have hsmall : 0 < minBlockSize := by decide
  unfold carveBack
  simp only [block_eq hblock, ok_bind, hsub, hsmall, if_true, pure_eq_ok]

/-- A block is left as it is where it has too little to spare, and else cut, and its rest listed. -/
theorem of_carveBack (hcarve : layout.carveBack index need = .ok carved) :
    carved = layout ∨
      ∃ rest parted, layout.split index need = .ok (rest, parted) ∧
        parted.enlist rest = .ok carved := by
  unfold carveBack at hcarve
  rw [Layout.block_eq hblock, ok_bind] at hcarve
  obtain ⟨left, -, hcarve⟩ := bind_eq_ok_iff.mp hcarve
  split_ifs at hcarve
  · exact .inl (Except.ok.inj hcarve).symm
  · obtain ⟨⟨rest, parted⟩, hsplit, henlist⟩ := bind_eq_ok_iff.mp hcarve
    exact .inr ⟨rest, parted, hsplit, henlist⟩

end Inversion

namespace InHand

variable {layout : Layout} {index : Nat} {block : Block} {free freePages need align : Nat}
  (hhand : layout.InHand index block free freePages)

include hhand

theorem ends_of_apart (hapart : Apart layout.blocks.get? ∅) : layout.Ends block := by
  obtain ⟨hshaped, -, hblock, hfree⟩ := hhand
  have hfollows := hshaped.tiled.follows
  unfold Apart at hapart
  unfold Ends
  grind

/-- A block whose payload is not aligned is cut before the last payload that is and leaves room for
what is needed. -/
theorem carveFront_eq_cut (hneed : BlockNeed need align)
    (hroom : need + align + minBlockSize ≤ block.size)
    (hmisaligned : (block.address + headerSize) % align ≠ 0) :
    ∃ offset, layout.carveFront index need align = (do
        let (used, parted) ← layout.split index offset
        return (used, ← parted.enlist index)) ∧
      (block.address + offset + headerSize) % align = 0 ∧ minBlockSize ≤ offset ∧
      need + offset ≤ block.size ∧ blockAlign ∣ offset := by
  have hend := hhand.shaped.end_lt hhand.block_eq
  have hstart := (hhand.shaped.tiled.start hhand.block_eq).1
  have hheader := headerSize_eq
  have hminSize := minBlockSize_eq
  have hneedMin := hneed.min_le
  obtain ⟨offset, hoffset, hmin, hbehind, hdvd⟩ :=
    exists_aligned_offset hneed.min_le hneed.align_pos hneed.align_dvd hstart hroom
  refine ⟨offset, ?_, ?_, hmin, hbehind, hdvd⟩
  · have hadd : Word.add block.address headerSize = .ok (block.address + headerSize) :=
      if_pos (by omega)
    have haddEnd : Word.add block.address block.size = .ok (block.address + block.size) :=
      if_pos hend
    have hsubNeed : Word.sub need headerSize = .ok (need - headerSize) := if_pos (by omega)
    have hsubLast : Word.sub (block.address + block.size) (need - headerSize) =
        .ok (block.address + block.size - (need - headerSize)) := if_pos (by omega)
    have hlast : Word.alignDown (block.address + block.size - (need - headerSize)) align =
        .ok (block.address + offset + headerSize) := by
      rw [← hoffset]
      exact Word.alignDown_eq (by omega) (by omega) hneed.isPowerOfTwo
    have hsubStart : Word.sub (block.address + offset + headerSize) headerSize =
        .ok (block.address + offset) := if_pos (by omega)
    have hsubOffset : Word.sub (block.address + offset) block.address = .ok offset := by
      unfold Word.sub
      rw [if_pos (Nat.le_add_right _ _), Nat.add_sub_cancel_left]
    unfold Layout.carveFront
    simp only [Layout.block_eq hhand.block_eq, ok_bind, hadd, if_neg hmisaligned, haddEnd,
      hsubNeed, hsubLast, hlast, hsubStart, hsubOffset]
  · rw [← hoffset]
    exact Nat.mul_mod_left _ _

/-- A block that is large enough has a part with an aligned payload. -/
theorem carveFront (hapart : Apart layout.blocks.get? ∅) (hneed : BlockNeed need align)
    (hroom : need ≤ block.size)
    (halign : align = blockAlign ∨ need + align + minBlockSize ≤ block.size) :
    ∃ used carved part, layout.carveFront index need align = .ok (used, carved) ∧
      Rearranged layout carved ∧ carved.InHand used part free freePages ∧ carved.Ends part ∧
      need ≤ part.size ∧ (part.address + headerSize) % align = 0 := by
  have hends := hhand.ends_of_apart hapart
  obtain ⟨next, after, hpair⟩ := hhand.neighbours
  obtain ⟨hshaped, -, hblock, hfree⟩ := id hhand
  have hstart := (hshaped.tiled.start hblock).1
  by_cases haligned : (block.address + headerSize) % align = 0
  · have hheader : headerSize ≤ block.size :=
      (by decide : headerSize ≤ minBlockSize).trans (hneed.min_le.trans hroom)
    have hfits := (Nat.add_le_add_left hheader block.address).trans_lt (hshaped.end_lt hblock)
    exact ⟨index, layout, block, carveFront_eq_self hblock hfits haligned need,
      Rearranged.refl layout, hhand, hends, hroom, haligned⟩
  have hwide : need + align + minBlockSize ≤ block.size := by
    refine halign.resolve_left fun heq ↦ haligned ?_
    rw [heq]
    exact Nat.mod_eq_zero_of_dvd (Nat.dvd_add hstart (by decide))
  obtain ⟨offset, hcarve, hpayload, hmin, hbehind, hdvd⟩ :=
    hhand.carveFront_eq_cut hneed hwide haligned
  obtain ⟨rest, blocks, hsplit, hcut, hget, hparted⟩ := hshaped.split hpair hfree
    (Set.mem_singleton index) hmin ((Nat.add_le_add_right hneed.min_le offset).trans hbehind) hdvd
  have hparts := Joinable.cutAt hshaped.tiled hpair hfree hcut.rest_none offset
  have hused := usedBlocks_cutAt hshaped.tiled hpair hcut
  have hspread := hapart.cutAt_rest hshaped.tiled hpair hcut
  rw [← hget] at hparts hused hspread
  rw [Set.pair_comm] at hparted
  obtain ⟨lists, henlist, hlisted⟩ := hparted.enlist hparts.left.block_eq hfree
    (hparts.left.ne hparted.tiled).symm (hparted.spansPage_of_joinable hparts)
  refine ⟨rest, { layout with blocks, lists }, block.restOf index offset, ?_,
    ⟨hused, rfl, rfl, rfl, rfl⟩, ⟨hlisted, hspread, hparts.left.after_eq, rfl⟩,
    ends_of_neighbours hparts.right (hends next after hpair.next_eq hpair.after_eq), ?_, hpayload⟩
  · simp only [hcarve, hsplit, ok_bind, henlist, pure_eq_ok]
  · show need ≤ block.size - offset
    exact Nat.le_sub_of_add_le hbehind

/-- What a block has too much is cut off behind it. -/
theorem carveBack (hends : layout.Ends block) (hneed : BlockNeed need align)
    (hroom : need ≤ block.size) :
    ∃ carved part, layout.carveBack index need = .ok carved ∧ Rearranged layout carved ∧
      carved.InHand index part free freePages ∧ part.address = block.address ∧
      need ≤ part.size ∧ part.size < need + minBlockSize := by
  obtain ⟨next, after, hpair⟩ := hhand.neighbours
  obtain ⟨hshaped, hapart, hblock, hfree⟩ := id hhand
  have hsub : Word.sub block.size need = .ok (block.size - need) := if_pos hroom
  unfold Layout.carveBack
  simp only [Layout.block_eq hblock, ok_bind, hsub]
  split_ifs with hsmall
  · exact ⟨layout, block, rfl, Rearranged.refl layout, hhand, rfl, hroom, by omega⟩
  obtain ⟨rest, blocks, hsplit, hcut, hget, hparted⟩ := hshaped.split hpair hfree
    (Set.mem_singleton index) hneed.min_le (by omega) hneed.dvd
  have hparts := Joinable.cutAt hshaped.tiled hpair hfree hcut.rest_none need
  have hused := usedBlocks_cutAt hshaped.tiled hpair hcut
  have hspread := hapart.cutAt_index hshaped.tiled hpair hcut
    (hends next after hpair.next_eq hpair.after_eq)
  rw [← hget] at hparts hused hspread
  obtain ⟨lists, henlist, hlisted⟩ := hparted.enlist hparts.left.after_eq rfl
    (hparts.left.ne hparted.tiled) (spansPage_of_prev hparts.left.after_eq rfl)
  refine ⟨{ layout with blocks, lists }, block.frontOf rest need, ?_, ⟨hused, rfl, rfl, rfl, rfl⟩,
    ⟨hlisted, hspread, hparts.left.block_eq, hfree⟩, rfl, Nat.le_refl need,
    Nat.lt_add_of_pos_right (by decide)⟩
  simp only [hsplit, ok_bind]
  exact henlist

theorem notMem_usedBlocks (address size : Nat) :
    ⟨index, address, size⟩ ∉ usedBlocks layout.blocks.get? := by
  rintro ⟨other, hother, hused, -⟩
  obtain rfl : other = block := Option.some.inj (hother.symm.trans hhand.block_eq)
  exact absurd (hused.symm.trans hhand.isFree) (by decide)

/-- The block in hand can be taken into use. -/
theorem setFree : ∃ blocks rest, layout.setFree index false = .ok { layout with blocks } ∧
    free = rest + block.size ∧ Shaped { layout with blocks } ∅ rest freePages ∧
    Apart blocks.get? ∅ ∧ blocks.get? index = some { block with isFree := false } ∧
    usedBlocks blocks.get? =
      insert ⟨index, block.address, block.size⟩ (usedBlocks layout.blocks.get?) := by
  obtain ⟨next, after, hpair⟩ := hhand.neighbours
  obtain ⟨hshaped, hapart, -, hfree⟩ := hhand
  obtain ⟨blocks, hset, hget, rest, hrest, hdone⟩ :=
    hshaped.setFree_false hpair hfree (insert_empty_eq index).symm
  refine ⟨blocks, rest, hset, hrest, hdone, ?_, ?_, ?_⟩
  · rw [hget]
    exact hapart.freeAt_false hshaped.tiled hpair
  · rw [hget, freeAt_apply hshaped.tiled hpair, if_pos rfl]
  · rw [hget]
    exact usedBlocks_freeAt_false hshaped.tiled hpair hfree

end InHand

/-- A free block that is taken off its list is in hand. If it was a whole page there is one free
page less. -/
theorem Settled.delist_inHand {layout : Layout} (hsettled : layout.Settled) {index : Nat}
    {block : Block} (hblock : layout.blocks.get? index = some block) (hfree : block.isFree = true) :
    ∃ lists spans rest, layout.delist index = .ok { layout with lists } ∧
      Layout.spansPage { layout with lists } index = .ok spans ∧
      (spans = true ↔ index ∈ spanning layout.blocks.get? layout.pages.get?) ∧
      layout.freePages = rest + spans.toNat ∧
      InHand { layout with lists, freePages := rest } index block layout.free rest := by
  obtain ⟨hshaped, hapart⟩ := hsettled
  obtain ⟨spans, hspans, hmember⟩ := hshaped.spansPage_eq hblock hfree
  obtain ⟨lists, rest, hdelist, hrest, hloose⟩ :=
    hshaped.delist hblock hfree (Set.notMem_empty _) hspans
  rw [insert_empty_eq] at hloose
  exact ⟨lists, spans, rest, hdelist, hspans, hmember, hrest, hloose.with_counts layout.free rest,
    hapart.mono (Set.empty_subset _), hblock, hfree⟩

/-- A block with an aligned payload can be taken out of a free block that is large enough. If that
was a whole page there is one free page less. -/
theorem Settled.take {layout : Layout} (hsettled : layout.Settled) {index need align : Nat}
    {block : Block} (hblock : layout.blocks.get? index = some block) (hfree : block.isFree = true)
    (hneed : BlockNeed need align) (hroom : need ≤ block.size)
    (halign : align = blockAlign ∨ need + align + minBlockSize ≤ block.size) :
    ∃ used part after, layout.take index need align = .ok (used, after) ∧ after.Settled ∧
      after.blocks.get? used = some part ∧
      ⟨used, part.address, part.size⟩ ∉ usedBlocks layout.blocks.get? ∧
      usedBlocks after.blocks.get? =
        insert ⟨used, part.address, part.size⟩ (usedBlocks layout.blocks.get?) ∧
      after.pages = layout.pages ∧ need ≤ part.size ∧ part.size < need + minBlockSize ∧
      (part.address + headerSize) % align = 0 ∧ after.freePages ≤ layout.freePages ∧
      (index ∈ spanning layout.blocks.get? layout.pages.get? →
        after.freePages + 1 = layout.freePages) := by
  obtain ⟨lists, spans, rest, hdelist, hspans, hmember, hrest, hhand⟩ :=
    hsettled.delist_inHand hblock hfree
  obtain ⟨used, front, whole, hcarveFront, hfront, hhandFront, hends, hroomFront, haligned⟩ :=
    hhand.carveFront hsettled.apart hneed hroom halign
  obtain ⟨carved, part, hcarveBack, hback, hhandBack, haddress, hle, hlt⟩ :=
    hhandFront.carveBack hends hneed hroomFront
  obtain ⟨blocks, left, hset, hleft, hdone, hdoneApart, hpart, hused⟩ := hhandBack.setFree
  have hrearranged := hfront.trans hback
  have hfreeBytes : carved.free = layout.free := hrearranged.free
  have hfreePages : carved.freePages = rest := hrearranged.freePages
  have hnew := hhandBack.notMem_usedBlocks part.address part.size
  rw [hrearranged.used] at hused hnew
  refine ⟨used, { part with isFree := false }, { carved with blocks, free := left }, ?_,
    ⟨?_, hdoneApart⟩, hpart, hnew, hused, hrearranged.pages, hle, hlt, ?_, ?_,
    fun hspanning ↦ ?_⟩
  · have hread : Layout.block { carved with blocks } used = .ok { part with isFree := false } :=
      block_eq hpart
    have hsubFree : Word.sub carved.free part.size = .ok left := by
      rw [hfreeBytes, hleft]
      unfold Word.sub
      rw [if_pos (Nat.le_add_left _ _), Nat.add_sub_cancel]
    unfold Layout.take
    simp only [hdelist, ok_bind, hspans, carve]
    cases spans with
    | false =>
      obtain rfl : layout.freePages = rest := hrest
      simp only [Bool.false_eq_true, if_false, pure_eq_ok, ok_bind, hcarveFront, hcarveBack, hset,
        hread, hsubFree]
    | true =>
      have hsub : Word.sub layout.freePages 1 = .ok rest := by
        rw [hrest]
        exact if_pos (Nat.le_add_left 1 rest)
      simp only [if_true, hsub, pure_eq_ok, ok_bind, hcarveFront, hcarveBack, hset, hread, hsubFree]
  · show Shaped { carved with blocks, free := left } ∅ left carved.freePages
    rw [hfreePages]
    exact hdone.with_counts left rest
  · show (part.address + headerSize) % align = 0
    rw [haddress]
    exact haligned
  · show carved.freePages ≤ layout.freePages
    rw [hfreePages, hrest]
    exact Nat.le_add_right _ _
  · show carved.freePages + 1 = layout.freePages
    rw [hfreePages, hrest, hmember.mpr hspanning]
    rfl

end Layout

end KernelMemory
