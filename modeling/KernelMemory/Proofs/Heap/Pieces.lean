import KernelMemory.Proofs.Heap.Undo
import KernelMemory.Proofs.Heap.Walks

/-!
# The pieces of a carved block

To carve a free block is to cut it before the part with the aligned payload, behind what is needed
of that part, at both places or at neither. Each cut leaves a part that is to be used and a part
that is listed. As long as the part is not in use the pieces are all free, and a walk along the page
comes to them one after the other where it came to the block before (`Row`), so they tile the block
and know of each other.

A cut behind is told by `Layout.InHand.carved_of_cut_behind`; a cut in front puts one more piece
before those of a carved block (`Layout.InHand.carved_of_cut_in_front`). With the room that an
allocation searches for, a free block is always carved into such pieces
(`Layout.InHand.carve_tiles`).
-/

set_option autoImplicit false
set_option relaxedAutoImplicit false

namespace KernelMemory

/-! ### Blocks in a row -/

/-- Where a block starts, and what it knows of the block before it. -/
def Block.place (block : Block) : LayoutPlace :=
  ⟨block.prev, block.isPrevFree, block.address⟩

/-- From a place of a page on the given blocks lie one behind the other, and then the block `next`,
which starts at the address `stop`. -/
def Row (blocks : Nat → Option Block) (number : Nat) (place : LayoutPlace) (first : Nat)
    (row : List (Nat × Block)) (next stop : Nat) : Prop :=
  ∃ page following behind,
    PageWalk blocks number page place (some first) (row ++ (next, following) :: behind) ∧
      following.address = stop

namespace Row

variable {blocks : Nat → Option Block} {pages : Nat → Option Page}
  {number index next second stop : Nat} {place : LayoutPlace} {block following : Block}
  {row : List (Nat × Block)} (htiled : Tiled blocks pages)

include htiled

theorem nil (hnext : blocks next = some following) :
    Row blocks following.page following.place next [] next following.address := by
  obtain ⟨page, hpage, -⟩ := htiled.end_le next following hnext
  obtain ⟨walk, hwalk⟩ := htiled.exists_walk_from hnext hpage
  obtain ⟨-, -, behind, rfl⟩ := hwalk.of_start hnext
  exact ⟨page, following, behind, hwalk, rfl⟩

theorem cons (hblock : blocks index = some block) (hsecond : block.next = some second)
    (hrow : Row blocks number place second row next stop) :
    Row blocks block.page block.place index ((index, block) :: row) next stop := by
  obtain ⟨page, following, behind, hwalk, hstop⟩ := hrow
  exact ⟨page, following, behind, htiled.walk_step hblock hsecond hwalk, hstop⟩

end Row

/-- The rest of a cut block ends where the block did. -/
theorem Block.end_restOf {block : Block} (index : Nat) {offset : Nat}
    (hroom : minBlockSize + offset ≤ block.size) :
    (block.restOf index offset).address + (block.restOf index offset).size =
      block.address + block.size := by
  show block.address + offset + (block.size - offset) = block.address + block.size
  omega

namespace Layout

/-- A block is on the list of the given class and on no other. -/
def OnListOf (layout : Layout) (index : Nat) (sizeClass : SizeClass) : Prop :=
  sizeClass.InRange ∧ ∀ other : SizeClass, other.InRange → ∃ members,
    layout.lists.members other = .ok members ∧ (index ∈ members ↔ other = sizeClass)

/-- The part of a free block that is to be used, and what is left before and behind it. -/
structure Pieces where
  front : Option (Nat × Block)
  used : Nat
  part : Block
  tail : Option (Nat × Block)

/-- The pieces by ascending address. -/
def Pieces.toList (pieces : Pieces) : List (Nat × Block) :=
  pieces.front.toList ++ (pieces.used, pieces.part) :: pieces.tail.toList

/-- The pieces that are left. -/
def Pieces.rests (pieces : Pieces) : List (Nat × Block) :=
  pieces.front.toList ++ pieces.tail.toList

/-- A free block became the given pieces, of which one is to be used. -/
structure Carved (layout after : Layout) (index : Nat) (block : Block) (need align : Nat)
    (pieces : Pieces) : Prop where
  payload : (pieces.part.address + headerSize) % align = 0
  size : pieces.part.size = need ∨ pieces.part.size = need + blockAlign
  isFree : ∀ piece ∈ pieces.toList, piece.2.isFree = true
  rests : ∀ piece ∈ pieces.rests, minBlockSize ≤ piece.2.size ∧ blockAlign ∣ piece.2.size ∧
    after.OnListOf piece.1 (SizeClass.ofSize piece.2.size)
  /-- The pieces take the place of the block, up to the block after it. -/
  row : ∃ next, block.next = some next ∧ Row after.blocks.get? block.page block.place index
    pieces.toList next (block.address + block.size)
  /-- The pieces are the block, cut down, and new blocks. -/
  fresh : ∀ piece ∈ pieces.toList, piece.1 = index ∨ layout.blocks.get? piece.1 = none
  others : ∀ other, other ∉ pieces.toList.map Prod.fst → block.next ≠ some other →
    after.blocks.get? other = layout.blocks.get? other

/-- A block that is neither cut nor behind the cut one is as it was. -/
theorem Carved.block_kept {layout after : Layout} {index other need align : Nat}
    {block record : Block} {pieces : Pieces}
    (hcarved : Carved layout after index block need align pieces)
    (hother : layout.blocks.get? other = some record) (hindex : other ≠ index)
    (hnext : block.next ≠ some other) : after.blocks.get? other = some record := by
  rw [hcarved.others other ?_ hnext, hother]
  intro hmem
  obtain ⟨piece, hpiece, rfl⟩ := List.mem_map.mp hmem
  rcases hcarved.fresh piece hpiece with heq | hvacant
  · exact hindex heq
  · rw [hother] at hvacant
    cases hvacant

/-! ### The pieces that are left -/

variable {layout : Layout} {index free freePages : Nat} {block : Block}

/-- Beside the block in hand all free blocks are large enough and listed. -/
theorem InHand.of_other (hhand : layout.InHand index block free freePages) {other : Nat}
    {rest : Block} (hrest : layout.blocks.get? other = some rest) (hfree : rest.isFree = true)
    (hne : other ≠ index) :
    minBlockSize ≤ rest.size ∧ blockAlign ∣ rest.size ∧
      layout.OnListOf other (SizeClass.ofSize rest.size) := by
  have htiled := hhand.shaped.tiled
  have hsorted := hhand.shaped.sorted
  obtain ⟨next, hnext⟩ := htiled.exists_next hrest (htiled.size_of_isFree hrest hfree)
  obtain ⟨hmin, hdvd⟩ := htiled.inner other rest next hrest hnext
  have hmem : (other, rest.size) ∈ freeBlocks layout.blocks.get? {index} :=
    ⟨hne, rest, hrest, hfree, rfl⟩
  obtain ⟨members, hmembers⟩ := hsorted.exists_members
  refine ⟨hmin, hdvd, SizeClass.ofSize_inRange (hhand.shaped.size_le hrest),
    fun sizeClass hclass ↦ ?_⟩
  obtain ⟨heq, -, hiff, -⟩ := hmembers sizeClass hclass
  refine ⟨members sizeClass, heq, (hiff other).trans ?_⟩
  constructor
  · rintro ⟨size, hsize, rfl⟩
    rw [hsorted.unique other size rest.size hsize hmem]
  · rintro rfl
    exact ⟨rest.size, hmem, rfl⟩

theorem Pieces.rests_of_row {pieces : Pieces} {number first next stop : Nat} {place : LayoutPlace}
    (hhand : layout.InHand pieces.used pieces.part free freePages)
    (hfree : ∀ piece ∈ pieces.toList, piece.2.isFree = true)
    (hrow : Row layout.blocks.get? number place first pieces.toList next stop) :
    ∀ piece ∈ pieces.rests, minBlockSize ≤ piece.2.size ∧ blockAlign ∣ piece.2.size ∧
      layout.OnListOf piece.1 (SizeClass.ofSize piece.2.size) := by
  obtain ⟨page, following, behind, hwalk, -⟩ := hrow
  have hused : pieces.used ∉ pieces.rests.map Prod.fst := by
    have hnodup := hwalk.nodup hhand.shaped.tiled
    rw [List.map_append] at hnodup
    have hpieces := (List.nodup_append.mp hnodup).1
    unfold Pieces.toList at hpieces
    rw [List.map_append, List.map_cons, List.nodup_middle, List.nodup_cons,
      ← List.map_append] at hpieces
    exact hpieces.1
  rintro ⟨other, rest⟩ hrest
  have hmem : (other, rest) ∈ pieces.toList := by
    simp only [Pieces.rests, Pieces.toList, List.mem_append, List.mem_cons] at hrest ⊢
    tauto
  have hne : other ≠ pieces.used := by
    rintro rfl
    exact hused (List.mem_map_of_mem hrest)
  exact hhand.of_other (hwalk.of_mem (List.mem_append_left _ hmem)).1 (hfree _ hmem) hne

namespace InHand

variable {need align : Nat} (hhand : layout.InHand index block free freePages)

include hhand

/-! ### The cut behind -/

/-- A block with an aligned payload and little to spare is used as it is. -/
theorem carved_of_self (hdvd : blockAlign ∣ need)
    (haligned : (block.address + headerSize) % align = 0) (hle : need ≤ block.size)
    (hlt : block.size < need + minBlockSize) :
    Carved layout layout index block need align ⟨none, index, block, none⟩ := by
  obtain ⟨next, following, hpair⟩ := hhand.neighbours
  have htiled := hhand.shaped.tiled
  have hsize : block.size = need ∨ block.size = need + blockAlign := by
    have hsizeDvd := htiled.size_dvd hhand.block_eq
    rw [blockAlign_eq] at hsizeDvd hdvd ⊢
    rw [minBlockSize_eq] at hlt
    omega
  obtain ⟨-, -, hstop, -⟩ := hpair.follows htiled
  have hrow : Row layout.blocks.get? block.page block.place index [(index, block)] next
      (block.address + block.size) := by
    rw [← hstop]
    exact (Row.nil htiled hpair.after_eq).cons htiled hhand.block_eq hpair.next_eq
  have hisFree : ∀ piece ∈ [(index, block)], piece.2.isFree = true :=
    List.forall_mem_singleton.mpr hhand.isFree
  exact
    { payload := haligned
      size := hsize
      isFree := hisFree
      rests := fun _ hpiece ↦ absurd hpiece List.not_mem_nil
      row := ⟨next, hpair.next_eq, hrow⟩
      fresh := List.forall_mem_singleton.mpr (.inl rfl)
      others := fun _ _ _ ↦ rfl }

/-- A block with an aligned payload is used up to where it is cut, and the rest is left. -/
theorem carved_of_cut_behind {rest : Nat} {parted after : Layout}
    (hsplit : layout.split index need = .ok (rest, parted))
    (henlist : parted.enlist rest = .ok after)
    (hhandPart : after.InHand index (block.frontOf rest need) free freePages)
    (haligned : (block.address + headerSize) % align = 0) :
    Carved layout after index block need align
      ⟨none, index, block.frontOf rest need, some (rest, block.restOf index need)⟩ := by
  obtain ⟨next, following, hpair⟩ := hhand.neighbours
  have htiled := hhand.shaped.tiled
  have htiledAfter := hhandPart.shaped.tiled
  obtain ⟨hnone, hget⟩ := hhand.blocks_of_cut hsplit henlist
  have hjoin := Joinable.cutAt htiled hpair hhand.isFree hnone need
  rw [← hget] at hjoin
  obtain ⟨hleft, hright, -, -⟩ := hjoin
  obtain ⟨-, -, hstop, -⟩ := hpair.follows htiled
  let pieces : Pieces :=
    ⟨none, index, block.frontOf rest need, some (rest, block.restOf index need)⟩
  have hrow : Row after.blocks.get? block.page block.place index pieces.toList next
      (block.address + block.size) := by
    rw [← hstop]
    exact ((Row.nil htiledAfter hright.after_eq).cons htiledAfter hright.block_eq
      hright.next_eq).cons htiledAfter hleft.block_eq hleft.next_eq
  have hisFree : ∀ piece ∈ pieces.toList, piece.2.isFree = true :=
    List.forall_mem_cons.mpr ⟨hhand.isFree, List.forall_mem_singleton.mpr rfl⟩
  exact
    { payload := haligned
      size := .inl rfl
      isFree := hisFree
      rests := Pieces.rests_of_row hhandPart hisFree hrow
      row := ⟨next, hpair.next_eq, hrow⟩
      fresh := List.forall_mem_cons.mpr ⟨.inl rfl, List.forall_mem_singleton.mpr (.inr hnone)⟩
      others := by
        intro other hother hnext
        obtain ⟨hindex, hrest⟩ := List.forall_mem_cons.mp (List.forall_mem_ne.mpr hother)
        rw [hget]
        exact cutAt_of_ne (List.forall_mem_singleton.mp hrest) hindex hnext }

theorem carveBack_carved (hends : layout.Ends block) (hneed : BlockNeed need align)
    (hroom : need ≤ block.size) (haligned : (block.address + headerSize) % align = 0) :
    ∃ (part : Block) (tail : Option (Nat × Block)) (after : Layout),
      layout.carveBack index need = .ok after ∧
      Carved layout after index block need align ⟨none, index, part, tail⟩ ∧
      Rearranged layout after ∧ after.InHand index part free freePages := by
  obtain ⟨after, part, hback, hrearranged, hhandPart, -, hle, hlt⟩ :=
    hhand.carveBack hends hneed hroom
  rcases of_carveBack hhand.block_eq hback with rfl | ⟨rest, parted, hsplit, henlist⟩
  · obtain rfl : part = block := Option.some.inj (hhandPart.block_eq.symm.trans hhand.block_eq)
    exact ⟨part, none, after, hback, hhand.carved_of_self hneed.dvd haligned hle hlt, hrearranged,
      hhandPart⟩
  · obtain rfl : part = block.frontOf rest need :=
      Option.some.inj (hhandPart.block_eq.symm.trans (hhand.parts_of_cut hsplit henlist).1)
    exact ⟨_, some (rest, block.restOf index need), after, hback,
      hhand.carved_of_cut_behind hsplit henlist hhandPart haligned, hrearranged, hhandPart⟩

/-! ### The cut in front -/

/-- The front of a block that was cut for its alignment stays as it is when the rest is carved. -/
theorem carved_of_cut_in_front {offset used : Nat} {parted middle after : Layout}
    {whole part : Block} {tail : Option (Nat × Block)}
    (hsplit : layout.split index offset = .ok (used, parted))
    (henlist : parted.enlist index = .ok middle)
    (hhandMiddle : middle.InHand used whole free freePages)
    (hcarved : Carved middle after used whole need align ⟨none, used, part, tail⟩)
    (hhandPart : after.InHand used part free freePages) :
    Carved layout after index block need align
      ⟨some (index, block.frontOf used offset), used, part, tail⟩ := by
  obtain ⟨next, following, hpair⟩ := hhand.neighbours
  obtain ⟨hnone, hget⟩ := hhand.blocks_of_cut hsplit henlist
  obtain ⟨hfront, hwhole⟩ := hhand.parts_of_cut hsplit henlist
  obtain rfl : whole = block.restOf index offset :=
    Option.some.inj (hhandMiddle.block_eq.symm.trans hwhole)
  -- the second cut is about the part that is used, so the front is as the first one left it
  have hfrontAfter : after.blocks.get? index = some (block.frontOf used offset) := by
    refine hcarved.block_kept hfront ?_ fun heq ↦ ?_
    · rintro rfl
      exact absurd (hnone.symm.trans hhand.block_eq) (by simp)
    · exact hpair.ne hhand.shaped.tiled (Option.some.inj (hpair.next_eq.symm.trans heq))
  obtain ⟨hpayload, hsize, hisFreeBehind, -, ⟨last, hlast, hrowBehind⟩, hfresh, hothers⟩ := hcarved
  let pieces : Pieces := ⟨some (index, block.frontOf used offset), used, part, tail⟩
  have hrow : Row after.blocks.get? block.page block.place index pieces.toList last
      (block.address + block.size) := by
    rw [Block.end_restOf index (of_split hsplit hhand.block_eq).2] at hrowBehind
    exact hrowBehind.cons hhandPart.shaped.tiled hfrontAfter rfl
  have hisFree : ∀ piece ∈ pieces.toList, piece.2.isFree = true :=
    List.forall_mem_cons.mpr ⟨hhand.isFree, hisFreeBehind⟩
  exact
    { payload := hpayload
      size := hsize
      isFree := hisFree
      rests := Pieces.rests_of_row hhandPart hisFree hrow
      row := ⟨last, hlast, hrow⟩
      fresh := by
        refine List.forall_mem_cons.mpr ⟨.inl rfl, fun piece hpiece ↦ .inr ?_⟩
        rcases hfresh piece hpiece with hused | hvacant
        · rw [hused]
          exact hnone
        · rw [hget] at hvacant
          exact eq_none_of_cutAt hvacant
      others := by
        intro other hother hnext
        obtain ⟨hotherIndex, hotherBehind⟩ := not_or.mp (List.mem_cons.not.mp hother)
        have hotherUsed : other ≠ used := fun heq ↦ hotherBehind (heq ▸ List.mem_cons_self)
        rw [hothers other hotherBehind hnext, hget]
        exact cutAt_of_ne hotherUsed hotherIndex hnext }

/-- A free block with no free neighbour that is large enough is carved without a fault, and the
pieces take its place. -/
theorem carve_tiles (hapart : Apart layout.blocks.get? ∅) (hmin : minBlockSize ≤ need)
    (hdvd : blockAlign ∣ need) (hpower : Word.isPowerOfTwo align = true)
    (halign : blockAlign ≤ align)
    (hroom : if align = blockAlign then need ≤ block.size
      else need + align + minBlockSize ≤ block.size) :
    ∃ (pieces : Pieces) (after : Layout),
      layout.carve index need align = .ok (pieces.used, after) ∧
      Carved layout after index block need align pieces ∧ Rearranged layout after ∧
      after.InHand pieces.used pieces.part free freePages := by
  have hneed : BlockNeed need align := ⟨hmin, hdvd, hpower, blockAlign_dvd_of_le hpower halign⟩
  have hroomBlock : need ≤ block.size := by
    split_ifs at hroom <;> omega
  have halignRoom : align = blockAlign ∨ need + align + minBlockSize ≤ block.size := by
    split_ifs at hroom with heq
    · exact .inl heq
    · exact .inr hroom
  obtain ⟨used, middle, whole, hfront, hrearranged, hhandMiddle, hends, hroomWhole, haligned⟩ :=
    hhand.carveFront hapart hneed hroomBlock halignRoom
  obtain ⟨part, tail, after, hback, hcarved, hrearrangedBack, hhandPart⟩ :=
    hhandMiddle.carveBack_carved hends hneed hroomWhole haligned
  have hcarve : layout.carve index need align = .ok (used, after) := by
    unfold Layout.carve
    simp only [hfront, ok_bind, hback, pure_eq_ok]
  have hboth := hrearranged.trans hrearrangedBack
  rcases of_carveFront hhand.block_eq hfront with ⟨rfl, rfl⟩ | ⟨offset, parted, hsplit, henlist⟩
  · obtain rfl : whole = block := Option.some.inj (hhandMiddle.block_eq.symm.trans hhand.block_eq)
    exact ⟨⟨none, used, part, tail⟩, after, hcarve, hcarved, hboth, hhandPart⟩
  · exact ⟨⟨some (index, block.frontOf used offset), used, part, tail⟩, after, hcarve,
      hhand.carved_of_cut_in_front hsplit henlist hhandMiddle hcarved hhandPart, hboth, hhandPart⟩

end InHand

/-- The block of a page that has no other is carved for a payload at a multiple of 64. -/
theorem InHand.carve_tiles_of_page :
    ∃ (grown layout after : Layout) (index : Nat) (block : Block) (pieces : Pieces),
      Layout.addPage {} 4096 4096 = .ok grown ∧ grown.delist index = .ok layout ∧
      layout.blocks.get? index = some block ∧ Apart layout.blocks.get? ∅ ∧ block.size = 4096 ∧
      layout.carve index 48 64 = .ok (pieces.used, after) ∧
      Carved layout after index block 48 64 pieces := by
  have husable : Page.Usable ⟨4096, 4096, 0⟩ := by
    constructor <;> decide
  obtain ⟨_, _, grown, hadd, hsettled, -, -, -, -, -, hgrows⟩ :=
    settled_empty.addPage husable fun _ _ hpage ↦ by cases hpage
  obtain ⟨index, block, hblock, hfree, hsize⟩ := hgrows.fresh
  obtain ⟨spans, hspans, -⟩ := hsettled.shaped.spansPage_eq hblock hfree
  obtain ⟨lists, -, hdelist, -, -⟩ :=
    hsettled.shaped.delist hblock hfree (Set.notMem_empty _) hspans
  obtain ⟨hapart, rest, hhand⟩ :=
    hsettled.inHand_of_delist hblock hfree hdelist grown.freePages
  have hpower : Word.isPowerOfTwo 64 = true := by decide
  have hroom : if 64 = blockAlign then 48 ≤ block.size
      else 48 + 64 + minBlockSize ≤ block.size := by
    rw [hsize]
    decide
  obtain ⟨pieces, after, hcarve, hcarved, -⟩ :=
    hhand.carve_tiles hapart (by decide) (by decide) hpower (by decide) hroom
  exact ⟨grown, _, after, index, block, pieces, hadd, hdelist, hblock, hapart, hsize, hcarve,
    hcarved⟩

end Layout

end KernelMemory
