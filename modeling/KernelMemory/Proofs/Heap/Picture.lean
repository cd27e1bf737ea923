import KernelMemory.Proofs.Heap.Shape

/-!
# What shows of a layout

The steps of a layout read its blocks, the indices that the next blocks get and the order of the
free lists. These make its picture (`Layout.Shows`), and a step that comes to its end changes it in
one way: a block is made free or not, cut or joined with the next one, put in front of the list for
its size or taken off it.

Two layouts with one picture serve later requests alike. So a step is undone by another one if the
picture is as before, and each of these changes is undone by the opposite one (`Picture.joined_cut`,
`Picture.unlisted_listed`, `Picture.listed_unlisted`, `Picture.freed_freed`).
-/

set_option autoImplicit false
set_option relaxedAutoImplicit false

namespace KernelMemory

/-- The blocks of a layout, the indices that the next blocks get, and the nodes of the blocks on
each free list, in order. -/
structure Picture where
  blocks : Nat → Option Block
  upcoming : Stream' Nat
  members : Nat → List Nat

namespace Picture

/-! ### Changes of a picture -/

def freed (picture : Picture) (index : Nat) (block : Block) (isFree : Bool) : Picture :=
  { picture with blocks := freeAt picture.blocks index block isFree }

/-- A block is cut, and the rest gets the first of the indices. -/
def cut (picture : Picture) (index : Nat) (block : Block) (offset : Nat) : Picture :=
  { picture with
    blocks := cutAt picture.blocks index block picture.upcoming.head offset
    upcoming := picture.upcoming.tail }

/-- A block is joined with the next one, whose index is the first to be used again. -/
def joined (picture : Picture) (index : Nat) (block : Block) (gone : Nat) (goneBlock : Block) :
    Picture :=
  { picture with
    blocks := joinAt picture.blocks index block gone goneBlock
    upcoming := Stream'.cons gone picture.upcoming }

def listed (picture : Picture) (index size : Nat) : Picture :=
  { picture with
    members := Function.update picture.members (SizeClass.ofSize size).number
      (FreeLists.nodeOf index :: picture.members (SizeClass.ofSize size).number) }

def unlisted (picture : Picture) (index size : Nat) : Picture :=
  { picture with
    members := Function.update picture.members (SizeClass.ofSize size).number
      ((picture.members (SizeClass.ofSize size).number).erase (FreeLists.nodeOf index)) }

variable {picture : Picture} {pages : Nat → Option Page} {index next size offset : Nat}
  {block after : Block}

/-! ### Opposite changes -/

theorem freed_freed (htiled : Tiled picture.blocks pages)
    (hpair : Neighbours picture.blocks index block next after) {wasFree : Bool}
    (hfree : block.isFree = wasFree) (isFree : Bool) :
    (picture.freed index block isFree).freed index { block with isFree } wasFree = picture := by
  unfold freed
  dsimp only
  rw [freeAt_freeAt htiled hpair hfree]

theorem joined_cut (htiled : Tiled picture.blocks pages)
    (hpair : Neighbours picture.blocks index block next after)
    (hcut : Cuttable picture.blocks block picture.upcoming.head offset) :
    (picture.cut index block offset).joined index (block.frontOf picture.upcoming.head offset)
      picture.upcoming.head (block.restOf index offset) = picture := by
  unfold joined cut
  dsimp only
  rw [joinAt_cutAt htiled hpair hcut, Stream'.eta]

theorem unlisted_listed (picture : Picture) (index size : Nat) :
    (picture.listed index size).unlisted index size = picture := by
  unfold unlisted listed
  dsimp only
  rw [Function.update_self, List.erase_cons_head, Function.update_idem, Function.update_eq_self]

/-- A block that was the first of its list is put back in front of it. -/
theorem listed_unlisted
    (hhead : (picture.members (SizeClass.ofSize size).number).head? =
      some (FreeLists.nodeOf index)) :
    (picture.unlisted index size).listed index size = picture := by
  obtain ⟨rest, hmembers⟩ := List.head?_eq_some_iff.mp hhead
  unfold listed unlisted
  dsimp only
  rw [Function.update_self, Function.update_idem, hmembers, List.erase_cons_head, ← hmembers,
    Function.update_eq_self]

end Picture

namespace Layout

/-- The picture of a layout. -/
structure Shows (layout : Layout) (picture : Picture) : Prop where
  blocks_eq : layout.blocks.get? = picture.blocks
  awaits : layout.blocks.Awaits picture.upcoming
  marked : layout.lists.Marked picture.members

variable {layout done : Layout} {picture : Picture} {loose : Set Nat} {free freePages : Nat}
  {pages : Nat → Option Page} {index next offset : Nat} {block after : Block}

theorem Shaped.exists_shows (hshaped : layout.Shaped loose free freePages) :
    ∃ picture, layout.Shows picture := by
  obtain ⟨upcoming, hawaits⟩ := hshaped.blocks.exists_awaits
  obtain ⟨members, hmarked, -⟩ := hshaped.sorted.marked
  exact ⟨⟨layout.blocks.get?, upcoming, members⟩, rfl, hawaits, hmarked⟩

/-- A block that is loose, not free or not there is on no list. -/
theorem Shaped.notMem_members (hshaped : layout.Shaped loose free freePages)
    (hshows : layout.Shows picture)
    (hnone : ∀ size, (index, size) ∉ freeBlocks layout.blocks.get? loose) {number : Nat}
    (hnumber : number < classCount) : FreeLists.nodeOf index ∉ picture.members number := by
  obtain ⟨sizeClass, hclass, rfl⟩ := SizeClass.exists_number hnumber
  rw [hshaped.sorted.nodeOf_mem_iff hshows.marked hclass]
  rintro ⟨size, hmem, -⟩
  exact hnone size hmem

/-! ### What steps change -/

namespace Shows

variable (hshows : layout.Shows picture)

include hshows

theorem block_eq (hblock : picture.blocks index = some block) :
    layout.block index = .ok block :=
  Layout.block_eq (hshows.blocks_eq ▸ hblock)

/-- The counts of a layout do not show. -/
theorem with_counts (free freePages : Nat) :
    Shows { layout with free, freePages } picture :=
  ⟨hshows.blocks_eq, hshows.awaits, hshows.marked⟩

theorem setFree {isFree : Bool} (htiled : Tiled picture.blocks pages)
    (hpair : Neighbours picture.blocks index block next after)
    (hset : layout.setFree index isFree = .ok done) :
    done.Shows (picture.freed index block isFree) := by
  obtain ⟨blocks, upcoming, members⟩ := picture
  obtain ⟨rfl, hawaits, hmarked⟩ := hshows
  obtain ⟨_, heq, hget, hafter⟩ := setFree_eq hawaits htiled hpair isFree
  obtain rfl := Except.ok.inj (heq.symm.trans hset)
  exact ⟨hget, hafter, hmarked⟩

theorem split {rest : Nat} (htiled : Tiled picture.blocks pages)
    (hpair : Neighbours picture.blocks index block next after) (hfree : block.isFree = true)
    (hend : block.address + block.size < Word.limit)
    (hsplit : layout.split index offset = .ok (rest, done)) :
    rest = picture.upcoming.head ∧ picture.blocks rest = none ∧
      done.Shows (picture.cut index block offset) := by
  obtain ⟨blocks, upcoming, members⟩ := picture
  obtain ⟨rfl, hawaits, hmarked⟩ := hshows
  obtain ⟨hmin, hroom⟩ := of_split hsplit hpair.block_eq
  obtain ⟨_, heq, hnone, hget, hafter⟩ := split_eq hawaits htiled hpair hfree hmin hroom hend
  obtain ⟨rfl, rfl⟩ := Prod.mk.inj (Except.ok.inj (heq.symm.trans hsplit))
  exact ⟨rfl, hnone, hget, hafter, hmarked⟩

theorem absorb {gone last : Nat} {goneBlock lastBlock : Block}
    (htiled : Tiled picture.blocks pages)
    (hjoin : Joinable picture.blocks index block gone goneBlock last lastBlock)
    (hend : block.size + goneBlock.size < Word.limit)
    (habsorb : layout.absorb index gone = .ok done) :
    done.Shows (picture.joined index block gone goneBlock) := by
  obtain ⟨blocks, upcoming, members⟩ := picture
  obtain ⟨rfl, hawaits, hmarked⟩ := hshows
  obtain ⟨_, heq, hget, hafter⟩ := absorb_eq hawaits htiled hjoin hend
  obtain rfl := Except.ok.inj (heq.symm.trans habsorb)
  exact ⟨hget, hafter, hmarked⟩

theorem enlist (hblock : picture.blocks index = some block) (hsize : block.size ≤ maxBlockSize)
    (hnone : ∀ number < classCount, FreeLists.nodeOf index ∉ picture.members number)
    (henlist : layout.enlist index = .ok done) : done.Shows (picture.listed index block.size) := by
  obtain ⟨record, lists, hrecord, hinsert, rfl⟩ := of_enlist henlist
  obtain rfl : block = record := Except.ok.inj ((hshows.block_eq hblock).symm.trans hrecord)
  obtain ⟨_, heq, hafter⟩ :=
    hshows.marked.insert (SizeClass.ofSize_inRange hsize) rfl hnone
  obtain rfl := Except.ok.inj (heq.symm.trans hinsert)
  exact ⟨hshows.blocks_eq, hshows.awaits, hafter⟩

theorem delist (hblock : picture.blocks index = some block) (hsize : block.size ≤ maxBlockSize)
    (hmem : FreeLists.nodeOf index ∈ picture.members (SizeClass.ofSize block.size).number)
    (hdelist : layout.delist index = .ok done) :
    done.Shows (picture.unlisted index block.size) := by
  obtain ⟨record, lists, hrecord, hremove, rfl⟩ := of_delist hdelist
  obtain rfl : block = record := Except.ok.inj ((hshows.block_eq hblock).symm.trans hrecord)
  obtain ⟨_, heq, hafter⟩ :=
    hshows.marked.remove (SizeClass.ofSize_inRange hsize) rfl hmem
  obtain rfl := Except.ok.inj (heq.symm.trans hremove)
  exact ⟨hshows.blocks_eq, hshows.awaits, hafter⟩

omit hshows in
/-- A block that was listed is taken off its list again. -/
theorem delist_listed (hshows : layout.Shows (picture.listed index block.size))
    (hblock : picture.blocks index = some block) (hsize : block.size ≤ maxBlockSize)
    (hdelist : layout.delist index = .ok done) : done.Shows picture := by
  have hmem : FreeLists.nodeOf index ∈ (picture.listed index block.size).members
      (SizeClass.ofSize block.size).number := by
    show FreeLists.nodeOf index ∈ Function.update picture.members _ _ _
    rw [Function.update_self]
    exact List.mem_cons_self
  have hdone := hshows.delist hblock hsize hmem hdelist
  rwa [Picture.unlisted_listed] at hdone

omit hshows in
/-- The parts of a block that was cut are joined again. -/
theorem absorb_cut (hshows : layout.Shows (picture.cut index block offset))
    (htiled : Tiled picture.blocks pages)
    (hpair : Neighbours picture.blocks index block next after)
    (hcut : Cuttable picture.blocks block picture.upcoming.head offset)
    (hend : block.address + block.size < Word.limit)
    (habsorb : layout.absorb index picture.upcoming.head = .ok done) : done.Shows picture := by
  have hroom := hcut.room
  have hsizes : (block.frontOf picture.upcoming.head offset).size +
      (block.restOf index offset).size < Word.limit := by
    show offset + (block.size - offset) < Word.limit
    omega
  have hdone := hshows.absorb (htiled.cutAt hpair hcut)
    (Joinable.cutAt htiled hpair hcut.isFree hcut.rest_none offset) hsizes habsorb
  rwa [Picture.joined_cut htiled hpair hcut] at hdone

end Shows

end Layout

end KernelMemory
