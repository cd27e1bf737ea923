import KernelMemory.Proofs.Arena
import KernelMemory.Proofs.Heap.Tiling
import Mathlib.Tactic.SplitIfs

/-!
# Edits of a tiling

The ways in which the blocks of a heap change, as edits of the map that holds them: a block becomes
free or not (`freeAt`), a free block is cut in two (`cutAt`), two neighbours are joined (`joinAt`).
Each of them keeps the blocks tiled, and each leaves alone the blocks in use (`usedBlocks`) but for
the one it is about.

On the way some free blocks are loose: they are on no free list. What is counted over the listed
free blocks (`freeBlocks`) and over those of them that span a page (`spanning`) does not change as
long as only loose blocks are cut and joined.
-/

set_option autoImplicit false
set_option relaxedAutoImplicit false

namespace KernelMemory

/-- A block in use, with the place of its tag. -/
structure UsedBlock where
  index : Nat
  address : Nat
  size : Nat

/-- The blocks that are neither free nor sentinels. -/
def usedBlocks (blocks : Nat → Option Block) : Set UsedBlock :=
  {used | ∃ block, blocks used.index = some block ∧ block.isFree = false ∧ block.size ≠ 0 ∧
    block.address = used.address ∧ block.size = used.size}

/-- The free blocks that are not loose, with their sizes. -/
def freeBlocks (blocks : Nat → Option Block) (loose : Set Nat) : Set (Nat × Nat) :=
  {free | free.1 ∉ loose ∧ ∃ block, blocks free.1 = some block ∧ block.isFree = true ∧
    block.size = free.2}

/-- The free blocks that are a whole page. -/
def spanning (blocks : Nat → Option Block) (pages : Nat → Option Page) : Set Nat :=
  {index | ∃ block page, blocks index = some block ∧ block.isFree = true ∧ block.prev = none ∧
    pages block.page = some page ∧ block.size = page.size}

/-- Two neighbours are not both free, but for the given blocks. -/
def Apart (blocks : Nat → Option Block) (near : Set Nat) : Prop :=
  ∀ index block, blocks index = some block → block.isFree = true → block.isPrevFree = true →
    index ∈ near ∨ ∃ prev ∈ near, block.prev = some prev

theorem Apart.mono {blocks : Nat → Option Block} {near more : Set Nat} (hapart : Apart blocks near)
    (hsub : near ⊆ more) : Apart blocks more := by
  intro index block hblock hfree hprevFree
  rcases hapart index block hblock hfree hprevFree with hmem | ⟨prev, hmem, hprev⟩
  · exact Or.inl (hsub hmem)
  · exact Or.inr ⟨prev, hsub hmem, hprev⟩

/-- A block and the block right after it. -/
structure Neighbours (blocks : Nat → Option Block) (index : Nat) (block : Block) (next : Nat)
    (after : Block) : Prop where
  block_eq : blocks index = some block
  next_eq : block.next = some next
  after_eq : blocks next = some after

variable {blocks : Nat → Option Block} {pages : Nat → Option Page} {index next : Nat}
  {block after : Block}

theorem Tiled.neighbours (htiled : Tiled blocks pages) (hblock : blocks index = some block)
    (hsize : block.size ≠ 0) : ∃ next after, Neighbours blocks index block next after := by
  obtain ⟨next, hnext⟩ := htiled.exists_next hblock hsize
  obtain ⟨after, hafter, -⟩ := htiled.follows index block next hblock hnext
  exact ⟨next, after, hblock, hnext, hafter⟩

/-- The block after another one knows of it and starts at its end. -/
theorem Neighbours.follows (hpair : Neighbours blocks index block next after)
    (htiled : Tiled blocks pages) : after.prev = some index ∧ after.page = block.page ∧
      after.address = block.address + block.size ∧ after.isPrevFree = block.isFree := by
  obtain ⟨other, hother, hfollows⟩ :=
    htiled.follows index block next hpair.block_eq hpair.next_eq
  obtain rfl : other = after := Option.some.inj (hother.symm.trans hpair.after_eq)
  exact hfollows

theorem Neighbours.ne (hpair : Neighbours blocks index block next after)
    (htiled : Tiled blocks pages) : next ≠ index := by
  rintro rfl
  obtain ⟨-, -, haddress, -⟩ := hpair.follows htiled
  have hmin := (htiled.inner _ block _ hpair.block_eq hpair.next_eq).1
  obtain rfl : after = block := Option.some.inj (hpair.after_eq.symm.trans hpair.block_eq)
  rw [minBlockSize_eq] at hmin
  omega

/-! ### A block becomes free or not -/

section Free

/-- The blocks after one of them is made free or not, which the next one gets to know. -/
def freeAt (blocks : Nat → Option Block) (index : Nat) (block : Block) (isFree : Bool) :
    Nat → Option Block := fun other ↦
  if other = index then some { block with isFree }
  else if block.next = some other then
    (blocks other).map fun next ↦ { next with isPrevFree := isFree }
  else blocks other

variable (htiled : Tiled blocks pages) (hpair : Neighbours blocks index block next after)

include htiled hpair

theorem freeAt_apply (isFree : Bool) (other : Nat) : freeAt blocks index block isFree other =
    if other = index then some { block with isFree }
    else if other = next then some { after with isPrevFree := isFree }
    else blocks other := by
  have hne := hpair.ne htiled
  obtain ⟨hblock, hnext, hafter⟩ := hpair
  unfold freeAt
  grind

theorem Tiled.freeAt (isFree : Bool) : Tiled (freeAt blocks index block isFree) pages := by
  have hne := hpair.ne htiled
  have happly := freeAt_apply htiled hpair isFree
  have hfollows := htiled.follows
  have hprecedes := htiled.precedes
  obtain ⟨hblock, hnext, hafter⟩ := hpair
  constructor
  · grind
  · grind
  · have hfirst := htiled.first
    grind
  · have hlast := htiled.last
    grind
  · have hinner := htiled.inner
    grind
  · have hend := htiled.end_le
    grind
  · have hsentinel := htiled.sentinel
    grind
  · exact htiled.usable
  · exact htiled.pages_apart

theorem usedBlocks_freeAt_true : usedBlocks (freeAt blocks index block true) =
    usedBlocks blocks \ {⟨index, block.address, block.size⟩} := by
  have happly := freeAt_apply htiled hpair true
  obtain ⟨hblock, hnext, hafter⟩ := hpair
  ext ⟨other, address, size⟩
  simp only [usedBlocks, Set.mem_ofPred_eq, Set.mem_sdiff, Set.mem_singleton_iff,
    UsedBlock.mk.injEq, happly]
  grind

theorem usedBlocks_freeAt_false (hfree : block.isFree = true) :
    usedBlocks (freeAt blocks index block false) =
      insert ⟨index, block.address, block.size⟩ (usedBlocks blocks) := by
  have hne := hpair.ne htiled
  have hsize := htiled.size_of_isFree hpair.block_eq hfree
  have happly := freeAt_apply htiled hpair false
  obtain ⟨hblock, hnext, hafter⟩ := hpair
  ext ⟨other, address, size⟩
  simp only [usedBlocks, Set.mem_ofPred_eq, Set.mem_insert_iff, UsedBlock.mk.injEq, happly]
  grind

/-- The other blocks are free as before. -/
theorem freeBlocks_freeAt (isFree : Bool) (loose : Set Nat) :
    freeBlocks (freeAt blocks index block isFree) (insert index loose) =
      freeBlocks blocks (insert index loose) := by
  have happly := freeAt_apply htiled hpair isFree
  obtain ⟨hblock, hnext, hafter⟩ := hpair
  ext ⟨other, size⟩
  simp only [freeBlocks, Set.mem_ofPred_eq, Set.mem_insert_iff, happly]
  grind

theorem spanning_freeAt (isFree : Bool) (loose : Set Nat) :
    spanning (freeAt blocks index block isFree) pages \ insert index loose =
      spanning blocks pages \ insert index loose := by
  have hne := hpair.ne htiled
  have happly := freeAt_apply htiled hpair isFree
  obtain ⟨hblock, hnext, hafter⟩ := hpair
  ext other
  simp only [spanning, Set.mem_ofPred_eq, Set.mem_sdiff, Set.mem_insert_iff, happly]
  by_cases hother : other = next
  · simp [hother, hafter, hne]
  · grind

theorem Apart.freeAt_true (hapart : Apart blocks ∅) :
    Apart (freeAt blocks index block true) {index} := by
  have hfollows := htiled.follows
  have happly := freeAt_apply htiled hpair true
  obtain ⟨hblock, hnext, hafter⟩ := hpair
  unfold Apart at hapart ⊢
  grind

theorem Apart.freeAt_false (hapart : Apart blocks {index}) :
    Apart (freeAt blocks index block false) ∅ := by
  have hfollows := htiled.follows
  have hprecedes := htiled.precedes
  have happly := freeAt_apply htiled hpair false
  obtain ⟨hblock, hnext, hafter⟩ := hpair
  unfold Apart at hapart ⊢
  grind

end Free

/-! ### A block is cut -/

section Cut

/-- The blocks after one of them is cut at an offset; the rest is a block of its own. -/
def cutAt (blocks : Nat → Option Block) (index : Nat) (block : Block) (rest offset : Nat) :
    Nat → Option Block := fun other ↦
  if other = rest then
    some
      { address := block.address + offset, size := block.size - offset, isFree := true,
        isPrevFree := true, prev := some index, next := block.next, page := block.page }
  else if other = index then some { block with size := offset, next := some rest }
  else if block.next = some other then
    (blocks other).map fun next ↦ { next with prev := some rest, isPrevFree := true }
  else blocks other

/-- A free block can be cut at an offset that leaves two blocks, for one of which an index has to
be vacant. -/
structure Cuttable (blocks : Nat → Option Block) (block : Block) (rest offset : Nat) : Prop where
  isFree : block.isFree = true
  rest_none : blocks rest = none
  min_le : minBlockSize ≤ offset
  room : minBlockSize + offset ≤ block.size
  dvd : blockAlign ∣ offset

variable {rest offset : Nat} (htiled : Tiled blocks pages)
  (hpair : Neighbours blocks index block next after) (hcut : Cuttable blocks block rest offset)

theorem cutAt_of_ne {other : Nat} (hrest : other ≠ rest) (hindex : other ≠ index)
    (hnext : block.next ≠ some other) :
    cutAt blocks index block rest offset other = blocks other := by
  unfold cutAt
  rw [if_neg hrest, if_neg hindex, if_neg hnext]

theorem eq_none_of_cutAt {other : Nat}
    (hnone : cutAt blocks index block rest offset other = none) : blocks other = none := by
  unfold cutAt at hnone
  split_ifs at hnone
  · exact Option.map_eq_none_iff.mp hnone
  · exact hnone

include htiled hpair

theorem cutAt_apply (rest offset other : Nat) : cutAt blocks index block rest offset other =
    if other = rest then
      some
        { address := block.address + offset, size := block.size - offset, isFree := true,
          isPrevFree := true, prev := some index, next := some next, page := block.page }
    else if other = index then some { block with size := offset, next := some rest }
    else if other = next then some { after with prev := some rest, isPrevFree := true }
    else blocks other := by
  have hne := hpair.ne htiled
  obtain ⟨hblock, hnext, hafter⟩ := hpair
  unfold cutAt
  grind

include hcut

theorem Tiled.cutAt : Tiled (cutAt blocks index block rest offset) pages := by
  have hne := hpair.ne htiled
  have happly := cutAt_apply htiled hpair rest offset
  have hfollows := htiled.follows
  have hprecedes := htiled.precedes
  have hmin := minBlockSize_eq
  obtain ⟨hblock, hnext, hafter⟩ := hpair
  obtain ⟨hfree, hrest, hoffset, hroom, hdvd⟩ := hcut
  constructor
  · grind
  · grind
  · have hfirst := htiled.first
    grind
  · have hlast := htiled.last
    grind
  · have hinner := htiled.inner
    have hdvdRest := Nat.dvd_sub (hinner index block next hblock hnext).2 hdvd
    grind
  · have hend := htiled.end_le
    grind
  · have hsentinel := htiled.sentinel
    grind
  · exact htiled.usable
  · exact htiled.pages_apart

theorem usedBlocks_cutAt :
    usedBlocks (cutAt blocks index block rest offset) = usedBlocks blocks := by
  have hne := hpair.ne htiled
  have happly := cutAt_apply htiled hpair rest offset
  obtain ⟨hblock, hnext, hafter⟩ := hpair
  obtain ⟨hfree, hrest, -⟩ := hcut
  ext ⟨other, address, size⟩
  simp only [usedBlocks, Set.mem_ofPred_eq, happly]
  grind

theorem freeBlocks_cutAt {loose : Set Nat} (hloose : index ∈ loose) :
    freeBlocks (cutAt blocks index block rest offset) (insert rest loose) =
      freeBlocks blocks loose := by
  have hne := hpair.ne htiled
  have happly := cutAt_apply htiled hpair rest offset
  obtain ⟨hblock, hnext, hafter⟩ := hpair
  have hrest := hcut.rest_none
  ext ⟨other, size⟩
  simp only [freeBlocks, Set.mem_ofPred_eq, Set.mem_insert_iff, happly]
  grind

theorem spanning_cutAt {loose : Set Nat} (hloose : index ∈ loose) :
    spanning (cutAt blocks index block rest offset) pages \ insert rest loose =
      spanning blocks pages \ loose := by
  have hne := hpair.ne htiled
  have hfollows := htiled.follows
  have happly := cutAt_apply htiled hpair rest offset
  obtain ⟨hblock, hnext, hafter⟩ := hpair
  have hrest := hcut.rest_none
  ext other
  simp only [spanning, Set.mem_ofPred_eq, Set.mem_sdiff, Set.mem_insert_iff, happly]
  grind

/-- The part behind a cut is to be used, so its neighbours do not count. -/
theorem Apart.cutAt_rest (hapart : Apart blocks ∅) :
    Apart (cutAt blocks index block rest offset) {rest} := by
  have hne := hpair.ne htiled
  have hfollows := htiled.follows
  have happly := cutAt_apply htiled hpair rest offset
  obtain ⟨hblock, hnext, hafter⟩ := hpair
  obtain ⟨hfree, hrest, -⟩ := hcut
  unfold Apart at hapart ⊢
  grind

/-- The part before a cut is to be used, so its neighbours do not count. -/
theorem Apart.cutAt_index (hapart : Apart blocks {index}) (hend : after.isFree = false) :
    Apart (cutAt blocks index block rest offset) {index} := by
  have hne := hpair.ne htiled
  have hfollows := htiled.follows
  have happly := cutAt_apply htiled hpair rest offset
  obtain ⟨hblock, hnext, hafter⟩ := hpair
  have hrest := hcut.rest_none
  unfold Apart at hapart ⊢
  grind

end Cut

/-! ### Two blocks are joined -/

section Join

/-- The blocks after one of them is joined with the one right after it. -/
def joinAt (blocks : Nat → Option Block) (index : Nat) (block : Block) (gone : Nat)
    (goneBlock : Block) : Nat → Option Block := fun other ↦
  if other = gone then none
  else if other = index then
    some { block with size := block.size + goneBlock.size, next := goneBlock.next }
  else if goneBlock.next = some other then
    (blocks other).map fun after ↦ { after with prev := some index, isPrevFree := block.isFree }
  else blocks other

/-- Three blocks in a row, the first two of which are free. -/
structure Joinable (blocks : Nat → Option Block) (index : Nat) (block : Block) (gone : Nat)
    (goneBlock : Block) (last : Nat) (lastBlock : Block) : Prop where
  left : Neighbours blocks index block gone goneBlock
  right : Neighbours blocks gone goneBlock last lastBlock
  isFree : block.isFree = true
  gone_isFree : goneBlock.isFree = true

variable {gone last : Nat} {goneBlock lastBlock : Block} (htiled : Tiled blocks pages)
  (hjoin : Joinable blocks index block gone goneBlock last lastBlock)

include htiled hjoin

theorem Joinable.last_ne : last ≠ index := by
  rintro rfl
  have hfollows := htiled.follows
  have hinner := htiled.inner
  have hmin := minBlockSize_eq
  obtain ⟨⟨hblock, hnext, hgone⟩, ⟨-, hgoneNext, hlast⟩, -⟩ := hjoin
  grind

theorem joinAt_apply (other : Nat) : joinAt blocks index block gone goneBlock other =
    if other = gone then none
    else if other = index then
      some { block with size := block.size + goneBlock.size, next := some last }
    else if other = last then
      some { lastBlock with prev := some index, isPrevFree := true }
    else blocks other := by
  have hne := hjoin.left.ne htiled
  have hneRight := hjoin.right.ne htiled
  have hneLast := hjoin.last_ne htiled
  obtain ⟨⟨hblock, hnext, hgone⟩, ⟨-, hgoneNext, hlast⟩, hfree, -⟩ := hjoin
  unfold joinAt
  grind

/-- What two blocks are joined to lies before the block that was behind them. -/
theorem Joinable.neighbours_joinAt : Neighbours (joinAt blocks index block gone goneBlock) index
    { block with size := block.size + goneBlock.size, next := some last } last
    { lastBlock with prev := some index, isPrevFree := true } where
  block_eq := by rw [joinAt_apply htiled hjoin, if_neg (hjoin.left.ne htiled).symm, if_pos rfl]
  next_eq := rfl
  after_eq := by
    rw [joinAt_apply htiled hjoin, if_neg (hjoin.right.ne htiled), if_neg (hjoin.last_ne htiled),
      if_pos rfl]

theorem Tiled.joinAt : Tiled (joinAt blocks index block gone goneBlock) pages := by
  have hne := hjoin.left.ne htiled
  have hneRight := hjoin.right.ne htiled
  have hneLast := hjoin.last_ne htiled
  have happly := joinAt_apply htiled hjoin
  have hfollows := htiled.follows
  have hprecedes := htiled.precedes
  obtain ⟨⟨hblock, hnext, hgone⟩, ⟨-, hgoneNext, hlast⟩, hfree, hgoneFree⟩ := hjoin
  constructor
  · grind
  · grind
  · have hfirst := htiled.first
    grind
  · have hlast := htiled.last
    grind
  · have hinner := htiled.inner
    have hdvd := Nat.dvd_add (hinner index block gone hblock hnext).2
      (hinner gone goneBlock last hgone hgoneNext).2
    grind
  · have hend := htiled.end_le
    grind
  · have hsentinel := htiled.sentinel
    grind
  · exact htiled.usable
  · exact htiled.pages_apart

theorem usedBlocks_joinAt : usedBlocks (KernelMemory.joinAt blocks index block gone goneBlock) =
    usedBlocks blocks := by
  have hne := hjoin.left.ne htiled
  have hneRight := hjoin.right.ne htiled
  have hneLast := hjoin.last_ne htiled
  have happly := joinAt_apply htiled hjoin
  obtain ⟨⟨hblock, hnext, hgone⟩, ⟨-, hgoneNext, hlast⟩, hfree, hgoneFree⟩ := hjoin
  ext ⟨other, address, size⟩
  simp only [usedBlocks, Set.mem_ofPred_eq, happly]
  grind

theorem freeBlocks_joinAt :
    freeBlocks (KernelMemory.joinAt blocks index block gone goneBlock) {index} =
      freeBlocks blocks {index, gone} := by
  have hneRight := hjoin.right.ne htiled
  have hneLast := hjoin.last_ne htiled
  have happly := joinAt_apply htiled hjoin
  obtain ⟨⟨hblock, hnext, hgone⟩, ⟨-, hgoneNext, hlast⟩, -⟩ := hjoin
  ext ⟨other, size⟩
  simp only [freeBlocks, Set.mem_ofPred_eq, Set.mem_insert_iff, Set.mem_singleton_iff, happly]
  grind

theorem spanning_joinAt :
    spanning (KernelMemory.joinAt blocks index block gone goneBlock) pages \ {index} =
      spanning blocks pages \ {index, gone} := by
  have hneRight := hjoin.right.ne htiled
  have hneLast := hjoin.last_ne htiled
  have hfollows := htiled.follows
  have happly := joinAt_apply htiled hjoin
  obtain ⟨⟨hblock, hnext, hgone⟩, ⟨-, hgoneNext, hlast⟩, -⟩ := hjoin
  ext other
  simp only [spanning, Set.mem_ofPred_eq, Set.mem_sdiff, Set.mem_insert_iff, Set.mem_singleton_iff,
    happly]
  grind

/-- The first of two free neighbours does not span its page. -/
theorem Joinable.notMem_spanning : index ∉ spanning blocks pages := by
  obtain ⟨⟨hblock, hnext, hgone⟩, ⟨-, hgoneNext, -⟩, -⟩ := hjoin
  obtain ⟨other, hother, -, hsame, haddress, -⟩ := htiled.follows index block gone hblock hnext
  obtain rfl : other = goneBlock := Option.some.inj (hother.symm.trans hgone)
  have hmin := (htiled.inner gone other last hgone hgoneNext).1
  rw [minBlockSize_eq] at hmin
  rintro ⟨found, page, hfound, -, -, hpage, hsize⟩
  obtain rfl : found = block := Option.some.inj (hfound.symm.trans hblock)
  have hwithin := htiled.within hblock hpage
  have hwithinGone := htiled.within hgone (hsame ▸ hpage)
  omega

theorem Apart.joinAt (hapart : Apart blocks {index, gone}) :
    Apart (joinAt blocks index block gone goneBlock) {index} := by
  have hprecedes := htiled.precedes
  have happly := joinAt_apply htiled hjoin
  obtain ⟨⟨hblock, hnext, hgone⟩, ⟨-, hgoneNext, hlast⟩, -⟩ := hjoin
  unfold Apart at hapart ⊢
  simp only [Set.mem_insert_iff, Set.mem_singleton_iff, exists_eq_or_imp, exists_eq_left]
    at hapart ⊢
  grind

/-- Behind two free blocks there is no third one. -/
theorem Joinable.last_isFree (hapart : Apart blocks {index}) : lastBlock.isFree = false := by
  have hne := hjoin.left.ne htiled
  have hneLast := hjoin.last_ne htiled
  have hfollows := htiled.follows
  obtain ⟨⟨hblock, hnext, hgone⟩, ⟨-, hgoneNext, hlast⟩, hfree, hgoneFree⟩ := hjoin
  unfold Apart at hapart
  grind

/-- Before two free blocks there is no third one. -/
theorem Joinable.isPrevFree (hapart : Apart blocks {gone}) : block.isPrevFree = false := by
  have hne := hjoin.left.ne htiled
  have hneLast := hjoin.last_ne htiled
  have hfollows := htiled.follows
  have hprecedes := htiled.precedes
  obtain ⟨⟨hblock, hnext, hgone⟩, ⟨-, hgoneNext, hlast⟩, hfree, hgoneFree⟩ := hjoin
  unfold Apart at hapart
  grind

end Join

/-! ### Edits that are taken back -/

section Back

/-- The part of a cut block that keeps its index. -/
def Block.frontOf (block : Block) (rest offset : Nat) : Block :=
  { block with size := offset, next := some rest }

/-- The part of a cut block that is a block of its own. -/
def Block.restOf (block : Block) (index offset : Nat) : Block :=
  { address := block.address + offset, size := block.size - offset, isFree := true,
    isPrevFree := true, prev := some index, next := block.next, page := block.page }

variable {rest offset : Nat} (htiled : Tiled blocks pages)
  (hpair : Neighbours blocks index block next after)

include htiled hpair

/-- After a change of its mark a block has the same neighbour, which knows of it. -/
theorem Neighbours.freeAt (isFree : Bool) :
    Neighbours (freeAt blocks index block isFree) index { block with isFree } next
      { after with isPrevFree := isFree } where
  block_eq := by rw [freeAt_apply htiled hpair, if_pos rfl]
  next_eq := hpair.next_eq
  after_eq := by rw [freeAt_apply htiled hpair, if_neg (hpair.ne htiled), if_pos rfl]

/-- A block is made free or not, and then what it was before. -/
theorem freeAt_freeAt {wasFree : Bool} (hfree : block.isFree = wasFree) (isFree : Bool) :
    freeAt (KernelMemory.freeAt blocks index block isFree) index { block with isFree } wasFree =
      blocks := by
  obtain ⟨-, -, -, hprevFree⟩ := hpair.follows htiled
  have hblock : { block with isFree := wasFree } = block := by rw [← hfree]
  have hafter : { after with isPrevFree := wasFree } = after := by rw [← hfree, ← hprevFree]
  funext place
  rw [freeAt_apply (htiled.freeAt hpair isFree) (hpair.freeAt htiled isFree),
    freeAt_apply htiled hpair]
  split_ifs with hindex hnext
  · rw [hindex, hpair.block_eq]
    exact congrArg some hblock
  · rw [hnext, hpair.after_eq]
    exact congrArg some hafter
  · rfl

/-- The parts of a cut block can be joined. -/
theorem Joinable.cutAt (hfree : block.isFree = true) (hnone : blocks rest = none) (offset : Nat) :
    Joinable (cutAt blocks index block rest offset) index (block.frontOf rest offset) rest
      (block.restOf index offset) next { after with prev := some rest, isPrevFree := true } := by
  have happly := cutAt_apply htiled hpair rest offset
  have hindex : index ≠ rest := by
    rintro rfl
    exact absurd (hnone.symm.trans hpair.block_eq) (by simp)
  have hnext : next ≠ rest := by
    rintro rfl
    exact absurd (hnone.symm.trans hpair.after_eq) (by simp)
  refine ⟨⟨?_, rfl, ?_⟩, ⟨?_, hpair.next_eq, ?_⟩, hfree, rfl⟩
  · rw [happly, if_neg hindex, if_pos rfl]
    rfl
  · rw [happly, if_pos rfl, ← hpair.next_eq]
    rfl
  · rw [happly, if_pos rfl, ← hpair.next_eq]
    rfl
  · rw [happly, if_neg hnext, if_neg (hpair.ne htiled), if_pos rfl]

/-- The parts of a cut block are joined to what it was. -/
theorem joinAt_cutAt (hcut : Cuttable blocks block rest offset) :
    joinAt (KernelMemory.cutAt blocks index block rest offset) index
      (block.frontOf rest offset) rest (block.restOf index offset) = blocks := by
  obtain ⟨hprev, -, -, hprevFree⟩ := hpair.follows htiled
  have hroom := hcut.room
  have hsize : offset + (block.size - offset) = block.size := by omega
  have hblock : { block.frontOf rest offset with
      size := offset + (block.size - offset), next := some next } = block := by
    rw [hsize, ← hpair.next_eq]
    rfl
  have hafter : { after with prev := some index, isPrevFree := true } = after := by
    rw [← hprev, ← hcut.isFree, ← hprevFree]
  funext place
  rw [joinAt_apply (htiled.cutAt hpair hcut)
    (Joinable.cutAt htiled hpair hcut.isFree hcut.rest_none offset), cutAt_apply htiled hpair]
  split_ifs with hrest hindex hnext
  · rw [hrest, hcut.rest_none]
  · rw [hindex, hpair.block_eq]
    exact congrArg some hblock
  · rw [hnext, hpair.after_eq]
    exact congrArg some hafter
  · rfl

end Back

end KernelMemory
