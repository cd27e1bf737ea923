import KernelMemory.Proofs.Heap.PageEdits

/-!
# Bytes of blocks

The sizes of all blocks add up to those of the pages, and the sizes of the free ones are counted on
their own. An edit of the blocks changes both sums by what it adds or takes away; a cut and a join
change neither.
-/

set_option autoImplicit false
set_option relaxedAutoImplicit false

namespace KernelMemory

namespace Block

def freeSize (block : Block) : Nat := if block.isFree then block.size else 0

end Block

/-- The weight of a block does not depend on its neighbours, and a sentinel has none. -/
structure Weighs (weight : Block → Nat) : Prop where
  congr : ∀ first second : Block, first.isFree = second.isFree → first.size = second.size →
    weight first = weight second
  sentinel : ∀ block : Block, block.size = 0 → weight block = 0

theorem weighs_size : Weighs Block.size where
  congr := fun _ _ _ hsize ↦ hsize
  sentinel := fun _ hsize ↦ hsize

theorem weighs_freeSize : Weighs Block.freeSize where
  congr := fun _ _ hfree hsize ↦ by rw [Block.freeSize, Block.freeSize, hfree, hsize]
  sentinel := fun _ hsize ↦ by rw [Block.freeSize, hsize, ite_self]

theorem Block.freeSize_le (block : Block) : block.freeSize ≤ block.size := by
  unfold freeSize
  split_ifs
  · exact Nat.le_refl _
  · exact Nat.zero_le _

/-- Pages that lie apart within memory have no more bytes than that. -/
theorem sumOf_pages_lt {pages : Nat → Option Page} (hfinite : (indices pages).Finite)
    (husable : ∀ number page, pages number = some page → page.Usable)
    (hapart : ∀ first second firstPage secondPage, pages first = some firstPage →
      pages second = some secondPage → first ≠ second →
      firstPage.base + firstPage.size ≤ secondPage.base ∨
        secondPage.base + secondPage.size ≤ firstPage.base) :
    sumOf Page.size pages < Word.limit := by
  let span : Nat → Finset Nat := fun number ↦
    (pages number).elim ∅ fun page ↦ Finset.Ico page.base (page.base + page.size)
  have hsum : sumOf Page.size pages = ∑ number ∈ hfinite.toFinset, (span number).card := by
    rw [sumOf_eq_sum hfinite]
    refine Finset.sum_congr rfl fun number _ ↦ ?_
    cases hpage : pages number with
    | none => simp [span, hpage]
    | some page => simp [span, hpage]
  have hdisjoint : Set.PairwiseDisjoint ↑hfinite.toFinset span := by
    intro first _ second _ hne
    rw [Function.onFun, Finset.disjoint_left]
    intro address hfirst hsecond
    cases hpageFirst : pages first with
    | none => simp [span, hpageFirst] at hfirst
    | some page =>
      cases hpageSecond : pages second with
      | none => simp [span, hpageSecond] at hsecond
      | some other =>
        simp only [span, hpageFirst, hpageSecond, Option.elim_some, Finset.mem_Ico]
          at hfirst hsecond
        have hapart := hapart first second page other hpageFirst hpageSecond hne
        omega
  have hsub : hfinite.toFinset.biUnion span ⊆ Finset.Ico 1 Word.limit := by
    intro address hmem
    obtain ⟨number, -, haddress⟩ := Finset.mem_biUnion.mp hmem
    cases hpage : pages number with
    | none => simp [span, hpage] at haddress
    | some page =>
      have hbase := (husable number page hpage).base_pos
      have hend := (husable number page hpage).end_lt
      simp only [span, hpage, Option.elim_some, Finset.mem_Ico] at haddress
      rw [Finset.mem_Ico]
      omega
  have hcard := Finset.card_le_card hsub
  rw [Finset.card_biUnion hdisjoint, ← hsum, Nat.card_Ico] at hcard
  have hpos : 0 < Word.limit := Nat.two_pow_pos 64
  omega

variable {weight : Block → Nat} {blocks : Nat → Option Block} {pages : Nat → Option Page}
  {index next : Nat} {block after : Block} (hfinite : (indices blocks).Finite)
  (hweight : Weighs weight) (htiled : Tiled blocks pages)

include hfinite hweight htiled

theorem sumOf_freeAt (hpair : Neighbours blocks index block next after) (isFree : Bool) :
    sumOf weight (freeAt blocks index block isFree) + weight block =
      sumOf weight blocks + weight { block with isFree } := by
  have hne := hpair.ne htiled
  have hupdate : freeAt blocks index block isFree =
      Function.update (Function.update blocks next (some { after with isPrevFree := isFree })) index
        (some { block with isFree }) := by
    funext other
    rw [freeAt_apply htiled hpair, Function.update_apply, Function.update_apply]
  have hnext : sumOf weight (Function.update blocks next
      (some { after with isPrevFree := isFree })) = sumOf weight blocks :=
    sumOf_replace_of_eq hfinite hpair.after_eq (hweight.congr _ _ rfl rfl)
  rw [hupdate, sumOf_replace (indices_update_finite hfinite _) _ _, hnext]
  rw [Function.update_of_ne hne.symm]
  exact hpair.block_eq

theorem sumOf_cutAt (hpair : Neighbours blocks index block next after) {rest offset : Nat}
    (hcut : Cuttable blocks block rest offset) :
    sumOf weight (cutAt blocks index block rest offset) + weight block =
      sumOf weight blocks + weight { block with size := offset } +
        weight { block with size := block.size - offset } := by
  have hne := hpair.ne htiled
  have hrest := hcut.rest_none
  have hrestIndex : rest ≠ index := by
    rintro rfl
    exact absurd (hrest.symm.trans hpair.block_eq) (by simp)
  have hrestNext : rest ≠ next := by
    rintro rfl
    exact absurd (hrest.symm.trans hpair.after_eq) (by simp)
  let moved : Block := { after with prev := some rest, isPrevFree := true }
  let part : Block := { block with size := offset, next := some rest }
  let new : Block :=
    { address := block.address + offset, size := block.size - offset, isFree := true,
      isPrevFree := true, prev := some index, next := some next, page := block.page }
  have hupdate : cutAt blocks index block rest offset =
      Function.update (Function.update (Function.update blocks next (some moved)) index (some part))
        rest (some new) := by
    funext other
    rw [cutAt_apply htiled hpair, Function.update_apply, Function.update_apply,
      Function.update_apply]
  have hmoved : sumOf weight (Function.update blocks next (some moved)) = sumOf weight blocks :=
    sumOf_replace_of_eq hfinite hpair.after_eq (hweight.congr _ _ rfl rfl)
  have hindex : Function.update blocks next (some moved) index = some block := by
    rw [Function.update_of_ne hne.symm]
    exact hpair.block_eq
  have hfiniteMoved := @indices_update_finite _ _ next hfinite (some moved)
  have hpart := @sumOf_replace _ weight _ _ hfiniteMoved _ hindex part
  have hnone : Function.update (Function.update blocks next (some moved)) index (some part) rest =
      none := by
    rw [Function.update_of_ne hrestIndex, Function.update_of_ne hrestNext]
    exact hrest
  have hfinitePart := @indices_update_finite _ _ index hfiniteMoved (some part)
  have hweightPart : weight part = weight { block with size := offset } := hweight.congr _ _ rfl rfl
  have hweightNew : weight new = weight { block with size := block.size - offset } :=
    hweight.congr _ _ hcut.isFree.symm rfl
  rw [hupdate, sumOf_insert hfinitePart hnone, ← hweightPart, ← hweightNew, ← hmoved]
  omega

theorem sumOf_joinAt {gone last : Nat} {goneBlock lastBlock : Block}
    (hjoin : Joinable blocks index block gone goneBlock last lastBlock) :
    sumOf weight (joinAt blocks index block gone goneBlock) + weight block + weight goneBlock =
      sumOf weight blocks + weight { block with size := block.size + goneBlock.size } := by
  have hne := hjoin.left.ne htiled
  have hneRight := hjoin.right.ne htiled
  have hneLast := hjoin.last_ne htiled
  let moved : Block := { lastBlock with prev := some index, isPrevFree := true }
  let joined : Block := { block with size := block.size + goneBlock.size, next := some last }
  have hupdate : joinAt blocks index block gone goneBlock =
      Function.update (Function.update (Function.update blocks last (some moved)) index
        (some joined)) gone none := by
    funext other
    rw [joinAt_apply htiled hjoin, Function.update_apply, Function.update_apply,
      Function.update_apply]
  have hmoved : sumOf weight (Function.update blocks last (some moved)) = sumOf weight blocks :=
    sumOf_replace_of_eq hfinite hjoin.right.after_eq (hweight.congr _ _ rfl rfl)
  have hindex : Function.update blocks last (some moved) index = some block := by
    rw [Function.update_of_ne hneLast.symm]
    exact hjoin.left.block_eq
  have hfiniteMoved := @indices_update_finite _ _ last hfinite (some moved)
  have hsumJoined := @sumOf_replace _ weight _ _ hfiniteMoved _ hindex joined
  have hgone : Function.update (Function.update blocks last (some moved)) index (some joined) gone =
      some goneBlock := by
    rw [Function.update_of_ne hne, Function.update_of_ne hneRight.symm]
    exact hjoin.left.after_eq
  have hfiniteJoined := @indices_update_finite _ _ index hfiniteMoved (some joined)
  have hsumGone := @sumOf_erase _ weight _ _ hfiniteJoined _ hgone
  have hweightJoined : weight joined = weight { block with size := block.size + goneBlock.size } :=
    hweight.congr _ _ rfl rfl
  rw [hupdate, ← hweightJoined, ← hmoved]
  omega

omit htiled in
theorem sumOf_addPage {number first : Nat} {page : Page}
    (hpage : Addable blocks pages number first page) :
    ∃ new : Block, new.isFree = true ∧ new.size = page.size ∧
      sumOf weight (blocksWith blocks number first page) = sumOf weight blocks + weight new := by
  let new : Block :=
    { address := page.base, size := page.size, isFree := true, isPrevFree := false, prev := none,
      next := some page.sentinel, page := number }
  let sentinel : Block :=
    { address := page.base + page.size, size := 0, isFree := false, isPrevFree := true,
      prev := some first, next := none, page := number }
  have hupdate : blocksWith blocks number first page =
      Function.update (Function.update blocks first (some new)) page.sentinel (some sentinel) := by
    funext other
    rw [Function.update_apply, Function.update_apply]
    rfl
  have hnone : Function.update blocks first (some new) page.sentinel = none := by
    rw [Function.update_of_ne hpage.ne.symm]
    exact hpage.sentinel_none
  refine ⟨new, rfl, rfl, ?_⟩
  rw [hupdate, sumOf_insert (indices_update_finite hfinite _) hnone,
    sumOf_insert hfinite hpage.first_none, hweight.sentinel sentinel rfl, Nat.add_zero]

theorem sumOf_dropPage {first : Nat} {block : Block} {page : Page}
    (hdrop : Droppable blocks pages first block page) :
    sumOf weight (blocksWithout blocks first page.sentinel) + weight block =
      sumOf weight blocks := by
  obtain ⟨hne, -, last, hlast, -, hlastNext, -⟩ := hdrop.sentinel htiled
  have hlastSize := (htiled.last _ _ hlast hlastNext).1
  have hupdate : blocksWithout blocks first page.sentinel =
      Function.update (Function.update blocks first none) page.sentinel none := by
    funext other
    rw [Function.update_apply, Function.update_apply]
    unfold blocksWithout
    split_ifs <;> grind
  have hsome : Function.update blocks first none page.sentinel = some last := by
    rw [Function.update_of_ne hne.symm]
    exact hlast
  have hfirst := @sumOf_erase _ weight _ _ hfinite _ hdrop.block_eq
  have hboth := @sumOf_erase _ weight _ _ (indices_update_finite hfinite none) _ hsome
  rw [hweight.sentinel last hlastSize] at hboth
  rw [hupdate]
  omega

end KernelMemory
