import KernelMemory.Proofs.Heap.Settled

/-!
# What a search finds

A search looks for a block of the size rounded up to the start of a class. Larger sizes are in the
same class or in later ones, so it finds a block just if there is a free one of that size, and the
block that it finds has it.
-/

set_option autoImplicit false
set_option relaxedAutoImplicit false

namespace KernelMemory

namespace FreeLists

variable {lists : FreeLists}

namespace Sorted

variable {free : Set (Nat × Nat)} (hlists : lists.Sorted free) {need rounded block size : Nat}

include hlists

/-- If nothing is found, all free blocks are smaller than what is looked for. -/
theorem lt_of_find?_none (hround : roundUp need = .ok rounded)
    (hnone : lists.find? need = .ok none) (hmem : (block, size) ∈ free) : size < rounded := by
  obtain ⟨hle, -, members, hmarked, hmembers⟩ := hlists
  by_contra hlarge
  have hclass := SizeClass.ofSize_inRange (hle block size hmem)
  have hnode := (hmembers _ hclass _).mpr ⟨block, size, hmem, rfl, rfl⟩
  obtain ⟨start, found, hstart, hfirst, hhead⟩ := hmarked.of_find? hnone
  obtain rfl := Except.ok.inj (hstart.symm.trans (SizeClass.searchFrom_of_roundUp hround))
  cases hfirst with
  | empty hempty =>
    rw [hempty _ hclass (SizeClass.atMost_ofSize (Nat.le_of_not_lt hlarge))] at hnode
    cases hnode
  | found _ _ hne =>
    exact hne (List.head?_eq_none_iff.mp hhead.symm)

/-- A block that is found has the size that is looked for, rounded up. -/
theorem rounded_le_of_find? (hneed : need ≤ maxBlockSize) (hround : roundUp need = .ok rounded)
    (hfind : lists.find? need = .ok (some block)) :
    ∃ size, (block, size) ∈ free ∧ rounded ≤ size := by
  have hagain : lists.find? rounded = lists.find? need := by
    unfold FreeLists.find? SizeClass.searchFrom
    rw [hround, roundUp_roundUp hneed hround]
  exact hlists.find? (roundUp_le hneed hround) (hagain.trans hfind)

end Sorted

end FreeLists

namespace Layout.Settled

variable {layout : Layout} (hsettled : layout.Settled) {size rounded index : Nat} {block : Block}

include hsettled

theorem lt_of_findFree?_none (hround : roundUp size = .ok rounded)
    (hnone : layout.findFree? size = .ok none) (hblock : layout.blocks.get? index = some block)
    (hfree : block.isFree = true) : block.size < rounded :=
  hsettled.shaped.sorted.lt_of_find?_none hround hnone
    ⟨Set.notMem_empty _, block, hblock, hfree, rfl⟩

theorem rounded_le_of_findFree? (hsize : size ≤ maxBlockSize) (hround : roundUp size = .ok rounded)
    (hfind : layout.findFree? size = .ok (some index)) :
    ∃ block, layout.blocks.get? index = some block ∧ block.isFree = true ∧
      rounded ≤ block.size := by
  obtain ⟨found, ⟨-, block, hblock, hfree, rfl⟩, hle⟩ :=
    hsettled.shaped.sorted.rounded_le_of_find? hsize hround hfind
  exact ⟨block, hblock, hfree, hle⟩

end Layout.Settled

end KernelMemory
