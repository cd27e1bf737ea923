import KernelMemory.Proofs.Heap.Runs
import KernelMemory.Proofs.Heap.Search
import KernelMemory.Proofs.Heap.Survey

/-!
# The search and a scan of all blocks

A plain scan looks at every block and takes the free ones that are large enough (`Layout.scan`).
The search looks at the marks alone. It finds nothing just if the scan does not, and otherwise the
first block of the first list that has one among those whose blocks are all large enough; all else
that the scan takes is on that list or on a later one (`HeapRun.search_agrees_with_scan`).
-/

set_option autoImplicit false
set_option relaxedAutoImplicit false

namespace KernelMemory

namespace Layout

/-- The free blocks of at least the given size, found by a look at every block. -/
def scan (layout : Layout) (size : Nat) : List Nat :=
  let large := layout.blocks.toList.filter fun entry ↦
    entry.2.isFree && decide (size ≤ entry.2.size)
  large.map Prod.fst

theorem mem_scan {layout : Layout} {size index : Nat} : index ∈ layout.scan size ↔
    ∃ block, layout.blocks.get? index = some block ∧ block.isFree = true ∧ size ≤ block.size := by
  simp only [scan, List.mem_map, List.mem_filter, Bool.and_eq_true, decide_eq_true_eq]
  constructor
  · rintro ⟨⟨_, block⟩, ⟨hmem, hfree, hle⟩, rfl⟩
    exact ⟨block, Arena.mem_toList.mp hmem, hfree, hle⟩
  · rintro ⟨block, hblock, hfree, hle⟩
    exact ⟨(index, block), ⟨Arena.mem_toList.mpr hblock, hfree, hle⟩, rfl⟩

/-- The block comes first on the first list that has one, of those of the classes from a given one
on. -/
structure FirstListed (layout : Layout) (start sizeClass : SizeClass) (index : Nat) : Prop where
  inRange : sizeClass.InRange
  le : start.number ≤ sizeClass.number
  head : ∃ rest, layout.lists.members sizeClass = .ok (index :: rest)
  empty : ∀ other : SizeClass, other.InRange → start.number ≤ other.number →
    other.number < sizeClass.number → layout.lists.members other = .ok []

namespace Settled

variable {layout : Layout} (hsettled : layout.Settled) {size rounded index : Nat}

include hsettled

/-- What a search finds comes first on the first list with large blocks. -/
theorem exists_firstListed (hround : roundUp size = .ok rounded) (hrounded : rounded ≤ maxBlockSize)
    (hfind : layout.findFree? size = .ok (some index)) :
    ∃ sizeClass, layout.FirstListed (SizeClass.ofSize rounded) sizeClass index := by
  obtain ⟨-, -, members, hmarked, -⟩ := hsettled.shaped.sorted
  have hrange := SizeClass.ofSize_inRange hrounded
  obtain ⟨start, sizeClass, hstart, hclass, hle, hfirst, hhead⟩ :=
    hmarked.of_find?_eq_some hfind
  obtain rfl := Except.ok.inj (hstart.symm.trans (SizeClass.searchFrom_of_roundUp hround))
  obtain ⟨blocks, hblocks⟩ := hmarked.exists_blocks hclass.number_lt
  rw [hblocks, List.head?_map] at hhead
  obtain ⟨block, hblock, hsame⟩ := Option.map_eq_some_iff.mp hhead
  obtain rfl := FreeLists.nodeOf_injective hsame
  obtain ⟨rest, rfl⟩ := List.head?_eq_some_iff.mp hblock
  refine ⟨sizeClass, hclass, (SizeClass.number_le_iff hrange.slot_lt hclass.slot_lt).mpr hle,
    ⟨rest, hmarked.members_eq hclass hblocks⟩, fun other hother hleOther hlt ↦ ?_⟩
  by_cases hempty : members other.number = []
  · exact hmarked.members_eq hother hempty
  · have hatMost := hfirst other hother
      ((SizeClass.number_le_iff hrange.slot_lt hother.slot_lt).mp hleOther) hempty
    exact absurd ((SizeClass.number_le_iff hclass.slot_lt hother.slot_lt).mpr hatMost) hlt.not_ge

/-- What a scan takes is on a list at or after the one that is searched from. -/
theorem exists_list_of_mem_scan (hmem : index ∈ layout.scan rounded) :
    ∃ (sizeClass : SizeClass) (members : List Nat), sizeClass.InRange ∧
      (SizeClass.ofSize rounded).number ≤ sizeClass.number ∧
      layout.lists.members sizeClass = .ok members ∧ index ∈ members := by
  obtain ⟨block, hblock, hfree, hle⟩ := mem_scan.mp hmem
  have hclass := SizeClass.ofSize_inRange (hsettled.shaped.size_le hblock)
  obtain ⟨members, hmembers⟩ := hsettled.exists_members
  obtain ⟨heq, -, hlisted, -⟩ := hmembers _ hclass
  exact ⟨_, _, hclass, SizeClass.number_mono hle, heq,
    (hlisted index).mpr ⟨block, hblock, hfree, rfl⟩⟩

/-- A search finds nothing just if a scan takes nothing. -/
theorem eq_none_iff_scan_eq_nil (hsize : size ≤ maxBlockSize) (hround : roundUp size = .ok rounded)
    {found : Option Nat} (hfound : layout.findFree? size = .ok found) :
    found = none ↔ layout.scan rounded = [] := by
  rw [List.eq_nil_iff_forall_not_mem]
  constructor
  · rintro rfl index hmem
    obtain ⟨block, hblock, hfree, hle⟩ := mem_scan.mp hmem
    exact (hsettled.lt_of_findFree?_none hround hfound hblock hfree).not_ge hle
  · intro hnone
    cases found with
    | none => rfl
    | some index =>
      exact absurd (mem_scan.mpr (hsettled.rounded_le_of_findFree? hsize hround hfound))
        (hnone index)

end Settled

end Layout

namespace HeapRun

variable {κ ω : Type} [PageSupplier κ ω] {state : HeapState κ ω} {deeds : List HeapDeed}
  {log : List Event} {mayWrite : HeapState κ ω → List Nat → Memory → Prop} {size : Nat}

/-- After every run, a search for any size that a block may have comes to its end. It finds nothing
just if a scan of all blocks takes none of the size rounded up. Otherwise it finds the first block
of the first list that has one, from the class on at which searches for the size start. The scan
takes that block too, and all others that it takes are on that list or on a later one. -/
theorem search_agrees_with_scan (hrun : HeapRun mayWrite state deeds log) (horderly : Orderly log)
    (hsize : size ≤ maxBlockSize) :
    ∃ rounded start found, roundUp size = .ok rounded ∧ SizeClass.searchFrom size = .ok start ∧
      state.heap.layout.findFree? size = .ok found ∧
      (found = none ↔ state.heap.layout.scan rounded = []) ∧
      ∀ index, found = some index → ∃ sizeClass,
        state.heap.layout.FirstListed start sizeClass index ∧
        index ∈ state.heap.layout.scan rounded ∧
        ∀ other ∈ state.heap.layout.scan rounded, ∃ (later : SizeClass) (members : List Nat),
          later.InRange ∧ sizeClass.number ≤ later.number ∧
          state.heap.layout.lists.members later = .ok members ∧ other ∈ members := by
  obtain ⟨config, used, hkeeps, -⟩ := hrun.exists_points horderly
  have hsettled := hkeeps.settled
  obtain ⟨rounded, hround, hrounded⟩ := exists_roundUp_of_le hsize
  obtain ⟨found, hfound⟩ := hsettled.exists_findFree? hround hrounded
  refine ⟨rounded, _, found, hround, SizeClass.searchFrom_of_roundUp hround, hfound,
    hsettled.eq_none_iff_scan_eq_nil hsize hround hfound, ?_⟩
  rintro index rfl
  obtain ⟨sizeClass, hfirst⟩ := hsettled.exists_firstListed hround hrounded hfound
  have hlarge := hsettled.rounded_le_of_findFree? hsize hround hfound
  refine ⟨sizeClass, hfirst, Layout.mem_scan.mpr hlarge, fun other hother ↦ ?_⟩
  obtain ⟨later, members, hlater, hle, hmembers, hmem⟩ :=
    hsettled.exists_list_of_mem_scan hother
  refine ⟨later, members, hlater, ?_, hmembers, hmem⟩
  by_contra hlt
  have hempty := hfirst.empty later hlater hle (Nat.lt_of_not_le hlt)
  obtain rfl := Except.ok.inj (hmembers.symm.trans hempty)
  exact absurd hmem List.not_mem_nil

/-- The level at which the search starts has no free block, and the only one is on a later level. -/
theorem search_agrees_with_scan_of_later_level :
    HeapRun AnyWrite oneTaken.state [.allocate 100 (.ok 4112)] firstLog ∧ Orderly firstLog ∧
    129 ≤ maxBlockSize ∧ roundUp 129 = .ok 144 ∧
    oneTaken.state.heap.layout.findFree? 129 = .ok (some 2) ∧
    oneTaken.state.heap.layout.scan 144 = [2] ∧
    ∃ sizeClass, oneTaken.state.heap.layout.FirstListed ⟨0, 9⟩ sizeClass 2 := by
  have hround : roundUp 129 = .ok 144 := by decide +kernel
  have hstart : SizeClass.searchFrom 129 = .ok ⟨0, 9⟩ := by decide +kernel
  have hfind : oneTaken.state.heap.layout.findFree? 129 = .ok (some 2) := by decide +kernel
  have hscan : oneTaken.state.heap.layout.scan 144 = [2] := by decide +kernel
  refine ⟨oneTaken_run AnyWrite, orderly_firstLog, by decide, hround, hfind, hscan, ?_⟩
  have hsize : 129 ≤ maxBlockSize := by decide
  obtain ⟨rounded, start, found, -, hsearch, hfound, -, hfirst⟩ :=
    search_agrees_with_scan (oneTaken_run AnyWrite) orderly_firstLog hsize
  obtain rfl := Except.ok.inj (hstart.symm.trans hsearch)
  obtain ⟨sizeClass, hlisted, -⟩ := hfirst 2 (Except.ok.inj (hfound.symm.trans hfind))
  exact ⟨sizeClass, hlisted⟩

end HeapRun

end KernelMemory
