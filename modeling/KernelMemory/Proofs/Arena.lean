import KernelMemory.Arena
import KernelMemory.Proofs.Steps
import Mathlib.Algebra.BigOperators.Finprod
import Mathlib.Data.Set.Card
import Mathlib.Order.Interval.Finset.Nat

/-!
# Arenas as maps

An arena is the map from the indices to its records: `Arena.get?` reads it, and each operation
changes it at one index. An insertion finds an index without a record as long as the chain of
vacant slots runs through all holes, each once (`Arena.Chained`), which the operations keep.

A weighted sum over the records (`sumOf`) changes with the weight of the one record that an
operation adds, drops or replaces (`sumOf_update`).
-/

set_option autoImplicit false
set_option relaxedAutoImplicit false

namespace KernelMemory

variable {α : Type}

/-! ### Sums over maps -/

/-- The sum of the weights of all records of a map. -/
noncomputable def sumOf (weight : α → Nat) (map : Nat → Option α) : Nat :=
  ∑ᶠ index, (map index).elim 0 weight

/-- The indices that have a record. -/
def indices (map : Nat → Option α) : Set Nat := {index | map index ≠ none}

section Sums

variable {weight : α → Nat} {map after : Nat → Option α} {index : Nat}

theorem support_subset_indices (weight : α → Nat) (map : Nat → Option α) :
    Function.support (fun index ↦ (map index).elim 0 weight) ⊆ indices map := by
  intro index hindex hnone
  rw [Function.mem_support, hnone] at hindex
  exact hindex rfl

theorem indices_update_some (record : α) :
    indices (Function.update map index (some record)) = insert index (indices map) := by
  ext other
  simp only [indices, Set.mem_ofPred_eq, Set.mem_insert_iff, Function.update_apply]
  by_cases hother : other = index <;> simp [hother]

theorem indices_update_none :
    indices (Function.update map index none) = indices map \ {index} := by
  ext other
  simp only [indices, Set.mem_ofPred_eq, Set.mem_sdiff, Set.mem_singleton_iff,
    Function.update_apply]
  by_cases hother : other = index <;> simp [hother]

theorem indices_update_finite (hmap : (indices map).Finite) (entry : Option α) :
    (indices (Function.update map index entry)).Finite := by
  cases entry with
  | none =>
    rw [indices_update_none]
    exact hmap.sdiff
  | some record =>
    rw [indices_update_some]
    exact hmap.insert index

/-- Two maps that differ at one index alone differ in their sums by the weights there. -/
theorem sumOf_add_eq (hmap : (indices map).Finite) (hafter : (indices after).Finite)
    (hagree : ∀ other, other ≠ index → after other = map other) :
    sumOf weight after + (map index).elim 0 weight =
      sumOf weight map + (after index).elim 0 weight := by
  have hfinite : (insert index (indices map ∪ indices after)).Finite :=
    (hmap.union hafter).insert index
  have hmem : index ∈ hfinite.toFinset := hfinite.mem_toFinset.mpr (Set.mem_insert _ _)
  have hsumMap : sumOf weight map = ∑ other ∈ hfinite.toFinset, (map other).elim 0 weight := by
    apply finsum_eq_sum_of_support_subset
    rw [hfinite.coe_toFinset]
    exact (support_subset_indices weight map).trans
      (Set.subset_union_left.trans (Set.subset_insert _ _))
  have hsumAfter : sumOf weight after =
      ∑ other ∈ hfinite.toFinset, (after other).elim 0 weight := by
    apply finsum_eq_sum_of_support_subset
    rw [hfinite.coe_toFinset]
    exact (support_subset_indices weight after).trans
      (Set.subset_union_right.trans (Set.subset_insert _ _))
  have hrest : ∑ other ∈ hfinite.toFinset.erase index, (after other).elim 0 weight =
      ∑ other ∈ hfinite.toFinset.erase index, (map other).elim 0 weight := by
    refine Finset.sum_congr rfl fun other hother ↦ ?_
    rw [hagree other (Finset.ne_of_mem_erase hother)]
  rw [hsumMap, hsumAfter, ← Finset.add_sum_erase _ _ hmem, ← Finset.add_sum_erase _ _ hmem, hrest]
  omega

theorem sumOf_update (hmap : (indices map).Finite) (entry : Option α) :
    sumOf weight (Function.update map index entry) + (map index).elim 0 weight =
      sumOf weight map + entry.elim 0 weight := by
  have hsum := @sumOf_add_eq α weight map (Function.update map index entry) index hmap
    (indices_update_finite hmap entry) fun other hother ↦ Function.update_of_ne hother ..
  rwa [Function.update_self] at hsum

theorem sumOf_replace (hmap : (indices map).Finite) {old : α} (hold : map index = some old)
    (new : α) : sumOf weight (Function.update map index (some new)) + weight old =
      sumOf weight map + weight new := by
  have hsum := @sumOf_update α weight map index hmap (some new)
  rwa [hold] at hsum

theorem sumOf_replace_of_eq (hmap : (indices map).Finite) {old new : α}
    (hold : map index = some old) (hweight : weight new = weight old) :
    sumOf weight (Function.update map index (some new)) = sumOf weight map := by
  have hsum := @sumOf_replace α weight map index hmap old hold new
  omega

theorem sumOf_insert (hmap : (indices map).Finite) (hnone : map index = none) (new : α) :
    sumOf weight (Function.update map index (some new)) = sumOf weight map + weight new := by
  have hsum := @sumOf_update α weight map index hmap (some new)
  rwa [hnone] at hsum

theorem sumOf_erase (hmap : (indices map).Finite) {old : α} (hold : map index = some old) :
    sumOf weight (Function.update map index none) + weight old = sumOf weight map := by
  have hsum := @sumOf_update α weight map index hmap none
  rwa [hold] at hsum

/-- The sum runs over any finite set that has all indices. -/
theorem sumOf_eq_sum (hmap : (indices map).Finite) :
    sumOf weight map = ∑ other ∈ hmap.toFinset, (map other).elim 0 weight := by
  apply finsum_eq_sum_of_support_subset
  rw [hmap.coe_toFinset]
  exact support_subset_indices weight map

/-- Records that weigh something are no more than the sum. -/
theorem ncard_le_sumOf (hmap : (indices map).Finite) {set : Set Nat}
    (hset : ∀ index ∈ set, ∃ record, map index = some record ∧ 0 < weight record) :
    set.ncard ≤ sumOf weight map := by
  have hsubset : set ⊆ indices map := by
    intro index hindex hnone
    obtain ⟨record, hrecord, -⟩ := hset index hindex
    exact absurd (hnone.symm.trans hrecord) (by simp)
  have hfinite := hmap.subset hsubset
  rw [Set.ncard_eq_toFinset_card set hfinite, Finset.card_eq_sum_ones, sumOf_eq_sum hmap]
  calc ∑ index ∈ hfinite.toFinset, 1
      ≤ ∑ index ∈ hfinite.toFinset, (map index).elim 0 weight := by
        refine Finset.sum_le_sum fun index hindex ↦ ?_
        obtain ⟨record, hrecord, hpos⟩ := hset index (hfinite.mem_toFinset.mp hindex)
        rw [hrecord]
        exact hpos
    _ ≤ ∑ index ∈ hmap.toFinset, (map index).elim 0 weight :=
        Finset.sum_le_sum_of_subset (hfinite.toFinset_subset_toFinset.mpr hsubset)

theorem sumOf_le_sumOf (hmap : (indices map).Finite) {heavier : α → Nat}
    (hle : ∀ record, weight record ≤ heavier record) : sumOf weight map ≤ sumOf heavier map := by
  rw [sumOf_eq_sum hmap, sumOf_eq_sum hmap]
  refine Finset.sum_le_sum fun other _ ↦ ?_
  cases map other with
  | none => exact Nat.le_refl 0
  | some record => exact hle record

theorem sumOf_empty : sumOf weight (fun _ ↦ none) = 0 :=
  finsum_zero

/-- A record weighs no more than all of them. -/
theorem le_sumOf (hmap : (indices map).Finite) {record : α} (hrecord : map index = some record) :
    weight record ≤ sumOf weight map := by
  have hsum := @sumOf_erase α weight map index hmap record hrecord
  omega

/-- The sum runs over a list of all records, each with its index once. -/
theorem sumOf_eq_sum_map {entries : List (Nat × α)} (hnodup : (entries.map Prod.fst).Nodup)
    (hmem : ∀ index record, (index, record) ∈ entries ↔ map index = some record) :
    sumOf weight map = (entries.map fun entry ↦ weight entry.2).sum := by
  have hsum : sumOf weight map =
      ∑ index ∈ (entries.map Prod.fst).toFinset, (map index).elim 0 weight := by
    apply finsum_eq_sum_of_support_subset
    refine (support_subset_indices weight map).trans fun index hindex ↦ ?_
    obtain ⟨record, hrecord⟩ := Option.ne_none_iff_exists'.mp hindex
    rw [List.coe_toFinset]
    exact List.mem_map.mpr ⟨(index, record), (hmem index record).mpr hrecord, rfl⟩
  rw [hsum, List.sum_toFinset _ hnodup, List.map_map]
  refine congrArg List.sum (List.map_congr_left fun entry hentry ↦ ?_)
  show (map entry.1).elim 0 weight = weight entry.2
  rw [(hmem entry.1 entry.2).mp hentry]
  rfl

/-- To count records is to count their indices. -/
theorem sumOf_toNat (hmap : (indices map).Finite) (counts : α → Bool) :
    sumOf (fun record ↦ (counts record).toNat) map =
      {index | ∃ record, map index = some record ∧ counts record = true}.ncard := by
  have hset : {index | ∃ record, map index = some record ∧ counts record = true} =
      ↑(hmap.toFinset.filter fun index ↦ (map index).any counts = true) := by
    ext index
    cases hrecord : map index with
    | none => simp [hrecord]
    | some record => simp [indices, hrecord]
  rw [sumOf_eq_sum hmap, hset, Set.ncard_coe_finset, Finset.card_filter]
  refine Finset.sum_congr rfl fun index _ ↦ ?_
  cases map index with
  | none => rfl
  | some record =>
    show (counts record).toNat = if counts record = true then 1 else 0
    cases counts record <;> rfl

end Sums

namespace Arena

/-! ### Vacant slots -/

/-- The chain of vacant slots that starts with a hole runs through the given holes. -/
def Chain (slots : Array (Slot α)) : (start : Option Nat) → (holes : List Nat) → Prop
  | start, [] => start = none
  | start, hole :: holes =>
    start = some hole ∧ ∃ next, slots[hole]? = some (.vacant next) ∧ Chain slots next holes

/-- The chain runs through the given holes, which are all that there are, and the size is the number
of records. -/
structure Chained (arena : Arena α) (holes : List Nat) : Prop where
  chain : Chain arena.slots arena.vacant holes
  nodup : holes.Nodup
  vacant_mem : ∀ index next, arena.slots[index]? = some (.vacant next) → index ∈ holes
  size_eq : arena.size = (indices arena.get?).ncard

theorem Chain.congr {slots after : Array (Slot α)} {start : Option Nat} {holes : List Nat}
    (hchain : Chain slots start holes) (hagree : ∀ hole ∈ holes, after[hole]? = slots[hole]?) :
    Chain after start holes := by
  induction holes generalizing start with
  | nil => exact hchain
  | cons hole holes ih =>
    obtain ⟨hstart, next, hslot, hrest⟩ := hchain
    refine ⟨hstart, next, ?_, ih hrest fun other hother ↦ ?_⟩
    · rw [hagree hole List.mem_cons_self, hslot]
    · exact hagree other (List.mem_cons_of_mem _ hother)

theorem Chain.vacant {slots : Array (Slot α)} {start : Option Nat} {holes : List Nat}
    (hchain : Chain slots start holes) {hole : Nat} (hhole : hole ∈ holes) :
    ∃ next, slots[hole]? = some (.vacant next) := by
  induction holes generalizing start with
  | nil => exact absurd hhole List.not_mem_nil
  | cons first holes ih =>
    obtain ⟨-, next, hslot, hrest⟩ := hchain
    rcases List.mem_cons.mp hhole with rfl | hmem
    · exact ⟨next, hslot⟩
    · exact ih hrest hmem

variable {arena : Arena α} {holes : List Nat} {index : Nat} {record : α}

theorem get?_eq_some_iff : arena.get? index = some record ↔
    arena.slots[index]? = some (.taken record) := by
  unfold get?
  rcases hslot : arena.slots[index]? with - | (taken | next) <;> simp

theorem get?_of_vacant {next : Option Nat} (hslot : arena.slots[index]? = some (.vacant next)) :
    arena.get? index = none := by
  simp only [get?, hslot]

theorem get_eq (hrecord : arena.get? index = some record) : arena.get index = .ok record := by
  unfold get
  rw [hrecord]

theorem lt_of_get? (hrecord : arena.get? index = some record) : index < arena.slots.size := by
  by_contra hbeyond
  rw [get?_eq_some_iff, Array.getElem?_eq_none (Nat.le_of_not_lt hbeyond)] at hrecord
  exact absurd hrecord (by simp)

theorem indices_finite (arena : Arena α) : (indices arena.get?).Finite := by
  refine (Set.finite_Iio arena.slots.size).subset fun index hindex ↦ ?_
  obtain ⟨record, hrecord⟩ := Option.ne_none_iff_exists'.mp hindex
  exact lt_of_get? hrecord

theorem mem_toList {index : Nat} {record : α} :
    (index, record) ∈ arena.toList ↔ arena.get? index = some record := by
  unfold toList
  rw [List.mem_filterMap]
  constructor
  · rintro ⟨other, -, hother⟩
    obtain ⟨found, hfound, heq⟩ := Option.map_eq_some_iff.mp hother
    obtain ⟨rfl, rfl⟩ := Prod.mk.inj heq
    exact hfound
  · intro hrecord
    exact ⟨index, List.mem_range.mpr (lt_of_get? hrecord), by rw [hrecord]; rfl⟩

theorem nodup_toList (arena : Arena α) : (arena.toList.map Prod.fst).Nodup := by
  unfold toList
  rw [List.map_filterMap]
  refine List.nodup_range.filterMap fun first second index hfirst hsecond ↦ ?_
  simp only [Option.map_map, Option.mem_def, Option.map_eq_some_iff, Function.comp_apply]
    at hfirst hsecond
  obtain ⟨_, -, hfirst⟩ := hfirst
  obtain ⟨_, -, hsecond⟩ := hsecond
  exact hfirst.trans hsecond.symm

theorem sumOf_get?_eq (weight : α → Nat) (arena : Arena α) :
    sumOf weight arena.get? = (arena.toList.map fun entry ↦ weight entry.2).sum :=
  sumOf_eq_sum_map (nodup_toList arena) fun _ _ ↦ mem_toList

theorem chained_empty : (empty : Arena α).Chained [] where
  chain := rfl
  nodup := List.nodup_nil
  vacant_mem := fun index next hslot ↦ absurd hslot (by simp [empty])
  size_eq := by
    have hnone : indices (empty : Arena α).get? = ∅ := by
      ext index
      simp [indices, get?, empty]
    rw [hnone, Set.ncard_empty]
    rfl

theorem getElem?_setSlot {slots : Array (Slot α)} (hindex : index < slots.size) (slot : Slot α)
    (other : Nat) : (slots.setIfInBounds index slot)[other]? =
      if other = index then some slot else slots[other]? := by
  by_cases hother : other = index
  · subst hother
    simp [hindex]
  · simp [hother, Array.getElem?_setIfInBounds_ne (Ne.symm hother)]

/-- A slot that is filled or left shows as a change of the map. -/
theorem get?_eq_update {after : Arena α} {entry : Option α}
    (hagree : ∀ other, other ≠ index → after.slots[other]? = arena.slots[other]?)
    (hentry : after.get? index = entry) : after.get? = Function.update arena.get? index entry := by
  funext other
  by_cases hother : other = index
  · rw [hother, hentry, Function.update_self]
  · rw [Function.update_of_ne hother]
    simp only [get?, hagree other hother]

namespace Chained

variable (harena : arena.Chained holes)

include harena

theorem vacant_lt {hole : Nat} (hhole : hole ∈ holes) : hole < arena.slots.size := by
  obtain ⟨next, hslot⟩ := harena.chain.vacant hhole
  by_contra hbeyond
  rw [Array.getElem?_eq_none (Nat.le_of_not_lt hbeyond)] at hslot
  exact absurd hslot (by simp)

/-- A record is stored at the first hole, or after all records if there is none. -/
theorem insert (record : α) :
    ∃ after, arena.insert record = .ok (holes.headD arena.slots.size, after) ∧
      arena.get? (holes.headD arena.slots.size) = none ∧
      after.get? = Function.update arena.get? (holes.headD arena.slots.size) (some record) ∧
      after.Chained holes.tail := by
  have hsize : ∀ {index : Nat} {after : Arena α}, arena.get? index = none →
      after.get? = Function.update arena.get? index (some record) → after.size = arena.size + 1 →
      after.size = (indices after.get?).ncard := by
    intro index after hnone hget hcount
    have hnotMem : index ∉ indices arena.get? := fun hmem ↦ hmem hnone
    rw [hget, indices_update_some, Set.ncard_insert_of_notMem hnotMem (indices_finite arena),
      hcount, harena.size_eq]
  cases holes with
  | nil =>
    have hvacant : arena.vacant = none := harena.chain
    have hnone : arena.get? arena.slots.size = none := by simp [get?]
    have hagree : ∀ other, other ≠ arena.slots.size →
        (arena.slots.push (.taken record))[other]? = arena.slots[other]? := by
      intro other hother
      rw [Array.getElem?_push, if_neg hother]
    have hget : get? ⟨arena.slots.push (.taken record), arena.vacant, arena.size + 1⟩ =
        Function.update arena.get? arena.slots.size (some record) :=
      get?_eq_update hagree (by simp [get?])
    refine ⟨_, by simp only [Arena.insert, hvacant, List.headD_nil], hnone, hget, hvacant,
      List.nodup_nil, fun index next hslot ↦ ?_, hsize hnone hget rfl⟩
    by_cases hindex : index = arena.slots.size
    · simp [hindex] at hslot
    · exact harena.vacant_mem index next (hagree index hindex ▸ hslot)
  | cons hole holes =>
    obtain ⟨hvacant, next, hslot, hrest⟩ := harena.chain
    have hlt := harena.vacant_lt List.mem_cons_self
    obtain ⟨hnotMem, hnodup⟩ := List.nodup_cons.mp harena.nodup
    have hnone : arena.get? hole = none := get?_of_vacant hslot
    have hagree : ∀ other, other ≠ hole →
        (arena.slots.setIfInBounds hole (.taken record))[other]? = arena.slots[other]? := by
      intro other hother
      rw [getElem?_setSlot hlt, if_neg hother]
    have hget : get? ⟨arena.slots.setIfInBounds hole (.taken record), next, arena.size + 1⟩ =
        Function.update arena.get? hole (some record) :=
      get?_eq_update hagree (get?_eq_some_iff.mpr (by rw [getElem?_setSlot hlt, if_pos rfl]))
    refine ⟨_, by simp only [Arena.insert, hvacant, hslot, List.headD_cons], hnone, hget,
      hrest.congr fun other hother ↦ hagree other ?_, hnodup, fun index following hother ↦ ?_,
      hsize hnone hget rfl⟩
    · rintro rfl
      exact hnotMem hother
    · by_cases hindex : index = hole
      · simp [hindex, hlt] at hother
      · have hmem := harena.vacant_mem index following (hagree index hindex ▸ hother)
        exact (List.mem_cons.mp hmem).resolve_left hindex

/-- A record can be replaced. -/
theorem set (hrecord : arena.get? index = some record) (new : α) :
    ∃ after, arena.set index new = .ok after ∧
      after.get? = Function.update arena.get? index (some new) ∧ after.Chained holes := by
  have hlt := lt_of_get? hrecord
  have hagree : ∀ other, other ≠ index →
      (arena.slots.setIfInBounds index (.taken new))[other]? = arena.slots[other]? := by
    intro other hother
    rw [getElem?_setSlot hlt, if_neg hother]
  have hget : get? ⟨arena.slots.setIfInBounds index (.taken new), arena.vacant, arena.size⟩ =
      Function.update arena.get? index (some new) :=
    get?_eq_update hagree (get?_eq_some_iff.mpr (by rw [getElem?_setSlot hlt, if_pos rfl]))
  refine ⟨_, by simp only [Arena.set, set?, hrecord, Option.map_some], hget,
    harena.chain.congr fun hole hhole ↦ hagree hole ?_, harena.nodup, fun other next hslot ↦ ?_, ?_⟩
  · rintro rfl
    obtain ⟨next, hslot⟩ := harena.chain.vacant hhole
    rw [get?_of_vacant hslot] at hrecord
    exact absurd hrecord (by simp)
  · by_cases hother : other = index
    · simp [hother, hlt] at hslot
    · exact harena.vacant_mem other next (hagree other hother ▸ hslot)
  · have hmem : index ∈ indices arena.get? := by
      unfold indices
      simp [hrecord]
    rw [hget, indices_update_some, Set.insert_eq_of_mem hmem]
    exact harena.size_eq

theorem modify (hrecord : arena.get? index = some record) (change : α → α) :
    ∃ after, arena.modify index change = .ok after ∧
      after.get? = Function.update arena.get? index (some (change record)) ∧
      after.Chained holes := by
  simp only [Arena.modify, get_eq hrecord, ok_bind]
  exact harena.set hrecord (change record)

/-- A record can be taken out, and its index is the first to be used again. -/
theorem remove (hrecord : arena.get? index = some record) :
    ∃ after, arena.remove index = .ok (record, after) ∧
      after.get? = Function.update arena.get? index none ∧ after.Chained (index :: holes) := by
  have hlt := lt_of_get? hrecord
  have hagree : ∀ other, other ≠ index →
      (arena.slots.setIfInBounds index (.vacant arena.vacant))[other]? = arena.slots[other]? := by
    intro other hother
    rw [getElem?_setSlot hlt, if_neg hother]
  have hslot : (arena.slots.setIfInBounds index (.vacant arena.vacant))[index]? =
      some (.vacant arena.vacant) := by
    rw [getElem?_setSlot hlt, if_pos rfl]
  have hget : get? ⟨arena.slots.setIfInBounds index (.vacant arena.vacant), some index,
      arena.size - 1⟩ = Function.update arena.get? index none :=
    get?_eq_update hagree (get?_of_vacant hslot)
  have hnotMem : index ∉ holes := by
    intro hmem
    obtain ⟨next, hvacant⟩ := harena.chain.vacant hmem
    rw [get?_of_vacant hvacant] at hrecord
    exact absurd hrecord (by simp)
  refine ⟨_, by simp only [Arena.remove, remove?, hrecord, Option.map_some], hget,
    ⟨rfl, _, hslot, harena.chain.congr fun hole hhole ↦ hagree hole ?_⟩,
    List.nodup_cons.mpr ⟨hnotMem, harena.nodup⟩, fun other next hother ↦ ?_, ?_⟩
  · rintro rfl
    exact hnotMem hhole
  · by_cases heq : other = index
    · exact heq ▸ List.mem_cons_self
    · exact List.mem_cons_of_mem _ (harena.vacant_mem other next (hagree other heq ▸ hother))
  · have hmem : index ∈ indices arena.get? := by
      unfold indices
      simp [hrecord]
    rw [hget, indices_update_none, Set.ncard_sdiff_singleton_of_mem hmem, ← harena.size_eq]

end Chained

end Arena

end KernelMemory
