import KernelMemory.Proofs.Arena.Upcoming
import Mathlib.Order.Bounds.Basic

/-!
# Indices that are used again

An index is vacant from the call that takes its record out to the next insertion that gives it again
(`ArenaDeed.vacancies`). After any run the chain of vacant slots runs through these indices, the
last one taken out first (`ArenaRun.chained_vacancies`), so an insertion gives the index that was
left last, and the one behind all slots if none is vacant.

A slot is added only when all are taken. The slots are therefore as many as the records were at
their peak (`ArenaRun.isGreatest_size_slots`), however long the run goes on.
-/

set_option autoImplicit false
set_option relaxedAutoImplicit false

namespace KernelMemory

variable {α : Type}

/-! ### What the calls of a run leave vacant -/

namespace ArenaDeed

/-- The indices that the insertions among the calls gave. -/
def given : List (ArenaDeed α) → List Nat
  | [] => []
  | insert _ index :: later => index :: given later
  | _ :: later => given later

/-- The indices whose record was taken out and that were not given again since, the last one taken
out first. -/
def vacancies : List (ArenaDeed α) → List Nat
  | [] => []
  | remove index (some _) :: later =>
    if index ∈ given later then vacancies later else vacancies later ++ [index]
  | _ :: later => vacancies later

/-- The number of records that are stored after the calls. -/
noncomputable def stored (deeds : List (ArenaDeed α)) : Nat :=
  (indices (bindings deeds)).ncard

theorem given_append (earlier later : List (ArenaDeed α)) :
    given (earlier ++ later) = given earlier ++ given later := by
  induction earlier with
  | nil => rfl
  | cons deed _ ih =>
    cases deed with
    | insert _ index => exact congrArg (index :: ·) ih
    | _ => exact ih

/-- What was vacant before stays so unless it is given again, and is behind what is left later. -/
theorem vacancies_append (earlier later : List (ArenaDeed α)) :
    vacancies (earlier ++ later) =
      vacancies later ++ (vacancies earlier).filter (· ∉ given later) := by
  induction earlier with
  | nil => exact (List.append_nil _).symm
  | cons deed earlier ih =>
    cases deed with
    | remove index answer =>
      cases answer with
      | none => exact ih
      | some _ =>
        simp only [List.cons_append, vacancies, given_append, List.mem_append, ih]
        by_cases hearlier : index ∈ given earlier
        · simp [hearlier]
        · by_cases hlater : index ∈ given later <;> simp [hearlier, hlater]
    | _ => exact ih

end ArenaDeed

/-! ### What a call does to the slots -/

namespace Arena

variable {arena : Arena α} {holes : List Nat}

/-- Every slot is a record's or a hole. -/
theorem Chained.mem_indices_iff (harena : arena.Chained holes) {index : Nat} :
    index ∈ indices arena.get? ↔ index < arena.slots.size ∧ index ∉ holes := by
  constructor
  · intro hindex
    obtain ⟨record, hrecord⟩ := Option.ne_none_iff_exists'.mp hindex
    refine ⟨lt_of_get? hrecord, fun hhole ↦ hindex ?_⟩
    obtain ⟨_, hvacant⟩ := harena.chain.vacant hhole
    exact get?_of_vacant hvacant
  · rintro ⟨hlt, hnotMem⟩ hnone
    have hslot := Array.getElem?_eq_getElem hlt
    cases htaken : arena.slots[index] with
    | taken record =>
      rw [htaken, ← get?_eq_some_iff, hnone] at hslot
      cases hslot
    | vacant next =>
      rw [htaken] at hslot
      exact hnotMem (harena.vacant_mem index next hslot)

theorem Chained.size_slots_eq (harena : arena.Chained holes) :
    arena.slots.size = arena.size + holes.length := by
  have hindices : indices arena.get? =
      ↑(Finset.range arena.slots.size \ holes.toFinset) := by
    ext index
    rw [harena.mem_indices_iff, Finset.mem_coe, Finset.mem_sdiff, Finset.mem_range,
      List.mem_toFinset]
  have hsubset : holes.toFinset ⊆ Finset.range arena.slots.size := by
    intro hole hhole
    exact Finset.mem_range.mpr (harena.vacant_lt (List.mem_toFinset.mp hhole))
  have hlength := Finset.card_le_card hsubset
  rw [harena.size_eq, hindices, Set.ncard_coe_finset, Finset.card_sdiff_of_subset hsubset]
  rw [Finset.card_range, List.toFinset_card_of_nodup harena.nodup] at *
  omega

end Arena

namespace ArenaDeed.Happens

variable {before after : Arena α} {holes : List Nat} {deeds : List (ArenaDeed α)}
  {deed : ArenaDeed α} (hdeed : deed.Happens before after)

include hdeed

/-- A call adds a slot only when the records take all of them. -/
theorem size_slots (hbefore : before.Chained holes) :
    after.slots.size = before.slots.size ∨
      after.slots.size = before.slots.size + 1 ∧ after.slots.size = after.size := by
  have hafter := (hdeed.chained hbefore).1.size_slots_eq
  cases deed with
  | insert record index =>
    have hsize := hbefore.size_slots_of_insert hdeed
    cases holes with
    | nil => exact .inr ⟨hsize, hafter⟩
    | cons hole holes => exact .inl hsize
  | remove index answer =>
    cases answer with
    | none => exact .inl (by rw [hdeed.2])
    | some record => exact .inl (Arena.size_slots_of_remove (Arena.remove?_eq_some_iff.mp hdeed))
  | look index answer => exact .inl (by rw [hdeed.2])
  | replace index record answer =>
    cases answer with
    | none => exact .inl (by rw [hdeed.2])
    | some old => exact .inl (Arena.size_slots_of_set (Arena.set?_eq_some_iff.mp hdeed.2))
  | read index record => exact .inl (by rw [hdeed.2])
  | write index record => exact .inl (Arena.size_slots_of_set hdeed)

/-- The index that a call gives has a slot. -/
theorem given_lt (hbefore : before.Chained holes) {index : Nat}
    (hindex : index ∈ given [deed]) : index < after.slots.size := by
  cases deed with
  | insert record given =>
    obtain rfl : index = given := List.mem_singleton.mp hindex
    have hget : after.get? index = some record := by
      rw [(hdeed.chained hbefore).2]
      exact Function.update_self ..
    exact Arena.lt_of_get? hget
  | _ => cases hindex

/-- The calls change what is vacant as they change the chain. -/
theorem vacancies_snoc (hbefore : before.Chained (vacancies deeds)) :
    vacancies (deeds ++ [deed]) = deed.holesAfter (vacancies deeds) := by
  rw [vacancies_append]
  cases deed with
  | insert record index =>
    obtain ⟨done, hdone, -⟩ := hbefore.insert record
    obtain ⟨hindex, -⟩ := Prod.mk.inj (Except.ok.inj (hdone.symm.trans hdeed))
    have hnodup := hbefore.nodup
    cases hvacancies : vacancies deeds with
    | nil => rfl
    | cons hole holes =>
      rw [hvacancies] at hindex hnodup
      obtain rfl : hole = index := hindex
      have hrest : ∀ other ∈ holes, other ∉ given [insert record hole] := by
        intro other hother hmem
        exact (List.nodup_cons.mp hnodup).1 (List.mem_singleton.mp hmem ▸ hother)
      rw [List.filter_cons_of_neg (by simp [given])]
      exact List.filter_eq_self.mpr fun other hother ↦ decide_eq_true (hrest other hother)
  | remove index answer =>
    cases answer <;> simp [vacancies, given, holesAfter]
  | _ => simp [vacancies, given, holesAfter]

end ArenaDeed.Happens

/-! ### Runs -/

/-- The arena uses its slots again, the last one left first. -/
structure Arena.Recycles (arena : Arena α) (deeds : List (ArenaDeed α)) : Prop where
  insert : ∀ record, ∃ after,
    arena.insert record = .ok ((ArenaDeed.vacancies deeds).headD arena.slots.size, after)
  /-- As many records as there are slots were once stored at the same time, and never more. -/
  peak : IsGreatest (ArenaDeed.stored '' {earlier | earlier <+: deeds}) arena.slots.size
  given_lt : ∀ index ∈ ArenaDeed.given deeds, index < arena.slots.size

namespace ArenaRun

open ArenaDeed

variable {arena : Arena α} {deeds : List (ArenaDeed α)}

/-- The chain of vacant slots runs through what the calls left vacant. -/
theorem chained_vacancies (hrun : ArenaRun arena deeds) : arena.Chained (vacancies deeds) := by
  induction hrun with
  | empty => exact Arena.chained_empty
  | called hrun hdeed ih =>
    rw [hdeed.vacancies_snoc ih]
    exact (hdeed.chained ih).1

theorem stored_eq (hrun : ArenaRun arena deeds) : stored deeds = arena.size := by
  obtain ⟨hchained, hget⟩ := hrun.chained
  rw [stored, ← hget, hchained.size_eq]

/-- The slots are as many as the records were when they were the most. -/
theorem isGreatest_size_slots (hrun : ArenaRun arena deeds) :
    IsGreatest (stored '' {earlier | earlier <+: deeds}) arena.slots.size := by
  induction hrun with
  | empty =>
    refine ⟨⟨[], List.prefix_rfl, stored_eq .empty⟩, ?_⟩
    rintro _ ⟨earlier, hprefix, rfl⟩
    rw [List.prefix_nil.mp hprefix, stored_eq .empty]
    exact Nat.le_refl 0
  | @called arena after deeds deed hrun hdeed ih =>
    have hafter := called hrun hdeed
    have hstored := hafter.stored_eq
    have hslots := hafter.chained_vacancies.size_slots_eq
    have hcall := hdeed.size_slots hrun.chained_vacancies
    constructor
    · rcases hcall with hsame | ⟨-, hall⟩
      · obtain ⟨earlier, hprefix, hpeak⟩ := ih.1
        exact ⟨earlier, hprefix.trans (List.prefix_append ..), by rw [hpeak, hsame]⟩
      · exact ⟨deeds ++ [deed], List.prefix_rfl, by rw [hstored, hall]⟩
    · rintro _ ⟨earlier, hprefix, rfl⟩
      rcases List.prefix_concat_iff.mp hprefix with rfl | hprefix
      · omega
      · have hearlier : stored earlier ≤ arena.slots.size := ih.2 ⟨earlier, hprefix, rfl⟩
        omega

/-- No index was given that is behind the slots. -/
theorem given_lt (hrun : ArenaRun arena deeds) {index : Nat} (hindex : index ∈ given deeds) :
    index < arena.slots.size := by
  induction hrun with
  | empty => cases hindex
  | called hrun hdeed ih =>
    rw [given_append] at hindex
    rcases List.mem_append.mp hindex with hearlier | hlast
    · have hsize := hdeed.size_slots hrun.chained_vacancies
      have hlt := ih hearlier
      omega
    · exact hdeed.given_lt hrun.chained_vacancies hlast

/-- After any run the arena uses its slots again, the last one left first, and has no more of them
than it ever needed at once. -/
theorem recycles (hrun : ArenaRun arena deeds) : arena.Recycles deeds where
  insert := fun record ↦ by
    obtain ⟨after, hinsert, -⟩ := hrun.chained_vacancies.insert record
    exact ⟨after, hinsert⟩
  peak := hrun.isGreatest_size_slots
  given_lt := fun _ ↦ hrun.given_lt

/-- Of three records two are taken out, one of them in vain a second time. Their indices are vacant,
the last one taken out first. -/
theorem recycles_of_two_left :
    ArenaRun ⟨#[.vacant (some 1), .vacant none, .taken 9], some 0, 1⟩
      [.insert 7 0, .insert 8 1, .insert 9 2, .remove 1 (some 8), .remove 1 none,
        .remove 0 (some 7)] ∧
    (⟨#[.vacant (some 1), .vacant none, .taken 9], some 0, 1⟩ : Arena Nat).Recycles
      [.insert 7 0, .insert 8 1, .insert 9 2, .remove 1 (some 8), .remove 1 none,
        .remove 0 (some 7)] ∧
    vacancies [.insert 7 0, .insert 8 1, .insert 9 2, .remove 1 (some 8), .remove 1 none,
      .remove 0 (some 7)] = [0, 1] := by
  have hone : ArenaRun ⟨#[.taken 7], none, 1⟩ [.insert 7 0] := .called .empty rfl
  have htwo : ArenaRun ⟨#[.taken 7, .taken 8], none, 2⟩ [.insert 7 0, .insert 8 1] :=
    .called hone rfl
  have hthree : ArenaRun ⟨#[.taken 7, .taken 8, .taken 9], none, 3⟩
      [.insert 7 0, .insert 8 1, .insert 9 2] := .called htwo rfl
  have hout : ArenaRun ⟨#[.taken 7, .vacant none, .taken 9], some 1, 2⟩
      [.insert 7 0, .insert 8 1, .insert 9 2, .remove 1 (some 8)] := .called hthree rfl
  have hagain : ArenaRun ⟨#[.taken 7, .vacant none, .taken 9], some 1, 2⟩
      [.insert 7 0, .insert 8 1, .insert 9 2, .remove 1 (some 8), .remove 1 none] :=
    .called hout ⟨rfl, rfl⟩
  have hboth : ArenaRun ⟨#[.vacant (some 1), .vacant none, .taken 9], some 0, 1⟩
      [.insert 7 0, .insert 8 1, .insert 9 2, .remove 1 (some 8), .remove 1 none,
        .remove 0 (some 7)] := .called hagain rfl
  exact ⟨hboth, recycles hboth, rfl⟩

end ArenaRun

end KernelMemory
