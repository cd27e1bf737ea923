import KernelMemory.Proofs.Arena.Runs
import Mathlib.Data.Stream.Init

/-!
# The indices that an arena gives next

The holes of an arena, and then the slots behind all others, are the indices that the next records
get, in order (`Arena.Awaits`). An insertion takes the first of them, and a removal puts the index
that it leaves vacant in front of them, so to take the last record out again restores them.

This order and the records are all that shows of an arena (`Arena.Alike.allows_iff`): the same calls
can follow on two arenas that agree in both, and every call has the same answer on them.
-/

set_option autoImplicit false
set_option relaxedAutoImplicit false

namespace KernelMemory

namespace Arena

variable {α : Type} {arena after : Arena α} {upcoming : Stream' Nat} {index : Nat} {record : α}

/-- The indices that the next records get, in order. -/
def Awaits (arena : Arena α) (upcoming : Stream' Nat) : Prop :=
  ∃ holes, arena.Chained holes ∧ holes ++ₛ Stream'.iterate Nat.succ arena.slots.size = upcoming

theorem Chained.awaits {holes : List Nat} (harena : arena.Chained holes) :
    arena.Awaits (holes ++ₛ Stream'.iterate Nat.succ arena.slots.size) :=
  ⟨holes, harena, rfl⟩

/-! ### The number of slots -/

theorem size_slots_of_set (hset : arena.set index record = .ok after) :
    after.slots.size = arena.slots.size := by
  rw [← set?_eq_some_iff] at hset
  obtain ⟨_, -, rfl⟩ := Option.map_eq_some_iff.mp hset
  exact Array.size_setIfInBounds

theorem size_slots_of_remove (hremove : arena.remove index = .ok (record, after)) :
    after.slots.size = arena.slots.size := by
  rw [← remove?_eq_some_iff] at hremove
  obtain ⟨_, -, heq⟩ := Option.map_eq_some_iff.mp hremove
  obtain ⟨-, rfl⟩ := Prod.mk.inj heq
  exact Array.size_setIfInBounds

/-- A record gets a slot of its own only when there is no hole. -/
theorem Chained.size_slots_of_insert {holes : List Nat} (harena : arena.Chained holes)
    (hinsert : arena.insert record = .ok (index, after)) :
    after.slots.size = if holes = [] then arena.slots.size + 1 else arena.slots.size := by
  cases holes with
  | nil =>
    have hvacant : arena.vacant = none := harena.chain
    rw [Arena.insert, hvacant, Except.ok.injEq] at hinsert
    rw [if_pos rfl, ← (Prod.mk.inj hinsert).2]
    exact Array.size_push _
  | cons hole holes =>
    obtain ⟨hvacant, next, hslot, -⟩ := harena.chain
    simp only [Arena.insert, hvacant, hslot, Except.ok.injEq] at hinsert
    rw [if_neg (List.cons_ne_nil _ _), ← (Prod.mk.inj hinsert).2]
    exact Array.size_setIfInBounds

namespace Awaits

variable (harena : arena.Awaits upcoming)

include harena

/-! ### Single calls -/

/-- A record gets the first of the indices. -/
theorem insert (record : α) :
    ∃ after, arena.insert record = .ok (upcoming.head, after) ∧
      arena.get? upcoming.head = none ∧
      after.get? = Function.update arena.get? upcoming.head (some record) ∧
      after.Awaits upcoming.tail := by
  obtain ⟨holes, hchained, rfl⟩ := harena
  obtain ⟨after, hinsert, hnone, hget, hafter⟩ := hchained.insert record
  have hsize := hchained.size_slots_of_insert hinsert
  cases holes with
  | nil =>
    refine ⟨after, hinsert, hnone, hget, [], hafter, ?_⟩
    rw [hsize, if_pos rfl, Stream'.nil_append_stream, Stream'.nil_append_stream,
      Stream'.tail_iterate]
  | cons hole holes =>
    refine ⟨after, hinsert, hnone, hget, holes, hafter, ?_⟩
    rw [hsize, if_neg (List.cons_ne_nil _ _), Stream'.cons_append_stream, Stream'.tail_cons]

theorem set (hrecord : arena.get? index = some record) (new : α) :
    ∃ after, arena.set index new = .ok after ∧
      after.get? = Function.update arena.get? index (some new) ∧ after.Awaits upcoming := by
  obtain ⟨holes, hchained, rfl⟩ := harena
  obtain ⟨after, hset, hget, hafter⟩ := hchained.set hrecord new
  exact ⟨after, hset, hget, holes, hafter, by rw [size_slots_of_set hset]⟩

theorem modify (hrecord : arena.get? index = some record) (change : α → α) :
    ∃ after, arena.modify index change = .ok after ∧
      after.get? = Function.update arena.get? index (some (change record)) ∧
      after.Awaits upcoming := by
  simp only [Arena.modify, get_eq hrecord, ok_bind]
  exact harena.set hrecord (change record)

/-- The index of a record that is taken out comes before all others. -/
theorem remove (hrecord : arena.get? index = some record) :
    ∃ after, arena.remove index = .ok (record, after) ∧
      after.get? = Function.update arena.get? index none ∧
      after.Awaits (Stream'.cons index upcoming) := by
  obtain ⟨holes, hchained, rfl⟩ := harena
  obtain ⟨after, hremove, hget, hafter⟩ := hchained.remove hrecord
  exact ⟨after, hremove, hget, _, hafter,
    by rw [size_slots_of_remove hremove, Stream'.cons_append_stream]⟩

end Awaits

/-! ### Arenas that show the same -/

/-- The arenas hold the same records and give the next ones the same indices. -/
structure Alike (first second : Arena α) : Prop where
  get?_eq : first.get? = second.get?
  awaits : ∃ upcoming, first.Awaits upcoming ∧ second.Awaits upcoming

theorem Alike.symm {first second : Arena α} (halike : first.Alike second) : second.Alike first := by
  obtain ⟨upcoming, hfirst, hsecond⟩ := halike.awaits
  exact ⟨halike.get?_eq.symm, upcoming, hsecond, hfirst⟩

/-- The calls can follow each other on the arena with these answers. -/
def Allows (arena : Arena α) : List (ArenaDeed α) → Prop
  | [] => True
  | deed :: deeds => ∃ after, deed.Happens arena after ∧ after.Allows deeds

/-- A call that one arena allows is allowed by the other, and they stay alike. -/
theorem Alike.step {first second after : Arena α} (halike : first.Alike second)
    {deed : ArenaDeed α} (hdeed : deed.Happens first after) :
    ∃ other, deed.Happens second other ∧ after.Alike other := by
  obtain ⟨hget, upcoming, hfirst, hsecond⟩ := id halike
  have hset : ∀ {index record}, first.set index record = .ok after →
      ∃ other, second.set index record = .ok other ∧ after.Alike other := by
    intro index record hset
    obtain ⟨old, hold⟩ := exists_of_set hset
    obtain ⟨done, hdone, hdoneGet, hdoneAwaits⟩ := hfirst.set hold record
    obtain ⟨other, hother, hotherGet, hotherAwaits⟩ := hsecond.set (hget ▸ hold) record
    obtain rfl : done = after := Except.ok.inj (hdone.symm.trans hset)
    exact ⟨other, hother, by rw [hdoneGet, hotherGet, hget], upcoming, hdoneAwaits, hotherAwaits⟩
  cases deed with
  | insert record index =>
    obtain ⟨done, hdone, -, hdoneGet, hdoneAwaits⟩ := hfirst.insert record
    obtain ⟨other, hother, -, hotherGet, hotherAwaits⟩ := hsecond.insert record
    obtain ⟨rfl, rfl⟩ := Prod.mk.inj (Except.ok.inj (hdone.symm.trans hdeed))
    exact ⟨other, hother, by rw [hdoneGet, hotherGet, hget], _, hdoneAwaits, hotherAwaits⟩
  | remove index answer =>
    cases answer with
    | none =>
      obtain ⟨hnone, rfl⟩ := hdeed
      rw [remove?_eq_none_iff, hget] at hnone
      exact ⟨second, ⟨remove?_eq_none_iff.mpr hnone, rfl⟩, halike⟩
    | some record =>
      have hremove : first.remove? index = some (record, after) := hdeed
      have hrecord : first.get? index = some record := by
        obtain ⟨_, hrecord, heq⟩ := Option.map_eq_some_iff.mp hremove
        rw [hrecord, (Prod.mk.inj heq).1]
      rw [remove?_eq_some_iff] at hremove
      obtain ⟨done, hdone, hdoneGet, hdoneAwaits⟩ := hfirst.remove hrecord
      obtain ⟨other, hother, hotherGet, hotherAwaits⟩ := hsecond.remove (hget ▸ hrecord)
      obtain ⟨-, rfl⟩ := Prod.mk.inj (Except.ok.inj (hdone.symm.trans hremove))
      exact ⟨other, remove?_eq_some_iff.mpr hother, by rw [hdoneGet, hotherGet, hget], _,
        hdoneAwaits, hotherAwaits⟩
  | look index answer =>
    obtain ⟨hlook, rfl⟩ := hdeed
    exact ⟨second, ⟨hget ▸ hlook, rfl⟩, halike⟩
  | replace index record answer =>
    cases answer with
    | none =>
      obtain ⟨hnone, rfl⟩ := hdeed
      rw [set?_eq_none_iff, hget] at hnone
      exact ⟨second, ⟨set?_eq_none_iff.mpr hnone, rfl⟩, halike⟩
    | some old =>
      obtain ⟨hold, hreplace⟩ := hdeed
      obtain ⟨other, hother, hafter⟩ := hset (set?_eq_some_iff.mp hreplace)
      exact ⟨other, ⟨hget ▸ hold, set?_eq_some_iff.mpr hother⟩, hafter⟩
  | read index record =>
    obtain ⟨hread, rfl⟩ := hdeed
    rw [get_eq_match, hget, ← get_eq_match] at hread
    exact ⟨second, ⟨hread, rfl⟩, halike⟩
  | write index record => exact hset hdeed

/-- Arenas that are alike allow the same calls, with the same indices and records for answers. -/
theorem Alike.allows_iff {first second : Arena α} (halike : first.Alike second)
    (deeds : List (ArenaDeed α)) : first.Allows deeds ↔ second.Allows deeds := by
  have hallows : ∀ {first second : Arena α}, first.Alike second → first.Allows deeds →
      second.Allows deeds := by
    induction deeds with
    | nil => exact fun _ _ ↦ trivial
    | cons deed deeds ih =>
      rintro first second halike ⟨after, hdeed, hdeeds⟩
      obtain ⟨other, hother, hafter⟩ := halike.step hdeed
      exact ⟨other, hother, ih hafter hdeeds⟩
  exact ⟨hallows halike, hallows halike.symm⟩

/-- Two records are stored and taken out again in the reverse order. The next ones get the indices
that they would have had. -/
example : (⟨#[.taken 7, .vacant none, .vacant (some 1)], some 2, 1⟩ : Arena Nat).Allows
    [.insert 8 2, .insert 9 1, .remove 1 (some 9), .remove 2 (some 8), .insert 5 2, .insert 6 1,
      .insert 4 3] :=
  ⟨_, rfl, _, rfl, _, rfl, _, rfl, _, rfl, _, rfl, _, rfl, trivial⟩

end Arena

end KernelMemory
