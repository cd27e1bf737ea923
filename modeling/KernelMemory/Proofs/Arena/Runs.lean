import KernelMemory.Proofs.Arena

/-!
# Runs of an arena

An arena is used by calls in any order with any indices (`ArenaDeed`, `ArenaRun`). The calls of a
run tell which record is bound to each index (`ArenaDeed.bindings`): the one that was stored there
last, unless it was taken out since.

The slots that records have left are a stack (`ArenaDeed.holesAfter`), and the chain of vacant slots
runs through it (`ArenaRun.chained`). So an insertion never comes upon a slot that is taken, and
after any run the arena is the finite map of its bindings (`ArenaRun.acts_as_map`).
-/

set_option autoImplicit false
set_option relaxedAutoImplicit false

namespace KernelMemory

variable {α : Type}

/-- A call that has returned, with its answer. -/
inductive ArenaDeed (α : Type)
  | insert (record : α) (index : Nat)
  | remove (index : Nat) (answer : Option α)
  /-- A look at the record that may be there. -/
  | look (index : Nat) (answer : Option α)
  /-- The record that may be there is answered and replaced. -/
  | replace (index : Nat) (record : α) (answer : Option α)
  /-- A look at the record that has to be there. -/
  | read (index : Nat) (record : α)
  /-- The record that has to be there is replaced. -/
  | write (index : Nat) (record : α)

namespace ArenaDeed

/-- The call leads from one arena to another. -/
def Happens (before after : Arena α) : ArenaDeed α → Prop
  | insert record index => before.insert record = .ok (index, after)
  | remove index (some record) => before.remove? index = some (record, after)
  | remove index none => before.remove? index = none ∧ after = before
  | look index answer => before.get? index = answer ∧ after = before
  | replace index record (some old) =>
    before.get? index = some old ∧ before.set? index record = some after
  | replace index record none => before.set? index record = none ∧ after = before
  | read index record => before.get index = .ok record ∧ after = before
  | write index record => before.set index record = .ok after

/-- What is bound to the indices after the call. -/
def bindingsAfter (map : Nat → Option α) : ArenaDeed α → Nat → Option α
  | insert record index | replace index record (some _) | write index record =>
    Function.update map index (some record)
  | remove index (some _) => Function.update map index none
  | remove _ none | replace _ _ none | look _ _ | read _ _ => map

/-- What is bound to the indices after calls on an arena that was empty. -/
def bindings (deeds : List (ArenaDeed α)) : Nat → Option α :=
  deeds.foldl bindingsAfter fun _ ↦ none

theorem bindings_snoc (deeds : List (ArenaDeed α)) (deed : ArenaDeed α) :
    bindings (deeds ++ [deed]) = deed.bindingsAfter (bindings deeds) :=
  List.foldl_append

/-- The slots that are left vacant by the call, the last one first. -/
def holesAfter (holes : List Nat) : ArenaDeed α → List Nat
  | insert _ _ => holes.tail
  | remove index (some _) => index :: holes
  | _ => holes

end ArenaDeed

namespace Arena

variable {arena after : Arena α} {holes : List Nat} {index : Nat} {record : α}

theorem get?_empty : (empty : Arena α).get? = fun _ ↦ none := by
  funext index
  simp [get?, empty]

theorem get_eq_match (arena : Arena α) (index : Nat) :
    arena.get index = match arena.get? index with
      | some record => .ok record
      | none => .error (.noRecord index) :=
  rfl

theorem remove?_eq_none_iff : arena.remove? index = none ↔ arena.get? index = none := by
  unfold remove?
  rw [Option.map_eq_none_iff]

theorem set?_eq_none_iff : arena.set? index record = none ↔ arena.get? index = none := by
  unfold set?
  rw [Option.map_eq_none_iff]

/-- What may be taken out is what has to be there. -/
theorem remove?_eq_some_iff : arena.remove? index = some (record, after) ↔
    arena.remove index = .ok (record, after) := by
  unfold remove
  cases arena.remove? index <;> simp

theorem set?_eq_some_iff : arena.set? index record = some after ↔
    arena.set index record = .ok after := by
  unfold set
  cases arena.set? index record <;> simp

/-- The records are listed by ascending index. -/
theorem sorted_toList (arena : Arena α) : (arena.toList.map Prod.fst).Pairwise (· < ·) := by
  unfold toList
  rw [List.map_filterMap]
  refine List.pairwise_lt_range.filterMap _ fun first second hlt index hfirst other hsecond ↦ ?_
  simp only [Option.map_map, Option.map_eq_some_iff, Function.comp_apply] at hfirst hsecond
  obtain ⟨_, -, rfl⟩ := hfirst
  obtain ⟨_, -, rfl⟩ := hsecond
  exact hlt

/-- The arena is a finite map: every operation answers by the map and changes it at no index but its
own, and an insertion finds an index that is not bound. -/
structure ActsAs (arena : Arena α) (map : Nat → Option α) : Prop where
  look : ∀ index, arena.get? index = map index
  read : ∀ index, arena.get index = match map index with
    | some record => .ok record
    | none => .error (.noRecord index)
  insert : ∀ record, ∃ index after, arena.insert record = .ok (index, after) ∧ map index = none ∧
    after.get? = Function.update map index (some record)
  remove : ∀ index record, map index = some record →
    ∃ after, arena.remove? index = some (record, after) ∧
      after.get? = Function.update map index none
  remove_unbound : ∀ index, map index = none → arena.remove? index = none
  replace : ∀ index record new, map index = some record →
    ∃ after, arena.set? index new = some after ∧ arena.set index new = .ok after ∧
      after.get? = Function.update map index (some new)
  replace_unbound : ∀ index new, map index = none →
    arena.set? index new = none ∧ arena.set index new = .error (.noRecord index)
  size_eq : arena.size = (indices map).ncard
  /-- To count down for a record that is taken out does not go below zero. -/
  size_pos : ∀ index record, map index = some record → 0 < arena.size
  mem_toList : ∀ index record, (index, record) ∈ arena.toList ↔ map index = some record
  sorted : (arena.toList.map Prod.fst).Pairwise (· < ·)

theorem Chained.actsAs (harena : arena.Chained holes) : arena.ActsAs arena.get? where
  look := fun _ ↦ rfl
  read := get_eq_match arena
  insert := fun record ↦ by
    obtain ⟨after, hinsert, hnone, hget, -⟩ := harena.insert record
    exact ⟨_, after, hinsert, hnone, hget⟩
  remove := fun index record hrecord ↦ by
    obtain ⟨after, hremove, hget, -⟩ := harena.remove hrecord
    exact ⟨after, remove?_eq_some_iff.mpr hremove, hget⟩
  remove_unbound := fun _ ↦ remove?_eq_none_iff.mpr
  replace := fun index record new hrecord ↦ by
    obtain ⟨after, hset, hget, -⟩ := harena.set hrecord new
    exact ⟨after, set?_eq_some_iff.mpr hset, hset, hget⟩
  replace_unbound := fun index new hnone ↦ by
    have hset? : arena.set? index new = none := set?_eq_none_iff.mpr hnone
    exact ⟨hset?, by simp only [Arena.set, hset?]⟩
  size_eq := harena.size_eq
  size_pos := fun index record hrecord ↦ by
    have hmem : index ∈ indices arena.get? := fun hnone ↦ by simp [hrecord] at hnone
    rw [harena.size_eq]
    exact (Set.ncard_pos (indices_finite arena)).mpr ⟨index, hmem⟩
  mem_toList := fun _ _ ↦ Arena.mem_toList
  sorted := sorted_toList arena

/-- A record that was replaced was there. -/
theorem exists_of_set (hset : arena.set index record = .ok after) :
    ∃ old, arena.get? index = some old := by
  rw [← Option.ne_none_iff_exists']
  intro hnone
  rw [← set?_eq_some_iff, set?_eq_none_iff.mpr hnone] at hset
  cases hset

end Arena

/-- Every call keeps the chain of the vacant slots and binds what it tells. -/
theorem ArenaDeed.Happens.chained {before after : Arena α} {holes : List Nat} {deed : ArenaDeed α}
    (hdeed : deed.Happens before after) (hbefore : before.Chained holes) :
    after.Chained (deed.holesAfter holes) ∧ after.get? = deed.bindingsAfter before.get? := by
  have hset : ∀ {index record}, before.set index record = .ok after →
      after.Chained holes ∧ after.get? = Function.update before.get? index (some record) := by
    intro index record hset
    obtain ⟨old, hold⟩ := Arena.exists_of_set hset
    obtain ⟨done, hdone, hget, hchained⟩ := hbefore.set hold record
    obtain rfl : done = after := Except.ok.inj (hdone.symm.trans hset)
    exact ⟨hchained, hget⟩
  cases deed with
  | insert record index =>
    obtain ⟨done, hdone, -, hget, hchained⟩ := hbefore.insert record
    obtain ⟨rfl, rfl⟩ := Prod.mk.inj (Except.ok.inj (hdone.symm.trans hdeed))
    exact ⟨hchained, hget⟩
  | remove index answer =>
    cases answer with
    | none =>
      obtain ⟨-, rfl⟩ := hdeed
      exact ⟨hbefore, rfl⟩
    | some record =>
      have hremove := Arena.remove?_eq_some_iff.mp hdeed
      obtain ⟨old, hold⟩ : ∃ old, before.get? index = some old := by
        rw [← Option.ne_none_iff_exists']
        intro hnone
        rw [← Arena.remove?_eq_some_iff, Arena.remove?_eq_none_iff.mpr hnone] at hremove
        cases hremove
      obtain ⟨done, hdone, hget, hchained⟩ := hbefore.remove hold
      obtain ⟨rfl, rfl⟩ := Prod.mk.inj (Except.ok.inj (hdone.symm.trans hremove))
      exact ⟨hchained, hget⟩
  | look index answer =>
    obtain ⟨-, rfl⟩ := hdeed
    exact ⟨hbefore, rfl⟩
  | replace index record answer =>
    cases answer with
    | none =>
      obtain ⟨-, rfl⟩ := hdeed
      exact ⟨hbefore, rfl⟩
    | some old => exact hset (Arena.set?_eq_some_iff.mp hdeed.2)
  | read index record =>
    obtain ⟨-, rfl⟩ := hdeed
    exact ⟨hbefore, rfl⟩
  | write index record => exact hset hdeed

/-! ### Runs -/

/-- Calls that return, on an arena that was empty. -/
inductive ArenaRun : Arena α → List (ArenaDeed α) → Prop
  | empty : ArenaRun .empty []
  | called {arena after : Arena α} {deeds : List (ArenaDeed α)} {deed : ArenaDeed α}
      (hrun : ArenaRun arena deeds) (hdeed : deed.Happens arena after) :
      ArenaRun after (deeds ++ [deed])

namespace ArenaRun

variable {arena : Arena α} {deeds : List (ArenaDeed α)}

/-- The holes are at all times a stack of the indices that were taken out and not used again. -/
theorem chained (hrun : ArenaRun arena deeds) :
    arena.Chained (deeds.foldl ArenaDeed.holesAfter []) ∧
      arena.get? = ArenaDeed.bindings deeds := by
  induction hrun with
  | empty => exact ⟨Arena.chained_empty, Arena.get?_empty⟩
  | called hrun hdeed ih =>
    obtain ⟨hchained, hget⟩ := hdeed.chained ih.1
    rw [List.foldl_append, ArenaDeed.bindings_snoc, ← ih.2]
    exact ⟨hchained, hget⟩

/-- After any run the arena is the finite map of its bindings. -/
theorem acts_as_map (hrun : ArenaRun arena deeds) : arena.ActsAs (ArenaDeed.bindings deeds) := by
  obtain ⟨hchained, hget⟩ := hrun.chained
  rw [← hget]
  exact hchained.actsAs

/-- Of two records the first is taken out, and cannot be taken out again. The next one gets its
index. -/
theorem acts_as_map_of_reuse :
    ArenaRun ⟨#[.taken 9, .taken 8], none, 2⟩
      [.insert 7 0, .insert 8 1, .remove 0 (some 7), .remove 0 none, .insert 9 0] ∧
    (⟨#[.taken 9, .taken 8], none, 2⟩ : Arena Nat).ActsAs (ArenaDeed.bindings
      [.insert 7 0, .insert 8 1, .remove 0 (some 7), .remove 0 none, .insert 9 0]) ∧
    ArenaDeed.bindings
      [.insert 7 0, .insert 8 1, .remove 0 (some 7), .remove 0 none, .insert 9 0] 0 = some 9 := by
  have hone : ArenaRun ⟨#[.taken 7], none, 1⟩ [.insert 7 0] := .called .empty rfl
  have htwo : ArenaRun ⟨#[.taken 7, .taken 8], none, 2⟩ [.insert 7 0, .insert 8 1] :=
    .called hone rfl
  have hout : ArenaRun ⟨#[.vacant none, .taken 8], some 0, 1⟩
      [.insert 7 0, .insert 8 1, .remove 0 (some 7)] := .called htwo rfl
  have hagain : ArenaRun ⟨#[.vacant none, .taken 8], some 0, 1⟩
      [.insert 7 0, .insert 8 1, .remove 0 (some 7), .remove 0 none] := .called hout ⟨rfl, rfl⟩
  have hreuse : ArenaRun ⟨#[.taken 9, .taken 8], none, 2⟩
      [.insert 7 0, .insert 8 1, .remove 0 (some 7), .remove 0 none, .insert 9 0] :=
    .called hagain rfl
  exact ⟨hreuse, acts_as_map hreuse, rfl⟩

end ArenaRun

end KernelMemory
