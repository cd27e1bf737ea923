import KernelMemory.Heap.FreeLists
import KernelMemory.Proofs.Heap.Rounding
import KernelMemory.Proofs.Rings
import Mathlib.Data.List.Nodup
import Mathlib.Data.Set.Insert

/-!
# Free lists and their marks

The free lists hold given members, and the two levels of bitmaps mark the classes that have one and
the levels that have such a class (`FreeLists.Marked`). An insertion and a removal keep the marks,
and a search by the marks ends at the first class from its start on that has a member
(`FreeLists.FirstFrom`).

What is on the lists is a set of blocks with their sizes (`FreeLists.Sorted`): each block is on the
list of the class of its size and on no other, and nothing else is on a list.
-/

set_option autoImplicit false
set_option relaxedAutoImplicit false

namespace KernelMemory

namespace Bitmap

variable {bitmap : Bitmap} {place other : Nat}

theorem place_eq (hplace : place < 32) : Bitmap.place place = .ok place := if_pos hplace

theorem eq_of_place (hplace : Bitmap.place place = .ok other) : other = place := by
  unfold Bitmap.place at hplace
  split_ifs at hplace
  exact (Except.ok.inj hplace).symm

theorem has_mark (hplace : place < 32) :
    (bitmap.mark place).has other = true ↔ other = place ∨ bitmap.has other = true := by
  simp only [has, mark, BitVec.getLsbD_or, BitVec.getLsbD_shiftLeft, BitVec.getLsbD_one,
    Bool.or_eq_true, Bool.and_eq_true, decide_eq_true_eq]
  grind

theorem has_unmark :
    (bitmap.unmark place).has other = true ↔ other ≠ place ∧ bitmap.has other = true := by
  simp only [has, unmark, BitVec.getLsbD_and, BitVec.getLsbD_not, BitVec.getLsbD_shiftLeft,
    BitVec.getLsbD_one, Bool.and_eq_true, Bool.not_eq_true', decide_eq_true_eq]
  have hbound : 32 ≤ other → bitmap.getLsbD other = false := BitVec.getLsbD_of_ge bitmap other
  grind

theorem isEmpty_iff : bitmap.isEmpty = true ↔ ∀ place, bitmap.has place = false := by
  unfold isEmpty has
  rw [beq_iff_eq]
  constructor
  · rintro rfl place
    exact BitVec.getLsbD_zero
  · intro hnone
    apply BitVec.eq_of_getLsbD_eq
    intro place _
    rw [hnone place, BitVec.getLsbD_zero]

theorem has_of_firstFrom? {first : Nat} (hfirst : bitmap.firstFrom? place = some first) :
    place ≤ first ∧ bitmap.has first = true := by
  unfold firstFrom? at hfirst
  exact ⟨(List.mem_range'_1.mp (List.mem_of_find?_eq_some hfirst)).1, List.find?_some hfirst⟩

/-- No mark at or after the place comes before the first one. -/
theorem le_of_firstFrom? {first : Nat} (hfirst : bitmap.firstFrom? place = some first)
    (hle : place ≤ other) (hother : bitmap.has other = true) : first ≤ other := by
  unfold firstFrom? at hfirst
  obtain ⟨-, -, hnone⟩ := List.find?_range'_eq_some.mp hfirst
  by_contra hlt
  have hmissed := hnone other hle (Nat.lt_of_not_le hlt)
  rw [hother] at hmissed
  exact absurd hmissed (by decide)

/-- If nothing is found, there is no mark at or after the place. -/
theorem not_has_of_firstFrom? (hnone : bitmap.firstFrom? place = none) (hle : place ≤ other) :
    ¬ bitmap.has other = true := by
  intro hother
  have hlt : other < 32 := BitVec.lt_of_getLsbD hother
  unfold firstFrom? at hnone
  exact List.find?_eq_none.mp hnone other (List.mem_range'_1.mpr (by omega)) hother

/-- If there is a mark, the first one is a mark. -/
theorem has_first (hplace : bitmap.has place = true) : bitmap.has bitmap.first = true := by
  unfold first
  cases hfirst : bitmap.firstFrom? 0 with
  | none => exact absurd hplace (not_has_of_firstFrom? hfirst (Nat.zero_le place))
  | some mark => exact (has_of_firstFrom? hfirst).2

/-- No other comes before it. -/
theorem first_le (hplace : bitmap.has place = true) : bitmap.first ≤ place := by
  unfold first
  cases hfirst : bitmap.firstFrom? 0 with
  | none => exact absurd hplace (not_has_of_firstFrom? hfirst (Nat.zero_le place))
  | some mark => exact le_of_firstFrom? hfirst (Nat.zero_le place) hplace

/-- A mark is the first one from its own place on. -/
theorem firstFrom?_of_has (hplace : bitmap.has place = true) :
    bitmap.firstFrom? place = some place := by
  cases hfirst : bitmap.firstFrom? place with
  | none => exact absurd hplace (not_has_of_firstFrom? hfirst (Nat.le_refl place))
  | some mark =>
    exact congrArg some (Nat.le_antisymm (le_of_firstFrom? hfirst (Nat.le_refl place) hplace)
      (has_of_firstFrom? hfirst).1)

theorem has_empty : has 0#32 place = false := BitVec.getLsbD_zero

end Bitmap

/-- A new list for one class does not show at the others. -/
theorem SizeClass.InRange.update_ne_nil_iff {sizeClass : SizeClass} (hclass : sizeClass.InRange)
    {members : Nat → List Nat} {new : List Nat} {level slot : Nat}
    (hother : ¬ (level = sizeClass.level ∧ slot = sizeClass.slot)) :
    (level < levelCount ∧ slot < slotCount ∧
      Function.update members sizeClass.number new (level * slotCount + slot) ≠ []) ↔
        level < levelCount ∧ slot < slotCount ∧ members (level * slotCount + slot) ≠ [] := by
  refine and_congr_right fun _ ↦ and_congr_right fun hslot ↦ ?_
  rw [Function.update_of_ne]
  exact fun heq ↦ hother ((hclass.number_eq_iff hslot).mp heq)

namespace FreeLists

theorem nodeOf_injective : Function.Injective nodeOf := fun _ _ heq ↦ Nat.add_left_cancel heq

theorem blockOf_nodeOf (block : Nat) : blockOf (nodeOf block) = .ok block := by
  unfold blockOf nodeOf Word.sub
  rw [if_pos (Nat.le_add_right _ _), Nat.add_sub_cancel_left]

theorem mapM_head_eq (head : Option Nat) : (head.map nodeOf).mapM blockOf = .ok head := by
  cases head with
  | none => rfl
  | some block =>
    rw [Option.map_some, Option.mapM_some, blockOf_nodeOf]
    rfl

/-- The marks of a level; one that is not there has none. -/
def slotsAt (lists : FreeLists) (level : Nat) : Bitmap := (lists.slots[level]?).getD 0#32

/-- The lists hold the given members, and the marks are those of the lists that have one. -/
structure Marked (lists : FreeLists) (members : Nat → List Nat) : Prop where
  rings : lists.rings.Holds classCount members
  slots_size : lists.slots.size = levelCount
  slot_marks : ∀ level slot, (lists.slotsAt level).has slot = true ↔
    level < levelCount ∧ slot < slotCount ∧ members (level * slotCount + slot) ≠ []
  level_marks : ∀ level, lists.levels.has level = true ↔
    ∃ slot, (lists.slotsAt level).has slot = true

/-- Where a search from a class on ends: at the first class with a member, if any has one. -/
inductive FirstFrom (members : Nat → List Nat) (start : SizeClass) : Option SizeClass → Prop
  | empty (hempty : ∀ sizeClass : SizeClass, sizeClass.InRange → start.AtMost sizeClass →
      members sizeClass.number = []) : FirstFrom members start none
  | found {found : SizeClass} (hclass : found.InRange) (hle : start.AtMost found)
      (hne : members found.number ≠ [])
      (hfirst : ∀ sizeClass : SizeClass, sizeClass.InRange → start.AtMost sizeClass →
        members sizeClass.number ≠ [] → found.AtMost sizeClass) :
      FirstFrom members start (some found)

theorem slotsAt_empty (level : Nat) : empty.slotsAt level = 0#32 := by
  simp only [slotsAt, empty, List.getElem?_toArray, List.getElem?_replicate]
  split_ifs <;> rfl

theorem marked_empty : empty.Marked fun _ ↦ [] where
  rings := Rings.holds_alone (Nat.le_refl classCount)
  slots_size := by simp only [empty, List.size_toArray, List.length_replicate]
  slot_marks := fun level slot ↦ by
    rw [slotsAt_empty, Bitmap.has_empty]
    simp
  level_marks := fun level ↦ by
    rw [slotsAt_empty]
    show Bitmap.has 0#32 level = true ↔ _
    simp only [Bitmap.has_empty]
    simp

/-! ### Marks are set and taken away -/

section Marks

variable {lists : FreeLists} {sizeClass : SizeClass} (hsize : lists.slots.size = levelCount)

include hsize

theorem slotsOf_eq {level : Nat} (hlevel : level < levelCount) :
    lists.slotsOf level = .ok (lists.slotsAt level) := by
  have hlt : level < lists.slots.size := hsize.symm ▸ hlevel
  simp only [slotsOf, slotsAt, Array.getElem?_eq_getElem hlt, Option.getD_some]

theorem slotsAt_setIfInBounds {level : Nat} (hlevel : level < levelCount) (slots levels : Bitmap)
    (other : Nat) :
    slotsAt { lists with slots := lists.slots.setIfInBounds level slots, levels } other =
      if other = level then slots else lists.slotsAt other := by
  have hlt : level < lists.slots.size := hsize.symm ▸ hlevel
  by_cases hother : other = level
  · subst hother
    simp [slotsAt, hlt]
  · simp [slotsAt, hother, Array.getElem?_setIfInBounds_ne (Ne.symm hother)]

variable (hlevels : ∀ level, lists.levels.has level = true ↔
  ∃ slot, (lists.slotsAt level).has slot = true) (hclass : sizeClass.InRange)

include hlevels hclass

/-- A class gets its mark, and its level has one then. -/
theorem mark_eq : ∃ after, lists.mark sizeClass = .ok after ∧ after.rings = lists.rings ∧
    after.slots.size = levelCount ∧
    (∀ level slot, (after.slotsAt level).has slot = true ↔
      level = sizeClass.level ∧ slot = sizeClass.slot ∨ (lists.slotsAt level).has slot = true) ∧
    ∀ level, after.levels.has level = true ↔ ∃ slot, (after.slotsAt level).has slot = true := by
  have hlevelLt : sizeClass.level < 32 := hclass.level_lt.trans (by decide)
  have hslotLt : sizeClass.slot < 32 := hclass.slot_lt.trans (by decide)
  have hat := slotsAt_setIfInBounds hsize hclass.level_lt
    ((lists.slotsAt sizeClass.level).mark sizeClass.slot) (lists.levels.mark sizeClass.level)
  refine ⟨{ lists with
    slots := lists.slots.setIfInBounds sizeClass.level
      ((lists.slotsAt sizeClass.level).mark sizeClass.slot)
    levels := lists.levels.mark sizeClass.level }, ?_, rfl, ?_, fun level slot ↦ ?_,
    fun level ↦ ?_⟩
  · simp only [mark, slotsOf_eq hsize hclass.level_lt, Bitmap.place_eq hslotLt,
      Bitmap.place_eq hlevelLt, ok_bind, pure_eq_ok]
  · rw [Array.size_setIfInBounds]
    exact hsize
  · rw [hat]
    split_ifs with hlevel
    · rw [Bitmap.has_mark hslotLt, hlevel]
      exact or_congr_left (and_iff_right rfl).symm
    · exact (or_iff_right fun hsame ↦ hlevel hsame.1).symm
  · rw [hat, Bitmap.has_mark hlevelLt]
    split_ifs with hlevel
    · exact iff_of_true (.inl hlevel) ⟨_, (Bitmap.has_mark hslotLt).mpr (.inl rfl)⟩
    · exact (or_iff_right hlevel).trans (hlevels level)

/-- A class loses its mark, and its level has one only if another slot of it does. -/
theorem unmark_eq : ∃ after, lists.unmark sizeClass = .ok after ∧ after.rings = lists.rings ∧
    after.slots.size = levelCount ∧
    (∀ level slot, (after.slotsAt level).has slot = true ↔
      ¬ (level = sizeClass.level ∧ slot = sizeClass.slot) ∧
        (lists.slotsAt level).has slot = true) ∧
    ∀ level, after.levels.has level = true ↔ ∃ slot, (after.slotsAt level).has slot = true := by
  have hlevelLt : sizeClass.level < 32 := hclass.level_lt.trans (by decide)
  have hslotLt : sizeClass.slot < 32 := hclass.slot_lt.trans (by decide)
  let slots := (lists.slotsAt sizeClass.level).unmark sizeClass.slot
  let levels := if slots.isEmpty then lists.levels.unmark sizeClass.level else lists.levels
  have hat := slotsAt_setIfInBounds hsize hclass.level_lt slots levels
  refine ⟨{ lists with slots := lists.slots.setIfInBounds sizeClass.level slots, levels }, ?_, rfl,
    ?_, fun level slot ↦ ?_, fun level ↦ ?_⟩
  · simp only [unmark, slotsOf_eq hsize hclass.level_lt, Bitmap.place_eq hslotLt,
      Bitmap.place_eq hlevelLt, ok_bind, pure_eq_ok, levels]
    split_ifs
    · rfl
    · rfl
  · rw [Array.size_setIfInBounds]
    exact hsize
  · rw [hat]
    split_ifs with hlevel
    · rw [Bitmap.has_unmark, hlevel]
      exact and_congr_left' (not_congr (and_iff_right rfl).symm)
    · exact (and_iff_right fun hsame ↦ hlevel hsame.1).symm
  · rw [hat]
    by_cases hlevel : level = sizeClass.level
    · rw [if_pos hlevel, hlevel]
      by_cases hempty : slots.isEmpty = true
      · have hnone := Bitmap.isEmpty_iff.mp hempty
        simp [levels, hempty, Bitmap.has_unmark, hnone]
      · obtain ⟨slot, hslot⟩ := not_forall.mp (mt Bitmap.isEmpty_iff.mpr hempty)
        have hmark : slots.has slot = true := Bool.not_eq_false _ ▸ hslot
        simp only [levels, hempty]
        exact iff_of_true ((hlevels _).mpr ⟨slot, (Bitmap.has_unmark.mp hmark).2⟩) ⟨slot, hmark⟩
    · rw [if_neg hlevel, ← hlevels]
      simp only [levels]
      split_ifs
      · exact Bitmap.has_unmark.trans (and_iff_right hlevel)
      · rfl

end Marks

/-! ### Marked lists -/

namespace Marked

variable {lists : FreeLists} {members : Nat → List Nat} (hlists : lists.Marked members)
  {sizeClass : SizeClass} (hclass : sizeClass.InRange)

include hlists

theorem slotsOf_eq {level : Nat} (hlevel : level < levelCount) :
    lists.slotsOf level = .ok (lists.slotsAt level) :=
  FreeLists.slotsOf_eq hlists.slots_size hlevel

theorem slotsAt_has (hclass : sizeClass.InRange) (hne : members sizeClass.number ≠ []) :
    (lists.slotsAt sizeClass.level).has sizeClass.slot = true :=
  (hlists.slot_marks _ _).mpr ⟨hclass.level_lt, hclass.slot_lt, hne⟩

theorem levels_has (hclass : sizeClass.InRange) (hne : members sizeClass.number ≠ []) :
    lists.levels.has sizeClass.level = true :=
  (hlists.level_marks _).mpr ⟨_, hlists.slotsAt_has hclass hne⟩

theorem inRange_of_has {level slot : Nat} (hmark : (lists.slotsAt level).has slot = true) :
    SizeClass.InRange ⟨level, slot⟩ ∧ members (SizeClass.number ⟨level, slot⟩) ≠ [] := by
  obtain ⟨hlevel, hslot, hne⟩ := (hlists.slot_marks level slot).mp hmark
  exact ⟨⟨hlevel, hslot⟩, hne⟩

/-- The search for a class ends at the first one with a member. -/
theorem of_classFrom? {start : SizeClass} {result : Option SizeClass}
    (hresult : lists.classFrom? start = .ok result) : FirstFrom members start result := by
  unfold classFrom? at hresult
  split_ifs at hresult with hlevel
  · obtain rfl := Except.ok.inj hresult
    refine .empty fun sizeClass hclass hle ↦ ?_
    have hlt := hclass.level_lt
    unfold SizeClass.AtMost at hle
    omega
  rw [hlists.slotsOf_eq (Nat.lt_of_not_le hlevel), ok_bind] at hresult
  obtain ⟨place, hplace, hresult⟩ := bind_eq_ok_iff.mp hresult
  obtain rfl := Bitmap.eq_of_place hplace
  cases hslot : (lists.slotsAt start.level).firstFrom? start.slot with
  | some slot =>
    simp only [hslot, pure_eq_ok, Except.ok.injEq] at hresult
    subst hresult
    obtain ⟨hle, hmark⟩ := Bitmap.has_of_firstFrom? hslot
    obtain ⟨hclass, hne⟩ := hlists.inRange_of_has hmark
    refine .found hclass (.inr ⟨rfl, hle⟩) hne fun other hother hatMost hotherNe ↦ ?_
    rcases hatMost with hlt | ⟨heq, hleOther⟩
    · exact .inl hlt
    · have hotherMark := hlists.slotsAt_has hother hotherNe
      exact .inr ⟨heq, Bitmap.le_of_firstFrom? hslot hleOther (heq ▸ hotherMark)⟩
  | none =>
    -- the level of the start has no mark left, so a class with a member is on a later one
    have hlater : ∀ other : SizeClass, other.InRange → start.AtMost other →
        members other.number ≠ [] → start.level < other.level := by
      intro other hother hatMost hotherNe
      refine hatMost.resolve_right fun ⟨heq, hle⟩ ↦ ?_
      exact Bitmap.not_has_of_firstFrom? hslot hle (heq ▸ hlists.slotsAt_has hother hotherNe)
    cases hnext : lists.levels.firstFrom? (start.level + 1) with
    | none =>
      simp only [hslot, hnext, pure_eq_ok, Except.ok.injEq] at hresult
      subst hresult
      refine .empty fun other hother hatMost ↦ ?_
      by_contra hne
      exact Bitmap.not_has_of_firstFrom? hnext (hlater other hother hatMost hne)
        (hlists.levels_has hother hne)
    | some level =>
      obtain ⟨hlt, hlevelMark⟩ := Bitmap.has_of_firstFrom? hnext
      obtain ⟨slot, hmark⟩ := (hlists.level_marks level).mp hlevelMark
      have hcount := (hlists.inRange_of_has hmark).1.level_lt
      simp only [hslot, hnext, hlists.slotsOf_eq hcount, ok_bind, pure_eq_ok,
        Except.ok.injEq] at hresult
      subst hresult
      obtain ⟨hclass, hne⟩ := hlists.inRange_of_has (Bitmap.has_first hmark)
      refine .found hclass (.inl hlt) hne fun other hother hatMost hotherNe ↦ ?_
      have hle := Bitmap.le_of_firstFrom? hnext (hlater other hother hatMost hotherNe)
        (hlists.levels_has hother hotherNe)
      rcases hle.lt_or_eq with hlt | rfl
      · exact .inl hlt
      · exact .inr ⟨rfl, Bitmap.first_le (hlists.slotsAt_has hother hotherNe)⟩

/-- The search for a class comes to its end. -/
theorem exists_classFrom? {start : SizeClass} (hstart : start.InRange) :
    ∃ found, lists.classFrom? start = .ok found := by
  have hplace : start.slot < 32 := hstart.slot_lt.trans (by decide)
  unfold classFrom?
  split_ifs with hlevel
  · exact ⟨none, rfl⟩
  rw [hlists.slotsOf_eq hstart.level_lt, ok_bind, Bitmap.place_eq hplace, ok_bind]
  cases hslot : (lists.slotsAt start.level).firstFrom? start.slot with
  | some slot => exact ⟨_, rfl⟩
  | none =>
    cases hnext : lists.levels.firstFrom? (start.level + 1) with
    | none => exact ⟨_, rfl⟩
    | some level =>
      obtain ⟨slot, hmark⟩ := (hlists.level_marks level).mp (Bitmap.has_of_firstFrom? hnext).2
      have hcount := ((hlists.slot_marks level slot).mp hmark).1
      dsimp only
      rw [hlists.slotsOf_eq hcount, ok_bind]
      exact ⟨_, rfl⟩

/-- The members of the lists are the nodes of blocks. -/
theorem exists_blocks {number : Nat} (hnumber : number < classCount) :
    ∃ blocks : List Nat, members number = blocks.map nodeOf :=
  hlists.rings.exists_map hnumber

/-- The search for a block gives the first one of the first list that has one. -/
theorem of_find? {need : Nat} {result : Option Nat} (hfind : lists.find? need = .ok result) :
    ∃ start found, SizeClass.searchFrom need = .ok start ∧ FirstFrom members start found ∧
      result.map nodeOf = found.bind fun sizeClass ↦ (members sizeClass.number).head? := by
  unfold find? at hfind
  obtain ⟨start, hstart, hfind⟩ := bind_eq_ok_iff.mp hfind
  obtain ⟨found, hfound, hfind⟩ := bind_eq_ok_iff.mp hfind
  have hfirst := hlists.of_classFrom? hfound
  refine ⟨start, found, hstart, hfirst, ?_⟩
  cases hfirst with
  | empty _ =>
    obtain rfl := Except.ok.inj hfind
    rfl
  | @found sizeClass hclass =>
    obtain ⟨blocks, hblocks⟩ := hlists.exists_blocks hclass.number_lt
    simp only [hclass.index_eq, ok_bind, hlists.rings.first? hclass.number_lt, hblocks,
      List.head?_map, mapM_head_eq, Except.ok.injEq] at hfind
    rw [Option.bind_some, hblocks, List.head?_map, hfind]

/-- What is found is the first block of a list, and no other list with a member comes before it from
the start of the search on. -/
theorem of_find?_eq_some {need block : Nat} (hfind : lists.find? need = .ok (some block)) :
    ∃ start sizeClass, SizeClass.searchFrom need = .ok start ∧ sizeClass.InRange ∧
      start.AtMost sizeClass ∧ (∀ other : SizeClass, other.InRange → start.AtMost other →
        members other.number ≠ [] → sizeClass.AtMost other) ∧
      (members sizeClass.number).head? = some (nodeOf block) := by
  obtain ⟨start, found, hstart, hfirst, hblock⟩ := hlists.of_find? hfind
  obtain ⟨sizeClass, rfl, hhead⟩ := Option.bind_eq_some_iff.mp hblock.symm
  cases hfirst with
  | found hclass hle _ hleast => exact ⟨start, sizeClass, hstart, hclass, hle, hleast, hhead⟩

/-- The lists tell what they hold. -/
theorem members_unique {others : Nat → List Nat} (hothers : lists.Marked others) {number : Nat}
    (hnumber : number < classCount) : members number = others number :=
  Except.ok.inj ((hlists.rings.members hnumber).symm.trans (hothers.rings.members hnumber))

/-- What the lists hold tells the marks of their classes. -/
theorem slots_eq {other : FreeLists} (hother : other.Marked members) :
    lists.slots = other.slots := by
  refine Array.ext (hlists.slots_size.trans hother.slots_size.symm)
    fun level hlevel hotherLevel ↦ ?_
  have hlevelAt : lists.slotsAt level = lists.slots[level] := by simp [slotsAt, hlevel]
  have hotherAt : other.slotsAt level = other.slots[level] := by simp [slotsAt, hotherLevel]
  rw [← hlevelAt, ← hotherAt]
  refine BitVec.eq_of_getLsbD_eq fun slot _ ↦ Bool.eq_iff_iff.mpr ?_
  exact (hlists.slot_marks level slot).trans (hother.slot_marks level slot).symm

/-- What the lists hold tells the marks of the levels. -/
theorem levels_eq {other : FreeLists} (hother : other.Marked members) :
    lists.levels = other.levels := by
  refine BitVec.eq_of_getLsbD_eq fun level _ ↦ Bool.eq_iff_iff.mpr ?_
  refine (hlists.level_marks level).trans (Iff.trans ?_ (hother.level_marks level).symm)
  exact exists_congr fun slot ↦ (hlists.slot_marks level slot).trans
    (hother.slot_marks level slot).symm

include hclass

theorem members_eq {blocks : List Nat} (hblocks : members sizeClass.number = blocks.map nodeOf) :
    lists.members sizeClass = .ok blocks := by
  simp only [FreeLists.members, hclass.index_eq, ok_bind, hlists.rings.members hclass.number_lt,
    hblocks, mapM_map_eq blockOf_nodeOf, List.map_id']

/-- A search from a class with a member on finds this class. -/
theorem classFrom?_of_ne_nil (hne : members sizeClass.number ≠ []) :
    lists.classFrom? sizeClass = .ok (some sizeClass) := by
  have hplace : sizeClass.slot < 32 := hclass.slot_lt.trans (by decide)
  unfold classFrom?
  rw [if_neg (Nat.not_le.mpr hclass.level_lt), hlists.slotsOf_eq hclass.level_lt, ok_bind,
    Bitmap.place_eq hplace, ok_bind, Bitmap.firstFrom?_of_has (hlists.slotsAt_has hclass hne)]
  rfl

/-- The first block of the class that a search starts from is found. -/
theorem find?_of_head {need block : Nat} (hstart : SizeClass.searchFrom need = .ok sizeClass)
    (hhead : (members sizeClass.number).head? = some (nodeOf block)) :
    lists.find? need = .ok (some block) := by
  have hne : members sizeClass.number ≠ [] := by
    intro hnil
    rw [hnil] at hhead
    cases hhead
  unfold find?
  rw [hstart, ok_bind, hlists.classFrom?_of_ne_nil hclass hne, ok_bind]
  dsimp only
  rw [hclass.index_eq, ok_bind, hlists.rings.first? hclass.number_lt, ok_bind, hhead]
  exact mapM_head_eq (some block)

/-- A block that is on no list can be put in front of the one for its size. -/
theorem insert {block size : Nat} (hsize : SizeClass.ofSize size = sizeClass)
    (hnone : ∀ number < classCount, nodeOf block ∉ members number) :
    ∃ after, lists.insert block size = .ok after ∧ after.Marked (Function.update members
      sizeClass.number (nodeOf block :: members sizeClass.number)) := by
  have hnode : nodeOf block < (lists.rings.extend (nodeOf block + 1)).size := by
    rw [Rings.size_extend]
    omega
  have hbeyond : classCount ≤ nodeOf block := Nat.le_add_right classCount block
  obtain ⟨rings, hinsert, -, hholds⟩ :=
    (hlists.rings.extend (nodeOf block + 1)).insertAfter hclass.number_lt hbeyond hnode hnone
  obtain ⟨after, hmark, hrings, hsizeAfter, hslots, hlevels⟩ :=
    @mark_eq { lists with rings } _ hlists.slots_size hlists.level_marks hclass
  refine ⟨after, ?_, hrings.symm ▸ hholds, hsizeAfter, fun level slot ↦ ?_, hlevels⟩
  · simp only [FreeLists.insert, hsize, hclass.index_eq, ok_bind, hinsert, hmark]
  · rw [hslots]
    by_cases hsame : level = sizeClass.level ∧ slot = sizeClass.slot
    · obtain ⟨rfl, rfl⟩ := hsame
      refine iff_of_true (.inl ⟨rfl, rfl⟩) ⟨hclass.level_lt, hclass.slot_lt, ?_⟩
      show Function.update members sizeClass.number _ sizeClass.number ≠ []
      rw [Function.update_self]
      exact List.cons_ne_nil _ _
    · rw [hclass.update_ne_nil_iff hsame, ← hlists.slot_marks]
      exact or_iff_right hsame

/-- A block can be taken off its list. -/
theorem remove {block size : Nat} (hsize : SizeClass.ofSize size = sizeClass)
    (hmem : nodeOf block ∈ members sizeClass.number) :
    ∃ after, lists.remove block size = .ok after ∧ after.Marked (Function.update members
      sizeClass.number ((members sizeClass.number).erase (nodeOf block))) := by
  obtain ⟨rings, hremove, -, hholds⟩ := hlists.rings.remove hclass.number_lt hmem
  have halone : rings.isAlone sizeClass.number =
      .ok ((members sizeClass.number).erase (nodeOf block)).isEmpty := by
    rw [hholds.isAlone_head hclass.number_lt, Function.update_self]
  have hown : Function.update members sizeClass.number ((members sizeClass.number).erase
      (nodeOf block)) (sizeClass.level * slotCount + sizeClass.slot) =
      (members sizeClass.number).erase (nodeOf block) := Function.update_self ..
  simp only [FreeLists.remove, hsize, hclass.index_eq, hremove, ok_bind, halone, pure_eq_ok]
  split_ifs with hempty
  · obtain ⟨after, hunmark, hrings, hsizeAfter, hslots, hlevels⟩ :=
      @unmark_eq { lists with rings } _ hlists.slots_size hlists.level_marks hclass
    refine ⟨after, hunmark, hrings.symm ▸ hholds, hsizeAfter, fun level slot ↦ ?_, hlevels⟩
    rw [hslots]
    by_cases hsame : level = sizeClass.level ∧ slot = sizeClass.slot
    · obtain ⟨rfl, rfl⟩ := hsame
      rw [hown]
      exact iff_of_false (fun hmark ↦ hmark.1 ⟨rfl, rfl⟩) fun hne ↦
        hne.2.2 (List.isEmpty_iff.mp hempty)
    · rw [hclass.update_ne_nil_iff hsame, ← hlists.slot_marks]
      exact and_iff_right hsame
  · refine ⟨_, rfl, hholds, hlists.slots_size, fun level slot ↦ ?_, hlists.level_marks⟩
    by_cases hsame : level = sizeClass.level ∧ slot = sizeClass.slot
    · obtain ⟨rfl, rfl⟩ := hsame
      rw [hown]
      have hmark := (hlists.slot_marks sizeClass.level sizeClass.slot).mpr
        ⟨hclass.level_lt, hclass.slot_lt, List.ne_nil_of_mem hmem⟩
      exact iff_of_true hmark ⟨hclass.level_lt, hclass.slot_lt, mt List.isEmpty_iff.mpr hempty⟩
    · rw [hclass.update_ne_nil_iff hsame]
      exact hlists.slot_marks level slot

end Marked

/-! ### Blocks sorted by size -/

/-- Just the given blocks are on lists, each on that of the class of its size. -/
structure Sorted (lists : FreeLists) (free : Set (Nat × Nat)) : Prop where
  size_le : ∀ block size, (block, size) ∈ free → size ≤ maxBlockSize
  unique : ∀ block first second, (block, first) ∈ free → (block, second) ∈ free → first = second
  marked : ∃ members, lists.Marked members ∧ ∀ sizeClass : SizeClass, sizeClass.InRange →
    ∀ node, node ∈ members sizeClass.number ↔
      ∃ block size, (block, size) ∈ free ∧ SizeClass.ofSize size = sizeClass ∧ node = nodeOf block

/-- A node is a head or that of one of the blocks. -/
def Reaches (free : Set (Nat × Nat)) (node : Nat) : Prop :=
  node < classCount ∨ ∃ block size, (block, size) ∈ free ∧ node = nodeOf block

theorem sorted_empty : empty.Sorted ∅ where
  size_le := fun _ _ hmem ↦ absurd hmem (Set.notMem_empty _)
  unique := fun _ _ _ hmem ↦ absurd hmem (Set.notMem_empty _)
  marked := ⟨_, marked_empty, fun _ _ _ ↦ by simp⟩

namespace Sorted

variable {lists : FreeLists} {free : Set (Nat × Nat)} (hlists : lists.Sorted free)
  {block size : Nat}

/-- What a list leads to is reached. -/
theorem reaches {members : Nat → List Nat} (hmembers : ∀ sizeClass : SizeClass, sizeClass.InRange →
    ∀ node, node ∈ members sizeClass.number ↔ ∃ block size, (block, size) ∈ free ∧
      SizeClass.ofSize size = sizeClass ∧ node = nodeOf block) {node : Nat}
    (hnode : node < classCount ∨ ∃ head < classCount, node ∈ members head) : Reaches free node := by
  rcases hnode with hhead | ⟨head, hhead, hmem⟩
  · exact Or.inl hhead
  · obtain ⟨sizeClass, hclass, rfl⟩ := SizeClass.exists_number hhead
    obtain ⟨block, size, hfree, -, rfl⟩ := (hmembers _ hclass _).mp hmem
    exact Or.inr ⟨block, size, hfree, rfl⟩

include hlists

theorem insert (hnone : ∀ size, (block, size) ∉ free) (hsize : size ≤ maxBlockSize) :
    ∃ after, lists.insert block size = .ok after ∧
      after.Sorted (Insert.insert (block, size) free) := by
  obtain ⟨hle, hunique, members, hmarked, hmembers⟩ := hlists
  have hclass := SizeClass.ofSize_inRange hsize
  obtain ⟨after, hafter, hmarkedAfter⟩ := hmarked.insert hclass rfl (by
    intro number hnumber hmem
    obtain ⟨sizeClass, hsizeClass, rfl⟩ := SizeClass.exists_number hnumber
    obtain ⟨other, otherSize, hother, -, heq⟩ := (hmembers sizeClass hsizeClass _).mp hmem
    obtain rfl : block = other := nodeOf_injective heq
    exact hnone otherSize hother)
  refine ⟨after, hafter, ?_, ?_, _, hmarkedAfter, fun sizeClass hsizeClass node ↦ ?_⟩
  · rintro other otherSize (heq | hmem)
    · exact (Prod.mk.inj heq).2 ▸ hsize
    · exact hle other otherSize hmem
  · rintro other first second (hfirst | hfirst) (hsecond | hsecond)
    · exact (Prod.mk.inj hfirst).2.trans (Prod.mk.inj hsecond).2.symm
    · exact absurd ((Prod.mk.inj hfirst).1 ▸ hsecond) (hnone second)
    · exact absurd ((Prod.mk.inj hsecond).1 ▸ hfirst) (hnone first)
    · exact hunique other first second hfirst hsecond
  · have hold := hmembers sizeClass hsizeClass node
    simp only [Set.mem_insert_iff, Prod.mk.injEq]
    by_cases heq : sizeClass = SizeClass.ofSize size
    · subst heq
      rw [Function.update_self, List.mem_cons, hold]
      grind
    · have hnumber : sizeClass.number ≠ (SizeClass.ofSize size).number := fun hsame ↦
        heq (SizeClass.number_inj hsizeClass.slot_lt hclass.slot_lt hsame)
      rw [Function.update_of_ne hnumber, hold]
      grind

theorem remove (hmem : (block, size) ∈ free) :
    ∃ after, lists.remove block size = .ok after ∧ after.Sorted (free \ {(block, size)}) := by
  obtain ⟨hle, hunique, members, hmarked, hmembers⟩ := hlists
  have hclass := SizeClass.ofSize_inRange (hle block size hmem)
  obtain ⟨after, hafter, hmarkedAfter⟩ := hmarked.remove hclass rfl
    ((hmembers _ hclass _).mpr ⟨block, size, hmem, rfl, rfl⟩)
  refine ⟨after, hafter, fun other otherSize hother ↦ hle other otherSize hother.1,
    fun other first second hfirst hsecond ↦ hunique other first second hfirst.1 hsecond.1,
    _, hmarkedAfter, fun sizeClass hsizeClass node ↦ ?_⟩
  have hold := hmembers sizeClass hsizeClass node
  simp only [Set.mem_sdiff, Set.mem_singleton_iff, Prod.mk.injEq]
  by_cases heq : sizeClass = SizeClass.ofSize size
  · subst heq
    rw [Function.update_self, (hmarked.rings.nodup _ hclass.number_lt).mem_erase_iff, hold]
    constructor
    · rintro ⟨hne, other, otherSize, hother, hsame, rfl⟩
      exact ⟨other, otherSize, ⟨hother, fun hboth ↦ hne (hboth.1 ▸ rfl)⟩, hsame, rfl⟩
    · rintro ⟨other, otherSize, ⟨hother, hne⟩, hsame, rfl⟩
      refine ⟨fun hnode ↦ ?_, other, otherSize, hother, hsame, rfl⟩
      obtain rfl := nodeOf_injective hnode
      exact hne ⟨rfl, hunique other otherSize size hother hmem⟩
  · have hnumber : sizeClass.number ≠ (SizeClass.ofSize size).number := fun hsame ↦
      heq (SizeClass.number_inj hsizeClass.slot_lt hclass.slot_lt hsame)
    rw [Function.update_of_ne hnumber, hold]
    constructor
    · rintro ⟨other, otherSize, hother, hsame, rfl⟩
      refine ⟨other, otherSize, ⟨hother, ?_⟩, hsame, rfl⟩
      rintro ⟨-, rfl⟩
      exact heq hsame.symm
    · rintro ⟨other, otherSize, ⟨hother, -⟩, hsame, rfl⟩
      exact ⟨other, otherSize, hother, hsame, rfl⟩

/-- The search for a block comes to its end if the size can be rounded up to that of a block. -/
theorem exists_find? {need rounded : Nat} (hround : roundUp need = .ok rounded)
    (hrounded : rounded ≤ maxBlockSize) : ∃ found, lists.find? need = .ok found := by
  obtain ⟨-, -, members, hmarked, -⟩ := hlists
  obtain ⟨found, hfound⟩ := hmarked.exists_classFrom? (SizeClass.ofSize_inRange hrounded)
  have hfirst := hmarked.of_classFrom? hfound
  unfold FreeLists.find?
  rw [SizeClass.searchFrom_of_roundUp hround, ok_bind, hfound, ok_bind]
  cases hfirst with
  | empty _ => exact ⟨none, rfl⟩
  | found hclass =>
    dsimp only
    obtain ⟨blocks, hblocks⟩ := hmarked.exists_blocks hclass.number_lt
    rw [hclass.index_eq, ok_bind, hmarked.rings.first? hclass.number_lt, ok_bind, hblocks,
      List.head?_map, mapM_head_eq]
    exact ⟨_, rfl⟩

/-- The lists hold just the given blocks. -/
theorem mem_iff {members : Nat → List Nat} (hmarked : lists.Marked members) {sizeClass : SizeClass}
    (hclass : sizeClass.InRange) {node : Nat} : node ∈ members sizeClass.number ↔
      ∃ block size, (block, size) ∈ free ∧ SizeClass.ofSize size = sizeClass ∧
        node = nodeOf block := by
  obtain ⟨-, -, others, hothers, hmembers⟩ := hlists
  rw [hmarked.members_unique hothers hclass.number_lt]
  exact hmembers sizeClass hclass node

theorem nodeOf_mem_iff {members : Nat → List Nat} (hmarked : lists.Marked members)
    {sizeClass : SizeClass} (hclass : sizeClass.InRange) :
    nodeOf block ∈ members sizeClass.number ↔
      ∃ size, (block, size) ∈ free ∧ SizeClass.ofSize size = sizeClass := by
  rw [hlists.mem_iff hmarked hclass]
  constructor
  · rintro ⟨other, size, hmem, hsame, heq⟩
    exact ⟨size, nodeOf_injective heq ▸ hmem, hsame⟩
  · rintro ⟨size, hmem, hsame⟩
    exact ⟨block, size, hmem, hsame, rfl⟩

/-- A block that is found comes first on the list for its size. -/
theorem head_of_find? {members : Nat → List Nat} (hmarked : lists.Marked members) {need : Nat}
    (hfind : lists.find? need = .ok (some block)) : ∃ size, (block, size) ∈ free ∧
      (members (SizeClass.ofSize size).number).head? = some (nodeOf block) := by
  obtain ⟨-, sizeClass, -, hclass, -, -, hhead⟩ := hmarked.of_find?_eq_some hfind
  obtain ⟨size, hmem, rfl⟩ :=
    (hlists.nodeOf_mem_iff hmarked hclass).mp (List.mem_of_mem_head? hhead)
  exact ⟨size, hmem, hhead⟩

/-- A block that is found is on a list and large enough. -/
theorem find? {need : Nat} (hneed : need ≤ maxBlockSize)
    (hfind : lists.find? need = .ok (some block)) : ∃ size, (block, size) ∈ free ∧ need ≤ size := by
  obtain ⟨members, hmarked, -⟩ := hlists.marked
  obtain ⟨start, hstart, hle⟩ := SizeClass.searchFrom_eq hneed
  obtain ⟨found, sizeClass, hfound, hclass, hatMost, -, hhead⟩ :=
    hmarked.of_find?_eq_some hfind
  obtain rfl : start = found := Except.ok.inj (hstart.symm.trans hfound)
  obtain ⟨size, hmem, rfl⟩ :=
    (hlists.nodeOf_mem_iff hmarked hclass).mp (List.mem_of_mem_head? hhead)
  exact ⟨size, hmem, hle size hatMost⟩

theorem isListed_iff : lists.isListed block = true ↔ ∃ size, (block, size) ∈ free := by
  obtain ⟨hle, -, members, hmarked, hmembers⟩ := hlists
  have hmem : (∃ number < classCount, nodeOf block ∈ members number) ↔
      ∃ size, (block, size) ∈ free := by
    constructor
    · rintro ⟨number, hnumber, hnode⟩
      obtain ⟨sizeClass, hclass, rfl⟩ := SizeClass.exists_number hnumber
      obtain ⟨other, size, hfree, -, heq⟩ := (hmembers sizeClass hclass _).mp hnode
      exact ⟨size, nodeOf_injective heq ▸ hfree⟩
    · rintro ⟨size, hfree⟩
      have hclass := SizeClass.ofSize_inRange (hle block size hfree)
      exact ⟨_, hclass.number_lt, (hmembers _ hclass _).mpr ⟨block, size, hfree, rfl, rfl⟩⟩
  rw [← hmem]
  unfold isListed
  by_cases hsize : nodeOf block < lists.rings.size
  · have hnode : classCount ≤ nodeOf block := Nat.le_add_right _ _
    rw [hmarked.rings.isAlone_node hnode hsize]
    simp
  · have hnode : lists.rings.isAlone (nodeOf block) =
        .error (.indexOutOfBounds lists.rings.size (nodeOf block)) := by
      unfold Rings.isAlone Rings.node
      rw [Array.getElem?_eq_none (Nat.le_of_not_lt hsize)]
      rfl
    rw [hnode]
    refine iff_of_false Bool.false_ne_true ?_
    rintro ⟨number, hnumber, hnodeMem⟩
    exact hsize (hmarked.rings.bounds number hnumber _ hnodeMem).2

/-- From a block on a list the nodes beside it are reached. -/
theorem exists_node (hmem : (block, size) ∈ free) :
    ∃ node, lists.node block = .ok node ∧ Reaches free node.prev ∧ Reaches free node.next := by
  have hlisted := hlists.isListed_iff.mpr ⟨size, hmem⟩
  obtain ⟨hle, -, members, hmarked, hmembers⟩ := hlists
  have hrings := hmarked.rings
  have hclass := SizeClass.ofSize_inRange (hle block size hmem)
  have hlt := hclass.number_lt
  have hnode := (hmembers _ hclass _).mpr ⟨block, size, hmem, rfl, rfl⟩
  have hne := (hrings.path _ hlt).next_ne (hrings.nodup _ hlt) (hrings.head_notMem hlt hlt) hnode
  refine ⟨lists.rings.view (nodeOf block), ?_, reaches hmembers (hrings.linked_prev hne),
    reaches hmembers (hrings.linked_next hne)⟩
  have hbounds := hrings.bounds _ hlt _ hnode
  simp only [FreeLists.node, hlisted, if_true, Rings.node_eq hbounds.2]

/-- From the head of a list its first member is reached, if it has one. -/
theorem exists_head (hsize : size ≤ maxBlockSize) :
    ∃ node, lists.head size = .ok node ∧ Reaches free node.next := by
  obtain ⟨-, -, members, hmarked, hmembers⟩ := hlists
  have hrings := hmarked.rings
  have hclass := SizeClass.ofSize_inRange hsize
  have hlt := hclass.number_lt
  refine ⟨lists.rings.view (SizeClass.ofSize size).number, ?_, ?_⟩
  · unfold FreeLists.head
    rw [hclass.index_eq, ok_bind, Rings.node_eq (hlt.trans_le hrings.heads_le)]
  · by_cases hself :
        lists.rings.next (SizeClass.ofSize size).number = (SizeClass.ofSize size).number
    · exact Or.inl (hself.trans_lt hlt)
    · exact reaches hmembers (hrings.linked_next hself)

theorem slotsOf_eq {level : Nat} (hlevel : level < levelCount) :
    lists.slotsOf level = .ok (lists.slotsAt level) := by
  obtain ⟨-, -, members, hmarked, -⟩ := hlists
  exact hmarked.slotsOf_eq hlevel

/-- A level has a mark just if one of its slots does. -/
theorem levels_has_iff {level : Nat} :
    lists.levels.has level = true ↔ ∃ slot, (lists.slotsAt level).has slot = true := by
  obtain ⟨-, -, members, hmarked, -⟩ := hlists
  exact hmarked.level_marks level

theorem levels_has (level : Nat) :
    lists.levels.has level = !(lists.slotsAt level).isEmpty := by
  rw [Bool.eq_iff_iff, hlists.levels_has_iff, Bool.not_eq_true', ← Bool.not_eq_true,
    Bitmap.isEmpty_iff, not_forall]
  simp only [Bool.not_eq_false]

/-- There are no marks but those of the classes. -/
theorem lt_of_slotsAt_has {level slot : Nat} (hmark : (lists.slotsAt level).has slot = true) :
    level < levelCount ∧ slot < slotCount := by
  obtain ⟨-, -, members, hmarked, -⟩ := hlists
  obtain ⟨hlevel, hslot, -⟩ := (hmarked.slot_marks level slot).mp hmark
  exact ⟨hlevel, hslot⟩

/-- Each list has just the blocks of its class, each once, and a slot has a mark just if its list
has a block. -/
theorem exists_members : ∃ members : SizeClass → List Nat, ∀ sizeClass, sizeClass.InRange →
    lists.members sizeClass = .ok (members sizeClass) ∧ (members sizeClass).Nodup ∧
    (∀ block, block ∈ members sizeClass ↔
      ∃ size, (block, size) ∈ free ∧ SizeClass.ofSize size = sizeClass) ∧
    (lists.slotsAt sizeClass.level).has sizeClass.slot = !(members sizeClass).isEmpty := by
  obtain ⟨members, hmarked, -⟩ := hlists.marked
  have hexists : ∀ sizeClass : SizeClass, ∃ blocks : List Nat, sizeClass.InRange →
      members sizeClass.number = blocks.map nodeOf := by
    intro sizeClass
    by_cases hclass : sizeClass.InRange
    · obtain ⟨blocks, hblocks⟩ := hmarked.exists_blocks hclass.number_lt
      exact ⟨blocks, fun _ ↦ hblocks⟩
    · exact ⟨[], fun hrange ↦ absurd hrange hclass⟩
  choose blocks hblocks using hexists
  refine ⟨blocks, fun sizeClass hclass ↦ ⟨hmarked.members_eq hclass (hblocks sizeClass hclass),
    ?_, fun block ↦ ?_, ?_⟩⟩
  · have hnodup := hmarked.rings.nodup _ hclass.number_lt
    rw [hblocks sizeClass hclass] at hnodup
    exact hnodup.of_map nodeOf
  · rw [← hlists.nodeOf_mem_iff hmarked hclass, hblocks sizeClass hclass,
      List.mem_map_of_injective nodeOf_injective]
  · rw [Bool.eq_iff_iff, hmarked.slot_marks, Bool.not_eq_true', ← Bool.not_eq_true,
      List.isEmpty_iff]
    have hnil : members sizeClass.number = [] ↔ blocks sizeClass = [] := by
      rw [hblocks sizeClass hclass, List.map_eq_nil_iff]
    exact ⟨fun hmark ↦ mt hnil.mpr hmark.2.2,
      fun hne ↦ ⟨hclass.level_lt, hclass.slot_lt, mt hnil.mp hne⟩⟩

end Sorted

end FreeLists

end KernelMemory
