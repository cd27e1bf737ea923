import KernelMemory.Heap.SizeClass
import KernelMemory.Proofs.Steps
import KernelMemory.Proofs.Word
import Mathlib.Order.Interval.Set.Defs
import Mathlib.Order.Monotone.Basic
import Mathlib.Tactic.SplitIfs

/-!
# Size classes in a row

The classes stand in a row, in which every class has its number, and two classes of one number are
the same (`number_inj`). The sizes are cut into intervals in the order of this row, each as wide as
the level of its class has it, and `rowStart` adds up the widths of all intervals before one. A size
is in a class or in a later one just if it has come to where the class starts
(`le_number_ofSize_iff`). What a size tells about its class follows from that: a larger size is not
in an earlier class (`atMost_ofSize`), the sizes of a class are those from its start to the next one
(`ofSize_eq_iff`), and up to the largest block every class has a list (`ofSize_inRange`). All of it
together is `classes_in_row`.
-/

set_option autoImplicit false
set_option relaxedAutoImplicit false

namespace KernelMemory

namespace SizeClass

/-- The class has a free list. -/
structure InRange (sizeClass : SizeClass) : Prop where
  level_lt : sizeClass.level < levelCount
  slot_lt : sizeClass.slot < slotCount

/-- The place of a class in the row of all classes. -/
def number (sizeClass : SizeClass) : Nat := sizeClass.level * slotCount + sizeClass.slot

theorem InRange.number_lt {sizeClass : SizeClass} (hclass : sizeClass.InRange) :
    sizeClass.number < classCount := by
  have hlevel := hclass.level_lt
  have hslot := hclass.slot_lt
  have hnext : (sizeClass.level + 1) * slotCount ≤ levelCount * slotCount :=
    Nat.mul_le_mul_right slotCount hlevel
  rw [Nat.add_mul] at hnext
  unfold number classCount
  omega

theorem InRange.number_eq_iff {sizeClass : SizeClass} (hclass : sizeClass.InRange)
    {level slot : Nat} (hslot : slot < slotCount) :
    level * slotCount + slot = sizeClass.number ↔
      level = sizeClass.level ∧ slot = sizeClass.slot := by
  have hslotClass : sizeClass.slot < 16 := hclass.slot_lt
  have hslot16 : slot < 16 := hslot
  show level * 16 + slot = sizeClass.level * 16 + sizeClass.slot ↔ _
  omega

/-! ### The order of the row -/

/-- The first class comes before the second one or is the same. -/
def AtMost (first second : SizeClass) : Prop :=
  first.level < second.level ∨ first.level = second.level ∧ first.slot ≤ second.slot

section Order

variable {first second sizeClass : SizeClass} {number : Nat}

/-- Classes come in the order of their numbers. -/
theorem number_le_iff (hfirst : first.slot < slotCount) (hsecond : second.slot < slotCount) :
    first.number ≤ second.number ↔ first.AtMost second := by
  have hfirstSlot : first.slot < 16 := hfirst
  have hsecondSlot : second.slot < 16 := hsecond
  show first.level * 16 + first.slot ≤ second.level * 16 + second.slot ↔ _
  unfold AtMost
  omega

theorem number_div (hslot : sizeClass.slot < slotCount) :
    sizeClass.number / slotCount = sizeClass.level := by
  have hslot16 : sizeClass.slot < 16 := hslot
  show (sizeClass.level * 16 + sizeClass.slot) / 16 = _
  omega

theorem number_inj (hfirst : first.slot < slotCount) (hsecond : second.slot < slotCount)
    (heq : first.number = second.number) : first = second := by
  have hlevel : first.level = second.level := by
    rw [← number_div hfirst, heq, number_div hsecond]
  obtain ⟨level, slot⟩ := first
  obtain ⟨otherLevel, otherSlot⟩ := second
  obtain rfl : level = otherLevel := hlevel
  obtain rfl : slot = otherSlot := Nat.add_left_cancel heq
  rfl

theorem exists_number (hnumber : number < classCount) :
    ∃ sizeClass : SizeClass, sizeClass.InRange ∧ sizeClass.number = number := by
  have hcount : classCount = 26 * 16 := rfl
  refine ⟨⟨number / 16, number % 16⟩, ⟨?_, Nat.mod_lt _ (by decide)⟩, Nat.div_add_mod' number 16⟩
  show number / 16 < 26
  omega

/-- The number of a class is found if it is a word. -/
theorem index_eq_of_number_lt (hnumber : sizeClass.number < Word.limit) :
    sizeClass.index = .ok sizeClass.number := by
  have hmul : Word.mul sizeClass.level slotCount = .ok (sizeClass.level * slotCount) :=
    if_pos (Nat.lt_of_le_of_lt (Nat.le_add_right _ _) hnumber)
  unfold index
  rw [hmul, ok_bind]
  exact if_pos hnumber

theorem InRange.index_eq (hclass : sizeClass.InRange) :
    sizeClass.index = .ok sizeClass.number :=
  index_eq_of_number_lt (hclass.number_lt.trans (by decide))

theorem eq_number_of_index_eq_ok (hindex : sizeClass.index = .ok number) :
    number = sizeClass.number := by
  obtain ⟨product, hproduct, hsum⟩ := bind_eq_ok_iff.mp hindex
  rw [Word.eq_of_add_eq_ok hsum, Word.eq_of_mul_eq_ok hproduct, SizeClass.number]

end Order

/-! ### The slot of a size -/

/-- The highest bit of a large size comes right before those that select the slot. -/
theorem log2_eq_slotShift_add {size : Nat} (hsize : smallSize ≤ size) :
    size.log2 = slotShift size + 4 ∧ 4 ≤ slotShift size := by
  have hne : size ≠ 0 := by
    rintro rfl
    exact absurd hsize (by decide)
  have hlog : 8 ≤ size.log2 := (Nat.le_log2 hne).mpr hsize
  unfold slotShift slotBits
  omega

theorem two_pow_slotShift_le {size : Nat} (hsize : smallSize ≤ size) :
    2 ^ (slotShift size + 4) ≤ size := by
  rw [← (log2_eq_slotShift_add hsize).1]
  exact Nat.log2_self_le (Nat.ne_of_gt (Nat.lt_of_lt_of_le (by decide) hsize))

theorem lt_two_pow_slotShift {size : Nat} (hsize : smallSize ≤ size) :
    size < 2 ^ (slotShift size + 5) := by
  have hlt : size < 2 ^ (size.log2 + 1) := Nat.lt_log2_self
  rwa [(log2_eq_slotShift_add hsize).1] at hlt

/-- The leading bits of a size, which select the slot on its level. -/
theorem shiftRight_slotShift {size : Nat} (hsize : smallSize ≤ size) :
    slotCount ≤ size >>> slotShift size ∧ size >>> slotShift size < 2 * slotCount := by
  have hpos := Nat.two_pow_pos (slotShift size)
  rw [Nat.shiftRight_eq_div_pow, Nat.le_div_iff_mul_le hpos, Nat.div_lt_iff_lt_mul hpos]
  constructor
  · rw [Nat.mul_comm]
    exact (Nat.pow_add 2 _ 4).symm.trans_le (two_pow_slotShift_le hsize)
  · rw [Nat.mul_comm]
    exact (lt_two_pow_slotShift hsize).trans_eq (Nat.pow_add 2 _ 5)

/-- The highest of the leading bits is always set and does not count. -/
theorem xor_slotCount : ∀ leading < 2 * slotCount, slotCount ≤ leading →
    leading ^^^ slotCount = leading - slotCount := by
  decide

theorem ofSize_of_lt {size : Nat} (hsize : size < smallSize) :
    ofSize size = ⟨0, size / blockAlign⟩ :=
  if_pos hsize

/-- The level of a large size goes with the place of its highest bit, and the slot with the bits
behind that. -/
theorem ofSize_of_le {size : Nat} (hsize : smallSize ≤ size) :
    0 < (ofSize size).level ∧ slotShift size = (ofSize size).level + 3 ∧
      size / 2 ^ slotShift size = slotCount + (ofSize size).slot := by
  obtain ⟨hlog, hshift⟩ := log2_eq_slotShift_add hsize
  obtain ⟨hlow, hhigh⟩ := shiftRight_slotShift hsize
  unfold ofSize
  rw [if_neg (Nat.not_lt.mpr hsize), ← Nat.shiftRight_eq_div_pow]
  refine ⟨Nat.succ_pos _, ?_, ?_⟩
  · simp only [smallShift, slotBits, alignShift]
    omega
  · dsimp only
    rw [xor_slotCount _ hhigh hlow, Nat.add_sub_cancel' hlow]

theorem ofSize_slot_lt (size : Nat) : (ofSize size).slot < slotCount := by
  rcases Nat.lt_or_ge size smallSize with hsmall | hlarge
  · rw [ofSize_of_lt hsmall]
    exact (Nat.div_lt_iff_lt_mul (by decide)).mpr hsmall
  · obtain ⟨-, -, hslot⟩ := ofSize_of_le hlarge
    have hhigh := (shiftRight_slotShift hlarge).2
    rw [Nat.shiftRight_eq_div_pow] at hhigh
    omega

/-! ### Where a class starts -/

/-- The number of sizes in the class of a size. -/
def width (size : Nat) : Nat := if size < smallSize then blockAlign else 2 ^ slotShift size

theorem width_pos (size : Nat) : 0 < width size := by
  unfold width
  split_ifs
  · decide
  · exact Nat.two_pow_pos _

/-- The number of sizes in each class of a level. -/
def extent (level : Nat) : Nat := if level = 0 then blockAlign else 2 ^ (level + 3)

/-- The first size of the class with the given number. The classes before it follow each other from
zero on. -/
def rowStart : Nat → Nat
  | 0 => 0
  | number + 1 => rowStart number + extent (number / slotCount)

theorem extent_pos (level : Nat) : 0 < extent level := by
  unfold extent
  split_ifs
  · decide
  · exact Nat.two_pow_pos _

theorem rowStart_strictMono : StrictMono rowStart :=
  strictMono_nat_of_lt_succ fun _ ↦ Nat.lt_add_of_pos_right (extent_pos _)

/-- The classes of one level are equally wide. -/
theorem rowStart_add (level : Nat) {slot : Nat} (hslot : slot ≤ slotCount) :
    rowStart (level * slotCount + slot) = rowStart (level * slotCount) + slot * extent level := by
  induction slot with
  | zero => rw [Nat.add_zero, Nat.zero_mul, Nat.add_zero]
  | succ slot ih =>
    have hlevel : (level * slotCount + slot) / slotCount = level := @number_div ⟨level, slot⟩ hslot
    rw [← Nat.add_assoc, rowStart, ih (Nat.le_of_succ_le hslot), hlevel, Nat.succ_mul,
      Nat.add_assoc]

/-- The classes of a level have as many sizes as all the classes before them. -/
theorem rowStart_level {level : Nat} (hlevel : 0 < level) :
    rowStart (level * slotCount) = slotCount * extent level := by
  induction level, hlevel using Nat.le_induction with
  | base => decide
  | succ level hlevel ih =>
    have hdouble : extent (level + 1) = 2 * extent level := by
      unfold extent
      rw [if_neg (Nat.succ_ne_zero _), if_neg (Nat.ne_of_gt hlevel), Nat.add_right_comm,
        Nat.pow_succ, Nat.mul_comm]
    rw [Nat.succ_mul, rowStart_add level (Nat.le_refl _), ih, hdouble, ← Nat.two_mul,
      Nat.mul_left_comm]

section Sizes

variable {size number : Nat} {sizeClass : SizeClass}

theorem extent_ofSize (size : Nat) : extent (ofSize size).level = width size := by
  unfold width extent
  split_ifs with hlevel hsmall hsmall
  · rfl
  · exact absurd hlevel (Nat.ne_of_gt (ofSize_of_le (Nat.le_of_not_lt hsmall)).1)
  · exact absurd (congrArg level (ofSize_of_lt hsmall)) hlevel
  · rw [(ofSize_of_le (Nat.le_of_not_lt hsmall)).2.1]

/-- The class of a size starts at the last multiple of its width. -/
theorem rowStart_ofSize (size : Nat) :
    rowStart (ofSize size).number = size / width size * width size := by
  have hadd := rowStart_add (ofSize size).level (Nat.le_of_lt (ofSize_slot_lt size))
  rw [extent_ofSize] at hadd
  unfold SizeClass.number
  rw [hadd]
  rcases Nat.lt_or_ge size smallSize with hsmall | hlarge
  · have hwidth : width size = blockAlign := if_pos hsmall
    rw [ofSize_of_lt hsmall, hwidth, Nat.zero_mul, rowStart, Nat.zero_add]
  · have hwidth : width size = 2 ^ slotShift size := if_neg (Nat.not_lt.mpr hlarge)
    obtain ⟨hlevel, -, hslot⟩ := ofSize_of_le hlarge
    -- The leading bit, which the slot leaves out, stands for the sizes on the levels before.
    rw [rowStart_level hlevel, extent_ofSize, ← Nat.add_mul, hwidth, hslot]

theorem rowStart_succ (hslot : sizeClass.slot < slotCount) :
    rowStart (sizeClass.number + 1) = rowStart sizeClass.number + extent sizeClass.level := by
  rw [rowStart, number_div hslot]

theorem rowStart_le (size : Nat) : rowStart (ofSize size).number ≤ size := by
  rw [rowStart_ofSize]
  exact Nat.div_mul_le_self _ _

theorem lt_rowStart_succ (size : Nat) : size < rowStart ((ofSize size).number + 1) := by
  rw [rowStart_succ (ofSize_slot_lt size), extent_ofSize, rowStart_ofSize]
  exact Nat.lt_div_mul_add (width_pos size)

/-- A size is in a class or a later one just if it has come to its start. -/
theorem le_number_ofSize_iff : number ≤ (ofSize size).number ↔ rowStart number ≤ size := by
  constructor
  · intro hle
    exact (rowStart_strictMono.monotone hle).trans (rowStart_le size)
  · intro hle
    exact Nat.le_of_lt_succ
      (rowStart_strictMono.lt_iff_lt.mp (hle.trans_lt (lt_rowStart_succ size)))

theorem number_ofSize_eq_iff : (ofSize size).number = number ↔
    size ∈ Set.Ico (rowStart number) (rowStart (number + 1)) := by
  rw [Set.mem_Ico, ← le_number_ofSize_iff, ← Nat.not_le, ← le_number_ofSize_iff]
  omega

theorem number_rowStart (number : Nat) : (ofSize (rowStart number)).number = number :=
  number_ofSize_eq_iff.mpr ⟨Nat.le_refl _, rowStart_strictMono (Nat.lt_succ_self number)⟩

/-- The sizes of a class lie between its start and the next one. -/
theorem ofSize_eq_iff (hslot : sizeClass.slot < slotCount) : ofSize size = sizeClass ↔
    size ∈ Set.Ico (rowStart sizeClass.number) (rowStart (sizeClass.number + 1)) := by
  rw [← number_ofSize_eq_iff]
  exact ⟨congrArg _, number_inj (ofSize_slot_lt size) hslot⟩

/-- A larger size is in the same class or in a later one. -/
theorem number_mono {first second : Nat} (hle : first ≤ second) :
    (ofSize first).number ≤ (ofSize second).number :=
  le_number_ofSize_iff.mpr ((rowStart_le first).trans hle)

theorem atMost_ofSize {first second : Nat} (hle : first ≤ second) :
    (ofSize first).AtMost (ofSize second) :=
  (number_le_iff (ofSize_slot_lt first) (ofSize_slot_lt second)).mp (number_mono hle)

theorem ofSize_inRange (hsize : size ≤ maxBlockSize) : (ofSize size).InRange := by
  refine ⟨?_, ofSize_slot_lt size⟩
  have hend : rowStart (levelCount * slotCount) = 2 ^ 33 := rowStart_level (by decide)
  have hmax : maxBlockSize = 2 ^ 32 := rfl
  have hnumber : (ofSize size).number < levelCount * slotCount := by
    rw [← Nat.not_le, le_number_ofSize_iff]
    omega
  rw [← number_div (ofSize_slot_lt size)]
  exact (Nat.div_lt_iff_lt_mul (by decide)).mpr hnumber

theorem index_ofSize (hsize : size < Word.limit) :
    (ofSize size).index = .ok (ofSize size).number := by
  have hend : rowStart (57 * slotCount) = 2 ^ 64 := rowStart_level (by decide)
  have hlimit : Word.limit = 2 ^ 64 := rfl
  have hnumber : (ofSize size).number < 57 * slotCount := by
    rw [← Nat.not_le, le_number_ofSize_iff]
    omega
  exact index_eq_of_number_lt (hnumber.trans (by decide))

end Sizes

/-- The numbers of classes come in the order of the sizes, and two classes never share one. The
sizes of a class are an interval, as wide as its level has it, and behind it the interval of the
next class starts. Up to the largest block every size has a class with a list. -/
theorem classes_in_row :
    (∀ first second, first ≤ second → second < Word.limit → ∃ number next,
      (ofSize first).index = .ok number ∧ (ofSize second).index = .ok next ∧ number ≤ next) ∧
    (∀ size < Word.limit, (ofSize size).slot < slotCount) ∧
    (∀ first second : SizeClass, first.slot < slotCount → second.slot < slotCount →
      ∀ number, first.index = .ok number → second.index = .ok number → first = second) ∧
    (∀ sizeClass : SizeClass, sizeClass.slot < slotCount →
      ∀ number, sizeClass.index = .ok number →
        {size | ofSize size = sizeClass} = Set.Ico (rowStart number) (rowStart (number + 1)) ∧
        rowStart (number + 1) = rowStart number + extent sizeClass.level) ∧
    ∀ size ≤ maxBlockSize, (ofSize size).level < levelCount ∧
      ∃ number < classCount, (ofSize size).index = .ok number := by
  refine ⟨fun first second hle hsecond ↦ ?_, fun size _ ↦ ofSize_slot_lt size,
    fun first second hfirst hsecond number hnumber hother ↦ ?_,
    fun sizeClass hslot number hnumber ↦ ?_, fun size hsize ↦ ?_⟩
  · exact ⟨_, _, index_ofSize (hle.trans_lt hsecond), index_ofSize hsecond, number_mono hle⟩
  · refine number_inj hfirst hsecond ?_
    rw [← eq_number_of_index_eq_ok hnumber, ← eq_number_of_index_eq_ok hother]
  · obtain rfl := eq_number_of_index_eq_ok hnumber
    exact ⟨Set.ext fun _ ↦ ofSize_eq_iff hslot, rowStart_succ hslot⟩
  · have hclass := ofSize_inRange hsize
    exact ⟨hclass.level_lt, _, hclass.number_lt, hclass.index_eq⟩

/-- The last class of level zero and the first one of the next level meet at the end of the small
sizes, and they are equally wide. -/
theorem classes_in_row_at_small_size :
    255 ≤ 256 ∧ 256 < Word.limit ∧
    (ofSize 255).index = .ok 15 ∧ (ofSize 256).index = .ok 16 ∧
    {size | ofSize size = ⟨0, 15⟩} = Set.Ico 240 256 ∧
    {size | ofSize size = ⟨1, 0⟩} = Set.Ico 256 272 ∧
    (ofSize maxBlockSize).level < levelCount := by
  obtain ⟨hnumbers, -, -, hsizes, hlevels⟩ := classes_in_row
  obtain ⟨number, next, hnumber, hnext, -⟩ := hnumbers 255 256 (by decide) (by decide)
  obtain rfl : number = 15 := eq_number_of_index_eq_ok hnumber
  obtain rfl : next = 16 := eq_number_of_index_eq_ok hnext
  exact ⟨by decide, by decide, hnumber, hnext, (hsizes ⟨0, 15⟩ (by decide) 15 rfl).1,
    (hsizes ⟨1, 0⟩ (by decide) 16 rfl).1, (hlevels maxBlockSize (Nat.le_refl _)).1⟩

end SizeClass

end KernelMemory
