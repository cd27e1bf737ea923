import KernelMemory.Proofs.Heap.SizeClass

/-!
# Rounding up to the start of a class

Rounding a size up gives the first size from there on that starts a class (`roundUp_eq_ite`,
`SizeClass.ceiling_le_rowStart_iff`), unless there is no such word. So a class that starts at the
size rounded up, or later, is one whose sizes are all large enough, and every class before it has
a smaller size: to round up and to look up the class are adjoint, and less than a sixteenth of a
large size is lost (`rounds_to_class_start`).
-/

set_option autoImplicit false
set_option relaxedAutoImplicit false

namespace KernelMemory

/-! ### The end of the words -/

/-- The exponent of the width of a large word, which is what the rounding mask is made of. -/
theorem slotShift_lt {size : Nat} (hsmall : smallSize ≤ size) (hsize : size < Word.limit) :
    slotShift size < 60 := by
  have hpow : slotShift size + 4 < 64 := (Nat.pow_lt_pow_iff_right (Nat.one_lt_succ_succ 0)).mp
    ((SizeClass.two_pow_slotShift_le hsmall).trans_lt hsize)
  omega

/-- Only within one width of the end of the words there is no word to round up to. -/
theorem lt_iff_limit_le {size : Nat} (hsmall : smallSize ≤ size) (hsize : size < Word.limit) :
    2 ^ 64 - 2 ^ 59 < size ↔ Word.limit ≤ size + (2 ^ slotShift size - 1) := by
  have hlimit : Word.limit = 2 ^ 64 := rfl
  have hshift := slotShift_lt hsmall hsize
  have hhigh := SizeClass.lt_two_pow_slotShift hsmall
  rcases Nat.lt_or_ge (slotShift size) 59 with hlow | hlast
  · have hwidth : 2 ^ slotShift size ≤ 2 ^ 58 := Nat.pow_le_pow_right (by decide) (by omega)
    have hhalf : size < 2 ^ 63 :=
      hhigh.trans_le (Nat.pow_le_pow_right (by decide) (by omega))
    omega
  · rw [show slotShift size = 59 by omega]
    omega

namespace SizeClass

variable {size number : Nat}

/-! ### Rounding up without bound -/

/-- The first size of a class that is at least the given one. -/
def ceiling (size : Nat) : Nat := (size + (width size - 1)) / width size * width size

/-- It is the next multiple of the width. -/
theorem isLeast_ceiling (size : Nat) :
    IsLeast {multiple | width size ∣ multiple ∧ size ≤ multiple} (ceiling size) :=
  Word.isLeast_multiple size (width_pos size)

theorem le_ceiling (size : Nat) : size ≤ ceiling size :=
  (isLeast_ceiling size).1.2

theorem ceiling_lt (size : Nat) : ceiling size < size + width size := by
  have hpos := width_pos size
  have hle := Nat.div_mul_le_self (size + (width size - 1)) (width size)
  unfold ceiling
  omega

/-- The size that starts a class is a multiple of its width. -/
theorem width_dvd_rowStart (number : Nat) : width (rowStart number) ∣ rowStart number := by
  have hstart := rowStart_ofSize (rowStart number)
  rw [number_rowStart] at hstart
  exact ⟨_, hstart.trans (Nat.mul_comm _ _)⟩

/-- A class ends a whole number of widths after it starts. -/
theorem width_dvd_rowStart_succ (size : Nat) :
    width size ∣ rowStart ((ofSize size).number + 1) := by
  rw [rowStart_succ (ofSize_slot_lt size), extent_ofSize, rowStart_ofSize]
  exact Nat.dvd_add (Nat.dvd_mul_left _ _) (Nat.dvd_refl _)

/-- The starts of classes that a size has not passed are those that it has not passed when it is
rounded up. -/
theorem ceiling_le_rowStart_iff : ceiling size ≤ rowStart number ↔ size ≤ rowStart number := by
  refine ⟨(le_ceiling size).trans, fun hle ↦ ?_⟩
  rcases Nat.lt_or_ge (ofSize size).number number with hlater | hearlier
  · have hnext := (isLeast_ceiling size).2
      ⟨width_dvd_rowStart_succ size, (lt_rowStart_succ size).le⟩
    exact hnext.trans (rowStart_strictMono.monotone hlater)
  · -- The size is not before a start that it has come to, so it is the start itself.
    have heq : size = rowStart number := hle.antisymm (le_number_ofSize_iff.mp hearlier)
    exact (isLeast_ceiling size).2 ⟨heq ▸ width_dvd_rowStart number, hle⟩

/-- A size rounded up starts a class, its own one or the next. -/
theorem exists_rowStart_eq_ceiling (size : Nat) : ∃ number, rowStart number = ceiling size := by
  rcases Nat.lt_or_ge (rowStart (ofSize size).number) (ceiling size) with hlt | hge
  · refine ⟨(ofSize size).number + 1, Nat.le_antisymm ?_ ?_⟩
    · refine Nat.le_of_lt_add_of_dvd ?_ (width_dvd_rowStart_succ size) (isLeast_ceiling size).1.1
      rw [rowStart_succ (ofSize_slot_lt size), extent_ofSize]
      exact Nat.add_lt_add_right hlt _
    · exact ceiling_le_rowStart_iff.mpr (lt_rowStart_succ size).le
  · exact ⟨_, ((rowStart_le size).trans (le_ceiling size)).antisymm hge⟩

/-- A large size has at least sixteen times the width of its class. -/
theorem width_mul_le (hsize : smallSize ≤ size) : 16 * width size ≤ size := by
  have hwidth : width size = 2 ^ slotShift size := if_neg (Nat.not_lt.mpr hsize)
  rw [hwidth, Nat.mul_comm]
  exact (Nat.pow_add 2 _ 4).symm.trans_le (two_pow_slotShift_le hsize)

/-! ### The size that starts a class -/

/-- No smaller size is in the class of this one. -/
def StartsClass (size : Nat) : Prop := ∀ other < size, ofSize other ≠ ofSize size

theorem startsClass_iff : StartsClass size ↔ ∃ number, rowStart number = size := by
  constructor
  · intro hstarts
    refine ⟨(ofSize size).number, (rowStart_le size).eq_of_not_lt fun hlt ↦ hstarts _ hlt ?_⟩
    exact number_inj (ofSize_slot_lt _) (ofSize_slot_lt size) (number_rowStart _)
  · rintro ⟨number, rfl⟩ other hlt heq
    have hle : number ≤ (ofSize other).number := by rw [heq, number_rowStart]
    exact hlt.not_ge (le_number_ofSize_iff.mp hle)

/-- A size rounded up is the first one from there on that starts a class. -/
theorem isLeast_ceiling_startsClass (size : Nat) :
    IsLeast {start | size ≤ start ∧ StartsClass start} (ceiling size) := by
  refine ⟨⟨le_ceiling size, startsClass_iff.mpr (exists_rowStart_eq_ceiling size)⟩, ?_⟩
  rintro start ⟨hle, hstarts⟩
  obtain ⟨number, rfl⟩ := startsClass_iff.mp hstarts
  exact ceiling_le_rowStart_iff.mpr hle

/-- A size that starts a class is a whole number of alignment steps. -/
theorem blockAlign_dvd_of_width {size : Nat} (hstart : width size ∣ size) : blockAlign ∣ size := by
  refine Nat.dvd_trans ?_ hstart
  unfold width
  split_ifs with hsmall
  · exact Nat.dvd_refl _
  · exact Nat.pow_dvd_pow 2 (log2_eq_slotShift_add (Nat.le_of_not_lt hsmall)).2

end SizeClass

/-! ### Rounding up words -/

section RoundUp

variable {size rounded : Nat}

/-- Rounding up gives the first size of a class, or faults where that is no word. -/
theorem roundUp_eq_ite (hsize : size < Word.limit) : roundUp size =
    if 2 ^ 64 - 2 ^ 59 < size then .error .addOverflow else .ok (SizeClass.ceiling size) := by
  by_cases hsmall : size < smallSize
  · have hlast : ¬ 2 ^ 64 - 2 ^ 59 < size := Nat.not_lt.mpr (hsmall.le.trans (by decide))
    have hword : size + 15 < Word.limit := (Nat.add_lt_add_right hsmall 15).trans (by decide)
    have hwidth : SizeClass.width size = 16 := if_pos hsmall
    rw [roundUp, if_pos hsmall, if_neg hlast, SizeClass.ceiling, hwidth]
    exact congrArg _ (@Word.and_complement (size + 15) hword 4 (by decide))
  · have hlarge := Nat.le_of_not_lt hsmall
    have hlast := lt_iff_limit_le hlarge hsize
    have hshift := slotShift_lt hlarge hsize
    have hwidth : SizeClass.width size = 2 ^ slotShift size := if_neg hsmall
    rw [roundUp, if_neg hsmall]
    simp only [Nat.one_shiftLeft, Word.add]
    by_cases hfits : size + (2 ^ slotShift size - 1) < Word.limit
    · rw [if_pos hfits, if_neg (fun hlt ↦ Nat.not_le.mpr hfits (hlast.mp hlt)), ok_bind,
        pure_eq_ok, Word.and_complement hfits (by omega), SizeClass.ceiling, hwidth]
    · rw [if_neg hfits, if_pos (hlast.mpr (Nat.le_of_not_lt hfits)), error_bind]

/-- A size that is not among the last words can be rounded up. -/
theorem roundUp_of_le (hsize : size ≤ 2 ^ 64 - 2 ^ 59) :
    roundUp size = .ok (SizeClass.ceiling size) := by
  rw [roundUp_eq_ite (hsize.trans_lt (by decide)), if_neg (Nat.not_lt.mpr hsize)]

/-- A size that can be rounded up is a word. -/
theorem lt_limit_of_roundUp (hround : roundUp size = .ok rounded) : size < Word.limit := by
  unfold roundUp at hround
  split_ifs at hround with hsmall
  · exact hsmall.trans (by decide)
  · obtain ⟨sum, hsum, -⟩ := bind_eq_ok_iff.mp hround
    unfold Word.add at hsum
    split_ifs at hsum with hfits
    exact (Nat.le_add_right _ _).trans_lt hfits

theorem roundUp_eq (hround : roundUp size = .ok rounded) : rounded = SizeClass.ceiling size := by
  rw [roundUp_eq_ite (lt_limit_of_roundUp hround)] at hround
  split_ifs at hround
  exact (Except.ok.inj hround).symm

/-- Rounding up gives the first size of a class, which is large enough. -/
theorem roundUp_spec (hround : roundUp size = .ok rounded) :
    size ≤ rounded ∧ SizeClass.width rounded ∣ rounded := by
  obtain rfl := roundUp_eq hround
  obtain ⟨number, hnumber⟩ := SizeClass.exists_rowStart_eq_ceiling size
  exact ⟨SizeClass.le_ceiling size, hnumber ▸ SizeClass.width_dvd_rowStart number⟩

/-- Every size up to the largest one can be rounded up, and not beyond that. -/
theorem exists_roundUp_of_le (hsize : size ≤ maxBlockSize) :
    ∃ rounded, roundUp size = .ok rounded ∧ rounded ≤ maxBlockSize := by
  have hmax : SizeClass.rowStart (25 * slotCount) = maxBlockSize :=
    SizeClass.rowStart_level (by decide)
  refine ⟨_, roundUp_of_le (hsize.trans (by decide)), ?_⟩
  rw [← hmax] at hsize ⊢
  exact SizeClass.ceiling_le_rowStart_iff.mpr hsize

theorem roundUp_le (hsize : size ≤ maxBlockSize) (hround : roundUp size = .ok rounded) :
    rounded ≤ maxBlockSize := by
  obtain ⟨other, hother, hle⟩ := exists_roundUp_of_le hsize
  obtain rfl : other = rounded := Except.ok.inj (hother.symm.trans hround)
  exact hle

/-- A size that starts a class is not rounded any further. -/
theorem roundUp_roundUp (hsize : size ≤ maxBlockSize) (hround : roundUp size = .ok rounded) :
    roundUp rounded = .ok rounded := by
  have hrounded := roundUp_le hsize hround
  obtain rfl := roundUp_eq hround
  obtain ⟨number, hnumber⟩ := SizeClass.exists_rowStart_eq_ceiling size
  rw [roundUp_of_le (hrounded.trans (by decide)), ← hnumber,
    (SizeClass.ceiling_le_rowStart_iff.mpr (Nat.le_refl _)).antisymm (SizeClass.le_ceiling _)]

end RoundUp

namespace SizeClass

variable {size rounded : Nat}

/-- A search starts at the class of the size rounded up. -/
theorem searchFrom_of_roundUp (hround : roundUp size = .ok rounded) :
    searchFrom size = .ok (ofSize rounded) := by
  unfold searchFrom
  rw [hround, ok_bind, pure_eq_ok]

/-- A class is not before the one that a search starts at just if its start is large enough. -/
theorem atMost_ceiling_iff {sizeClass : SizeClass} (hslot : sizeClass.slot < slotCount) :
    (ofSize (ceiling size)).AtMost sizeClass ↔ size ≤ rowStart sizeClass.number := by
  obtain ⟨number, hnumber⟩ := exists_rowStart_eq_ceiling size
  rw [← number_le_iff (ofSize_slot_lt _) hslot, ← ceiling_le_rowStart_iff, ← hnumber,
    number_rowStart, rowStart_strictMono.le_iff_le]

/-- So its sizes are just those that are as large as the size rounded up. -/
theorem atMost_ofSize_iff {other : Nat} :
    (ofSize (ceiling size)).AtMost (ofSize other) ↔ ceiling size ≤ other := by
  obtain ⟨number, hnumber⟩ := exists_rowStart_eq_ceiling size
  rw [← number_le_iff (ofSize_slot_lt _) (ofSize_slot_lt other), ← hnumber, number_rowStart,
    le_number_ofSize_iff]

/-- Every size of the class that is searched from, and of each later one, is large enough. -/
theorem searchFrom_eq (hsize : size ≤ maxBlockSize) :
    ∃ start, searchFrom size = .ok start ∧ ∀ other, start.AtMost (ofSize other) → size ≤ other :=
  ⟨_, searchFrom_of_roundUp (roundUp_of_le (hsize.trans (by decide))),
    fun _ hatMost ↦ (le_ceiling size).trans (atMost_ofSize_iff.mp hatMost)⟩

/-- Rounding up gives the first size from there on that starts a class. A search begins at its
class: just the sizes from there on are in this class or a later one, so all of these are large
enough, and every class before has a size that is not. Less than an alignment step is lost of a
small size, and less than a sixteenth of a large one. -/
theorem rounds_to_class_start (hsize : size ≤ 2 ^ 63) :
    ∃ rounded start, roundUp size = .ok rounded ∧ searchFrom size = .ok start ∧
      IsLeast {first | size ≤ first ∧ StartsClass first} rounded ∧
      (∀ other, start.AtMost (ofSize other) ↔ rounded ≤ other) ∧
      (∀ other, start.AtMost (ofSize other) → size ≤ other) ∧
      (∀ sizeClass : SizeClass, sizeClass.slot < slotCount → sizeClass.AtMost start →
        sizeClass ≠ start → ∃ other < size, ofSize other = sizeClass) ∧
      (size < smallSize → rounded - size < 16) ∧
      (smallSize ≤ size → 16 * (rounded - size) < size) := by
  have hround : roundUp size = .ok (ceiling size) := roundUp_of_le (hsize.trans (by decide))
  have hle := le_ceiling size
  have hlt := ceiling_lt size
  refine ⟨_, _, hround, searchFrom_of_roundUp hround, isLeast_ceiling_startsClass size,
    fun _ ↦ atMost_ofSize_iff, fun _ hatMost ↦ hle.trans (atMost_ofSize_iff.mp hatMost),
    fun sizeClass hslot hatMost hne ↦ ?_, fun hsmall ↦ ?_, fun hlarge ↦ ?_⟩
  · refine ⟨rowStart sizeClass.number, ?_,
      number_inj (ofSize_slot_lt _) hslot (number_rowStart _)⟩
    by_contra hge
    have hback := (atMost_ceiling_iff hslot).mpr (Nat.le_of_not_lt hge)
    rw [← number_le_iff (ofSize_slot_lt _) hslot] at hback
    rw [← number_le_iff hslot (ofSize_slot_lt _)] at hatMost
    exact hne (number_inj hslot (ofSize_slot_lt _) (hatMost.antisymm hback))
  · have hwidth : width size = 16 := if_pos hsmall
    omega
  · have hmul := width_mul_le hlarge
    omega

/-- The last word that is less than 2⁶³ is rounded up to that, the start of the next level. -/
theorem rounds_to_class_start_of_next_level :
    2 ^ 63 - 1 ≤ 2 ^ 63 ∧ roundUp (2 ^ 63 - 1) = .ok (2 ^ 63) ∧
    searchFrom (2 ^ 63 - 1) = .ok ⟨56, 0⟩ ∧
    IsLeast {first | 2 ^ 63 - 1 ≤ first ∧ StartsClass first} (2 ^ 63) ∧
    (∀ other, AtMost ⟨56, 0⟩ (ofSize other) ↔ 2 ^ 63 ≤ other) ∧
    (∃ other < 2 ^ 63 - 1, ofSize other = ⟨55, 15⟩) ∧
    smallSize ≤ 2 ^ 63 - 1 ∧ 16 * (2 ^ 63 - (2 ^ 63 - 1)) < 2 ^ 63 - 1 := by
  have hvalue : roundUp (2 ^ 63 - 1) = .ok (2 ^ 63) := by decide +kernel
  have hclass : searchFrom (2 ^ 63 - 1) = .ok ⟨56, 0⟩ := by decide +kernel
  obtain ⟨rounded, start, hround, hstart, hleast, hsizes, -, hbelow, -, hloss⟩ :=
    @rounds_to_class_start (2 ^ 63 - 1) (by decide)
  obtain rfl : rounded = 2 ^ 63 := Except.ok.inj (hround.symm.trans hvalue)
  obtain rfl : start = ⟨56, 0⟩ := Except.ok.inj (hstart.symm.trans hclass)
  exact ⟨by decide, hvalue, hclass, hleast, hsizes,
    hbelow ⟨55, 15⟩ (by decide) (Or.inl (by decide)) (by decide), by decide, hloss (by decide)⟩

end SizeClass

end KernelMemory
