import KernelMemory.Word
import Mathlib.Algebra.Ring.Nat
import Mathlib.Order.Bounds.Basic
import Mathlib.Tactic.SplitIfs

/-!
# Word arithmetic

The exponents and roundings of words in plain arithmetic: clearing the low bits of a word with a
mask rounds it down to a multiple of a power of two. So the alignment functions lead to the last
multiple before an address and to the first one behind it, and fail just if that is no word
(`aligns_to_adjacent_multiples`).
-/

set_option autoImplicit false
set_option relaxedAutoImplicit false

namespace KernelMemory

namespace Word

/-- The exponent is the least one of a power of two that is large enough. -/
theorem ceilLog2_le_iff {number exponent : Nat} :
    ceilLog2 number ≤ exponent ↔ number ≤ 2 ^ exponent := by
  unfold ceilLog2
  split_ifs with hone
  · exact iff_of_true (Nat.zero_le _) (Nat.le_trans hone Nat.one_le_two_pow)
  · rw [Nat.succ_le_iff, Nat.log2_lt (by omega)]
    omega

/-- It is found as long as that power of two is a word. -/
theorem exponentFor_eq {number : Nat} (hnumber : number ≤ 2 ^ 63) :
    exponentFor number = .ok (ceilLog2 number) :=
  if_pos (Nat.lt_succ_of_le (ceilLog2_le_iff.mpr hnumber))

/-- No word is a power of two that is at least such a number. -/
theorem exponentFor_of_gt {number : Nat} (hnumber : 2 ^ 63 < number) :
    exponentFor number = .error .addOverflow :=
  if_neg fun hlt ↦ Nat.not_lt.mpr (ceilLog2_le_iff.mp (Nat.le_of_lt_succ hlt)) hnumber

theorem eq_of_exponentFor_eq_ok {number exponent : Nat}
    (hexponent : exponentFor number = .ok exponent) : exponent = ceilLog2 number := by
  unfold exponentFor at hexponent
  split_ifs at hexponent
  exact (Except.ok.inj hexponent).symm

theorem eq_of_add_eq_ok {first second sum : Nat} (hsum : add first second = .ok sum) :
    sum = first + second := by
  unfold add at hsum
  split_ifs at hsum
  exact (Except.ok.inj hsum).symm

theorem eq_of_mul_eq_ok {first second product : Nat} (hproduct : mul first second = .ok product) :
    product = first * second := by
  unfold mul at hproduct
  split_ifs at hproduct
  exact (Except.ok.inj hproduct).symm

theorem eq_of_power_eq_ok {exponent power : Nat} (hpower : Word.power exponent = .ok power) :
    power = 2 ^ exponent := by
  unfold Word.power at hpower
  split_ifs at hpower
  rw [← Except.ok.inj hpower, Nat.one_shiftLeft]

theorem isPowerOfTwo_iff {number : Nat} :
    isPowerOfTwo number = true ↔ ∃ exponent, number = 2 ^ exponent := by
  unfold isPowerOfTwo
  rw [Bool.and_eq_true, bne_iff_ne, beq_iff_eq]
  constructor
  · rintro ⟨-, heq⟩
    exact ⟨number.log2, heq.symm⟩
  · rintro ⟨exponent, rfl⟩
    exact ⟨Nat.ne_of_gt (Nat.two_pow_pos exponent), by rw [Nat.log2_two_pow]⟩

/-- Clearing the low bits of a word rounds it down. -/
theorem and_complement {address : Nat} (haddress : address < limit) {exponent : Nat}
    (hexponent : exponent ≤ 64) :
    address &&& complement (2 ^ exponent - 1) = address / 2 ^ exponent * 2 ^ exponent := by
  have hpow : 2 ^ exponent ≤ 2 ^ 64 := Nat.pow_le_pow_right (by decide) hexponent
  have hpos := Nat.two_pow_pos exponent
  have hcomplement : complement (2 ^ exponent - 1) = 2 ^ 64 - (2 ^ exponent - 1 + 1) := by
    unfold complement max limit
    omega
  rw [hcomplement]
  apply Nat.eq_of_testBit_eq
  intro bit
  rw [← Nat.shiftRight_eq_div_pow, ← Nat.shiftLeft_eq, Nat.testBit_and, Nat.testBit_shiftLeft,
    Nat.testBit_shiftRight, Nat.testBit_two_pow_sub_succ (by omega), Nat.testBit_two_pow_sub_one]
  by_cases hbit : exponent ≤ bit
  · have hlow : decide (bit < exponent) = false := decide_eq_false (by omega)
    rw [hlow, decide_eq_true hbit, Nat.add_sub_cancel' hbit, Bool.not_false, Bool.and_true,
      Bool.true_and]
    by_cases hword : bit < 64
    · rw [decide_eq_true hword, Bool.and_true]
    · rw [decide_eq_false hword, Bool.and_false]
      refine (Nat.testBit_lt_two_pow (Nat.lt_of_lt_of_le haddress ?_)).symm
      exact Nat.pow_le_pow_right (by decide) (by omega)
  · have hlow : decide (bit < exponent) = true := decide_eq_true (by omega)
    rw [hlow, decide_eq_false hbit, Bool.not_true, Bool.and_false, Bool.and_false, Bool.false_and]

theorem exponent_le {exponent : Nat} (hlt : 2 ^ exponent < limit) : exponent ≤ 64 :=
  Nat.le_of_lt ((Nat.pow_lt_pow_iff_right (by decide)).mp hlt)

/-- Rounding down gives the last multiple of the alignment. -/
theorem alignDown_eq {address align : Nat} (haddress : address < limit) (halign : align < limit)
    (hpower : isPowerOfTwo align = true) :
    alignDown address align = .ok (address / align * align) := by
  unfold alignDown
  rw [if_pos hpower]
  obtain ⟨exponent, rfl⟩ := isPowerOfTwo_iff.mp hpower
  rw [and_complement haddress (exponent_le halign)]

/-- Rounding up gives the next multiple of the alignment, if that is a word. -/
theorem alignUp_eq {address align : Nat} (halign : align < limit)
    (hpower : isPowerOfTwo align = true) :
    alignUp address align = .ok (if address + (align - 1) < limit then
      some ((address + (align - 1)) / align * align) else none) := by
  unfold alignUp add?
  rw [if_pos hpower]
  obtain ⟨exponent, rfl⟩ := isPowerOfTwo_iff.mp hpower
  split_ifs with hsum
  · rw [Option.map_some, and_complement hsum (exponent_le halign)]
  · rfl

/-! ### Multiples -/

section Multiples

variable {address align : Nat}

/-- Rounding down leads to the greatest multiple that is not above. -/
theorem isGreatest_multiple (address : Nat) (halign : 0 < align) :
    IsGreatest {multiple | align ∣ multiple ∧ multiple ≤ address} (address / align * align) := by
  refine ⟨⟨Nat.dvd_mul_left _ _, Nat.div_mul_le_self _ _⟩, ?_⟩
  rintro _ ⟨⟨count, rfl⟩, hle⟩
  rw [Nat.mul_comm align] at hle ⊢
  exact Nat.mul_le_mul_right _ ((Nat.le_div_iff_mul_le halign).mpr hle)

/-- Rounding up leads to the least multiple that is not below. -/
theorem isLeast_multiple (address : Nat) (halign : 0 < align) :
    IsLeast {multiple | align ∣ multiple ∧ address ≤ multiple}
      ((address + (align - 1)) / align * align) := by
  have hdiv := Nat.div_add_mod' (address + (align - 1)) align
  have hmod := Nat.mod_lt (address + (align - 1)) halign
  refine ⟨⟨Nat.dvd_mul_left _ _, by omega⟩, ?_⟩
  rintro _ ⟨⟨count, rfl⟩, hle⟩
  rw [Nat.mul_comm align] at hle ⊢
  refine Nat.mul_le_mul_right _ (Nat.le_of_lt_succ ?_)
  rw [Nat.div_lt_iff_lt_mul halign, Nat.add_one_mul]
  omega

/-- Rounding up stays below a multiple just if the sum does. -/
theorem multiple_lt_iff {bound : Nat} (halign : 0 < align) (hbound : align ∣ bound) :
    (address + (align - 1)) / align * align < bound ↔ address + (align - 1) < bound := by
  obtain ⟨count, rfl⟩ := hbound
  rw [Nat.mul_comm align, Nat.mul_lt_mul_right halign, Nat.div_lt_iff_lt_mul halign]

end Multiples

/-- Rounding down gives the greatest multiple of the alignment that is not above the address.
Rounding up gives the least one that is not below it, if that is a word, and nothing otherwise. -/
theorem aligns_to_adjacent_multiples {address exponent : Nat} (haddress : address < limit)
    (hexponent : exponent < 64) :
    (∃ down, alignDown address (2 ^ exponent) = .ok down ∧
      IsGreatest {multiple | 2 ^ exponent ∣ multiple ∧ multiple ≤ address} down) ∧
    ∃ up, IsLeast {multiple | 2 ^ exponent ∣ multiple ∧ address ≤ multiple} up ∧
      alignUp address (2 ^ exponent) = .ok (if up < limit then some up else none) := by
  have hpos := Nat.two_pow_pos exponent
  have hword : 2 ^ exponent < limit := Nat.pow_lt_pow_right (by decide) hexponent
  have hpower : isPowerOfTwo (2 ^ exponent) = true := isPowerOfTwo_iff.mpr ⟨exponent, rfl⟩
  have hlimit : 2 ^ exponent ∣ limit := Nat.pow_dvd_pow 2 (Nat.le_of_lt hexponent)
  refine ⟨⟨_, alignDown_eq haddress hword hpower, isGreatest_multiple address hpos⟩,
    _, isLeast_multiple address hpos, ?_⟩
  simp only [alignUp_eq hword hpower, multiple_lt_iff hpos hlimit]

/-- No word is large enough to round this address up to, while the page before it is one to round
it down to. -/
theorem aligns_to_adjacent_multiples_at_last_page :
    2 ^ 64 - 4095 < limit ∧ 12 < 64 ∧ alignDown (2 ^ 64 - 4095) (2 ^ 12) = .ok (2 ^ 64 - 4096) ∧
    IsGreatest {multiple | 2 ^ 12 ∣ multiple ∧ multiple ≤ 2 ^ 64 - 4095} (2 ^ 64 - 4096) ∧
    IsLeast {multiple | 2 ^ 12 ∣ multiple ∧ 2 ^ 64 - 4095 ≤ multiple} (2 ^ 64) ∧
    alignUp (2 ^ 64 - 4095) (2 ^ 12) = .ok none := by
  obtain ⟨⟨down, hdown, hgreatest⟩, up, hleast, hup⟩ :=
    @aligns_to_adjacent_multiples (2 ^ 64 - 4095) 12 (by decide) (by decide)
  obtain rfl : down = 2 ^ 64 - 4096 := by
    have hvalue : alignDown (2 ^ 64 - 4095) (2 ^ 12) = .ok (2 ^ 64 - 4096) := by decide +kernel
    exact Except.ok.inj (hdown.symm.trans hvalue)
  obtain rfl : up = 2 ^ 64 := hleast.unique (isLeast_multiple (2 ^ 64 - 4095) (by decide))
  exact ⟨by decide, by decide, hdown, hgreatest, hleast, hup⟩

end Word

end KernelMemory
