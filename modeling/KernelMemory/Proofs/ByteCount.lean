import KernelMemory.ByteCount
import Mathlib.Algebra.Order.Ring.Abs
import Mathlib.Algebra.Order.Field.Rat
import Mathlib.Data.Nat.Cast.Field
import Mathlib.Tactic.FieldSimp
import Mathlib.Tactic.Linarith
import Mathlib.Tactic.NormNum.OfScientific
import Mathlib.Tactic.Ring

/-!
# What the text of a byte count tells

A text is read back as the number of units that it shows, which may have decimals, and the unit
(`ByteReading.ofText?`). It stands for that many bytes, an exact fraction.

Both roundings go to the nearest number (`roundDiv_nearest`), so neither turns the order of two
numbers around (`roundDiv_mono`, `roundToBits_mono`), and both keep the units. A count that is just
below a unit may be shown as the whole of it but never as more (`ByteAmount.mul_size_le`), and a
count that reaches the unit is not shown as less (`ByteAmount.le_mul_size`). So a larger count never
shows as fewer bytes, whatever the units are, and below 2⁵³ only the last rounding is seen
(`byteText_accurate`).
-/

set_option autoImplicit false
set_option relaxedAutoImplicit false

namespace KernelMemory

/-! ### Rounding -/

section Rounding

variable {number other divisor bits exponent : Nat}

/-- The rounded quotient is off by half of one at most. -/
theorem roundDiv_nearest (number : Nat) (hdivisor : 0 < divisor) :
    2 * (roundDiv number divisor * divisor) ≤ 2 * number + divisor ∧
      2 * number ≤ 2 * (roundDiv number divisor * divisor) + divisor := by
  have hnumber := Nat.div_add_mod' number divisor
  have hrest := Nat.mod_lt number hdivisor
  unfold roundDiv
  dsimp only
  split_ifs with hbelow habove
  · omega
  · rw [Nat.add_one_mul (number / divisor)]
    omega
  · rcases Nat.mod_two_eq_zero_or_one (number / divisor) with heven | hodd
    · rw [heven, Nat.add_zero]
      omega
    · rw [hodd, Nat.add_one_mul (number / divisor)]
      omega

theorem roundDiv_mono (hdivisor : 0 < divisor) (hle : number ≤ other) :
    roundDiv number divisor ≤ roundDiv other divisor := by
  rcases Nat.eq_or_lt_of_le hle with rfl | hlt
  · exact Nat.le_refl _
  · by_contra hless
    have hsucc := Nat.mul_le_mul_right divisor (Nat.lt_of_not_le hless)
    rw [Nat.add_one_mul] at hsucc
    have hnumber := (roundDiv_nearest number hdivisor).1
    have hother := (roundDiv_nearest other hdivisor).2
    omega

theorem roundDiv_mul (factor : Nat) (hdivisor : 0 < divisor) :
    roundDiv (factor * divisor) divisor = factor := by
  have hnearest := roundDiv_nearest (factor * divisor) hdivisor
  rcases Nat.lt_trichotomy (roundDiv (factor * divisor) divisor) factor with hlt | heq | hgt
  · have hsucc := Nat.mul_le_mul_right divisor hlt
    rw [Nat.add_one_mul] at hsucc
    omega
  · exact heq
  · have hsucc := Nat.mul_le_mul_right divisor hgt
    rw [Nat.add_one_mul] at hsucc
    omega

theorem roundDiv_one : roundDiv number 1 = number := by
  have hone := roundDiv_mul number Nat.one_pos
  rwa [Nat.mul_one] at hone

/-- A number that has few digits is kept. -/
theorem roundToBits_of_lt (hlt : number < 2 ^ bits) : roundToBits bits number = number := by
  by_cases hnumber : number = 0
  · subst hnumber
    have hzero := roundDiv_mul 0 (Nat.two_pow_pos (Nat.log2 0 + 1 - bits))
    rw [Nat.zero_mul] at hzero
    unfold roundToBits
    dsimp only
    rw [hzero, Nat.zero_mul]
  · have hshift : number.log2 + 1 - bits = 0 := by
      have hlog := (Nat.log2_lt hnumber).mpr hlt
      omega
    unfold roundToBits
    dsimp only
    rw [hshift, Nat.pow_zero, roundDiv_one, Nat.mul_one]

/-- To round does not leave the powers of two around a number. -/
theorem two_pow_le_roundToBits (hbits : 0 < bits) (hnumber : number ≠ 0) :
    2 ^ number.log2 ≤ roundToBits bits number := by
  have hpos := Nat.two_pow_pos (number.log2 + 1 - bits)
  have hpow : 2 ^ number.log2 =
      2 ^ (number.log2 - (number.log2 + 1 - bits)) * 2 ^ (number.log2 + 1 - bits) := by
    rw [← Nat.pow_add]
    congr 1
    omega
  have hle := roundDiv_mono hpos (Nat.log2_self_le hnumber)
  rw [hpow, roundDiv_mul _ hpos] at hle
  calc 2 ^ number.log2 = _ := hpow
    _ ≤ _ := Nat.mul_le_mul_right _ hle

theorem roundToBits_le_two_pow : roundToBits bits number ≤ 2 ^ (number.log2 + 1) := by
  have hpos := Nat.two_pow_pos (number.log2 + 1 - bits)
  have hpow : 2 ^ (number.log2 + 1) =
      2 ^ (number.log2 + 1 - (number.log2 + 1 - bits)) * 2 ^ (number.log2 + 1 - bits) := by
    rw [← Nat.pow_add]
    congr 1
    omega
  have hle := roundDiv_mono hpos (Nat.le_of_lt (Nat.lt_log2_self (n := number)))
  rw [hpow, roundDiv_mul _ hpos] at hle
  calc roundToBits bits number ≤ _ := Nat.mul_le_mul_right _ hle
    _ = 2 ^ (number.log2 + 1) := hpow.symm

theorem roundToBits_mono (hbits : 0 < bits) : Monotone (roundToBits bits) := by
  intro number other hle
  by_cases hlog : number.log2 = other.log2
  · unfold roundToBits
    dsimp only
    rw [hlog]
    exact Nat.mul_le_mul_right _ (roundDiv_mono (Nat.two_pow_pos _) hle)
  · have hother : other ≠ 0 := by
      rintro rfl
      exact hlog (by rw [Nat.le_zero.mp hle])
    have hlt : number.log2 < other.log2 := by
      refine Nat.lt_of_le_of_ne ?_ hlog
      by_cases hnumber : number = 0
      · rw [hnumber, Nat.log2_zero]
        exact Nat.zero_le _
      · exact (Nat.le_log2 hother).mpr ((Nat.log2_self_le hnumber).trans hle)
    calc roundToBits bits number ≤ 2 ^ (number.log2 + 1) := roundToBits_le_two_pow
      _ ≤ 2 ^ other.log2 := Nat.pow_le_pow_right Nat.two_pos hlt
      _ ≤ roundToBits bits other := two_pow_le_roundToBits hbits hother

theorem roundToBits_two_pow (hbits : 0 < bits) :
    roundToBits bits (2 ^ exponent) = 2 ^ exponent := by
  have hpow : 2 ^ exponent =
      2 ^ (exponent - (exponent + 1 - bits)) * 2 ^ (exponent + 1 - bits) := by
    rw [← Nat.pow_add]
    congr 1
    omega
  unfold roundToBits
  dsimp only
  rw [Nat.log2_two_pow]
  nth_rewrite 1 [hpow]
  rw [roundDiv_mul _ (Nat.two_pow_pos _), ← hpow]

end Rounding

/-! ### Reading a text -/

/-- The number that decimal digits stand for. -/
def readDigits? (digits : List Char) : Option Nat :=
  if !digits.isEmpty && digits.all Char.isDigit then some (Nat.ofDigitChars 10 digits 0) else none

/-- The number that digits stand for, which may go on behind a point. -/
def readDecimal? (text : List Char) : Option ℚ :=
  match text.splitOn '.' with
  | [digits] => (readDigits? digits).map Nat.cast
  | [digits, decimals] => do
    let whole ← readDigits? digits
    let part ← readDigits? decimals
    return whole + part / 10 ^ decimals.length
  | _ => none

/-- The unit that a symbol stands for. -/
def ByteUnit.ofSymbol? (symbol : List Char) : Option ByteUnit :=
  [byte, kib, mib, gib, tib].find? fun unit ↦ unit.symbol.toList = symbol

/-- A number of units, as a text shows it. -/
structure ByteReading where
  number : ℚ
  unit : ByteUnit

namespace ByteReading

def bytes (reading : ByteReading) : ℚ :=
  reading.number * reading.unit.size

/-- A number, a blank and the symbol of a unit. -/
def ofText? (text : String) : Option ByteReading :=
  match text.toList.splitOn ' ' with
  | [number, symbol] => do
    return ⟨← readDecimal? number, ← ByteUnit.ofSymbol? symbol⟩
  | _ => none

end ByteReading

theorem notMem_of_isDigit {character : Char} {digits : List Char}
    (hdigits : ∀ digit ∈ digits, digit.isDigit = true) (hcharacter : character.isDigit = false) :
    character ∉ digits := by
  intro hmem
  have hdigit := hdigits character hmem
  rw [hcharacter] at hdigit
  cases hdigit

theorem isDigit_of_mem_toDigits {number : Nat} :
    ∀ digit ∈ Nat.toDigits 10 number, digit.isDigit = true :=
  fun _ ↦ Nat.isDigit_of_mem_toDigits (by decide) (by decide)

theorem readDigits?_eq {digits : List Char} (hne : digits ≠ [])
    (hdigits : ∀ digit ∈ digits, digit.isDigit = true) :
    readDigits? digits = some (Nat.ofDigitChars 10 digits 0) := by
  have hread : (!digits.isEmpty && digits.all Char.isDigit) = true := by
    rw [Bool.and_eq_true, Bool.not_eq_true', List.isEmpty_eq_false_iff, List.all_eq_true]
    exact ⟨hne, hdigits⟩
  exact if_pos hread

theorem readDigits?_toDigits (number : Nat) :
    readDigits? (Nat.toDigits 10 number) = some number := by
  rw [readDigits?_eq Nat.toDigits_ne_nil isDigit_of_mem_toDigits, Nat.ofDigitChars_ten_toDigits]

/-- The two digits of a number of hundredths. -/
def pairDigits (rest : Nat) : List Char :=
  [(rest / 10).digitChar, (rest % 10).digitChar]

theorem isDigit_of_mem_pairDigits {rest : Nat} (hrest : rest < 100) :
    ∀ digit ∈ pairDigits rest, digit.isDigit = true := by
  unfold pairDigits
  simp only [List.forall_mem_cons, Nat.isDigit_digitChar, decide_eq_true_eq]
  exact ⟨by omega, by omega, fun _ hnil ↦ absurd hnil List.not_mem_nil⟩

theorem readDigits?_pairDigits {rest : Nat} (hrest : rest < 100) :
    readDigits? (pairDigits rest) = some rest := by
  have htens : rest / 10 < 10 := by omega
  have hones : rest % 10 < 10 := by omega
  have hne : pairDigits rest ≠ [] := List.cons_ne_nil _ _
  rw [readDigits?_eq hne (isDigit_of_mem_pairDigits hrest), pairDigits,
    Nat.ofDigitChars_cons_digitChar_of_lt_ten htens,
    Nat.ofDigitChars_cons_digitChar_of_lt_ten hones, Nat.ofDigitChars_nil]
  congr 1
  omega

theorem readDecimal?_toDigits (number : Nat) :
    readDecimal? (Nat.toDigits 10 number) = some (number : ℚ) := by
  unfold readDecimal?
  rw [List.splitOn_eq_singleton (notMem_of_isDigit isDigit_of_mem_toDigits (by decide))]
  dsimp only
  rw [readDigits?_toDigits, Option.map_some]

theorem readDecimal?_hundredths (whole : Nat) {rest : Nat} (hrest : rest < 100) :
    readDecimal? (Nat.toDigits 10 whole ++ '.' :: pairDigits rest) =
      some ((whole : ℚ) + rest / 100) := by
  have hwhole : '.' ∉ Nat.toDigits 10 whole :=
    notMem_of_isDigit isDigit_of_mem_toDigits (by decide)
  have hpair : '.' ∉ pairDigits rest :=
    notMem_of_isDigit (isDigit_of_mem_pairDigits hrest) (by decide)
  unfold readDecimal?
  rw [List.splitOn_append_cons_self_of_not_mem hwhole, List.splitOn_eq_singleton hpair]
  dsimp only
  rw [readDigits?_toDigits, readDigits?_pairDigits hrest]
  norm_num [pairDigits]

theorem ByteUnit.ofSymbol?_symbol (unit : ByteUnit) :
    ofSymbol? unit.symbol.toList = some unit := by
  cases unit <;> rfl

namespace ByteReading

theorem ofText?_eq {text : String} {number : List Char} {value : ℚ} {unit : ByteUnit}
    (htext : text.toList = number ++ ' ' :: unit.symbol.toList) (hblank : ' ' ∉ number)
    (hvalue : readDecimal? number = some value) : ofText? text = some ⟨value, unit⟩ := by
  have hsymbol : ' ' ∉ unit.symbol.toList := by
    cases unit <;> decide
  unfold ofText?
  rw [htext, List.splitOn_append_cons_self_of_not_mem hblank, List.splitOn_eq_singleton hsymbol]
  dsimp only
  rw [hvalue, ByteUnit.ofSymbol?_symbol]
  rfl

end ByteReading

namespace ByteAmount

variable {amount : ByteAmount}

theorem toList_text_of_byte (hunit : amount.unit = .byte) :
    amount.text.toList =
      Nat.toDigits 10 (amount.hundredths / 100) ++ ' ' :: amount.unit.symbol.toList := by
  unfold text
  simp only [hunit, String.toList_append, Nat.toString_eq_ofList_toDigits, String.toList_ofList,
    List.append_assoc]
  rfl

theorem toList_text (hunit : amount.unit ≠ .byte) :
    amount.text.toList =
      (Nat.toDigits 10 (amount.hundredths / 100) ++ '.' :: pairDigits (amount.hundredths % 100)) ++
        ' ' :: amount.unit.symbol.toList := by
  have htens : amount.hundredths % 100 / 10 < 10 := by omega
  have hones : amount.hundredths % 100 % 10 < 10 := by omega
  unfold text pairDigits
  cases hamount : amount.unit with
  | byte => exact absurd hamount hunit
  | _ =>
    simp only [String.toList_append, Nat.toString_eq_ofList_toDigits, String.toList_ofList,
      Nat.toDigits_of_lt_base htens, Nat.toDigits_of_lt_base hones, List.append_assoc]
    rfl

/-- What the text of an amount says. -/
def reading (amount : ByteAmount) : ByteReading where
  number := amount.hundredths / 100
  unit := amount.unit

theorem bytes_reading (amount : ByteAmount) :
    amount.reading.bytes = ((amount.hundredths * amount.unit.size : Nat) : ℚ) / 100 := by
  unfold ByteReading.bytes reading
  push_cast
  ring

theorem ofText?_text (hwhole : amount.unit = .byte → 100 ∣ amount.hundredths) :
    ByteReading.ofText? amount.text = some amount.reading := by
  have hblank : ' ' ∉ Nat.toDigits 10 (amount.hundredths / 100) :=
    notMem_of_isDigit isDigit_of_mem_toDigits (by decide)
  by_cases hunit : amount.unit = .byte
  · rw [ByteReading.ofText?_eq (toList_text_of_byte hunit) hblank (readDecimal?_toDigits _)]
    unfold reading
    rw [Nat.cast_div (hwhole hunit) (by norm_num)]
    norm_num
  · have hrest : amount.hundredths % 100 < 100 := Nat.mod_lt _ (by decide)
    have hpair : ' ' ∉ pairDigits (amount.hundredths % 100) :=
      notMem_of_isDigit (isDigit_of_mem_pairDigits hrest) (by decide)
    have hnumber : ' ' ∉ Nat.toDigits 10 (amount.hundredths / 100) ++
        '.' :: pairDigits (amount.hundredths % 100) := by
      rw [List.mem_append, List.mem_cons, not_or, not_or]
      exact ⟨hblank, by decide, hpair⟩
    rw [ByteReading.ofText?_eq (toList_text hunit) hnumber (readDecimal?_hundredths _ hrest)]
    unfold reading
    have hsplit : ((100 * (amount.hundredths / 100) + amount.hundredths % 100 : Nat) : ℚ) =
        amount.hundredths := by
      rw [Nat.div_add_mod]
    push_cast at hsplit
    congr 2
    linarith

end ByteAmount

/-! ### The amount that a count is shown as -/

namespace ByteUnit

variable {count more : Nat}

theorem exists_size_eq (unit : ByteUnit) : ∃ exponent : Nat, unit.size = 2 ^ exponent := by
  cases unit
  · exact ⟨0, rfl⟩
  · exact ⟨10, rfl⟩
  · exact ⟨20, rfl⟩
  · exact ⟨30, rfl⟩
  · exact ⟨40, rfl⟩

theorem size_pos (unit : ByteUnit) : 0 < unit.size := by
  obtain ⟨exponent, hsize⟩ := exists_size_eq unit
  rw [hsize]
  exact Nat.two_pow_pos exponent

/-- Of two counts with different units the larger reaches its unit, and the other does not. -/
theorem ofCount_cases (hle : count ≤ more) :
    ofCount count = ofCount more ∨
      count ≤ (ofCount more).size ∧ (ofCount more).size ≤ more ∧
        (ofCount count).size ∣ (ofCount more).size := by
  unfold ofCount
  split_ifs <;> first
    | exact .inl rfl
    | (simp only [size] at *; omega)

theorem roundToBits_size (unit : ByteUnit) : roundToBits 53 unit.size = unit.size := by
  obtain ⟨exponent, hsize⟩ := exists_size_eq unit
  rw [hsize]
  exact roundToBits_two_pow (by decide)

theorem ofCount_of_lt (hlt : count < 1024) : ofCount count = byte :=
  if_pos hlt

theorem lt_of_ofCount_eq (hunit : ofCount count = byte) : count < 1024 := by
  unfold ofCount at hunit
  split_ifs at hunit with hlt
  exact hlt

end ByteUnit

namespace ByteAmount

variable {count more : Nat} {unit : ByteUnit}

/-- A count below a larger unit is not shown as more than that unit. -/
theorem mul_size_le (hcount : count ≤ unit.size)
    (hunit : (ByteUnit.ofCount count).size ∣ unit.size) :
    (ofCount count).hundredths * (ofCount count).unit.size ≤ 100 * unit.size := by
  obtain ⟨factor, hfactor⟩ := hunit
  have hpos := ByteUnit.size_pos (ByteUnit.ofCount count)
  have hround : roundToBits 53 count ≤ unit.size := by
    rw [← ByteUnit.roundToBits_size unit]
    exact roundToBits_mono (by decide) hcount
  have hsize : 100 * unit.size = 100 * factor * (ByteUnit.ofCount count).size := by
    rw [hfactor]
    ring
  have hhundredths : (ofCount count).hundredths ≤ 100 * factor := by
    have hle := roundDiv_mono hpos (Nat.mul_le_mul_left 100 hround)
    rwa [hsize, roundDiv_mul _ hpos] at hle
  calc (ofCount count).hundredths * (ofCount count).unit.size
      ≤ 100 * factor * (ByteUnit.ofCount count).size := Nat.mul_le_mul_right _ hhundredths
    _ = 100 * unit.size := hsize.symm

/-- A count that reaches its unit is not shown as less than that unit. -/
theorem le_mul_size (hmore : (ByteUnit.ofCount more).size ≤ more) :
    100 * (ByteUnit.ofCount more).size ≤
      (ofCount more).hundredths * (ofCount more).unit.size := by
  have hpos := ByteUnit.size_pos (ByteUnit.ofCount more)
  have hround : (ByteUnit.ofCount more).size ≤ roundToBits 53 more := by
    rw [← ByteUnit.roundToBits_size (ByteUnit.ofCount more)]
    exact roundToBits_mono (by decide) hmore
  have hhundredths : 100 ≤ (ofCount more).hundredths := by
    have hle := roundDiv_mono hpos (Nat.mul_le_mul_left 100 hround)
    rwa [roundDiv_mul _ hpos] at hle
  exact Nat.mul_le_mul_right _ hhundredths

/-- A larger count is not shown as fewer bytes. -/
theorem mul_size_mono :
    Monotone fun count ↦ (ofCount count).hundredths * (ofCount count).unit.size := by
  intro count more hle
  rcases ByteUnit.ofCount_cases hle with hunit | ⟨hcount, hmore, hdvd⟩
  · have hround : roundToBits 53 count ≤ roundToBits 53 more := roundToBits_mono (by decide) hle
    have hhundredths := roundDiv_mono (ByteUnit.size_pos (ByteUnit.ofCount more))
      (Nat.mul_le_mul_left 100 hround)
    simp only [ofCount, hunit]
    exact Nat.mul_le_mul_right _ hhundredths
  · exact (mul_size_le hcount hdvd).trans (le_mul_size hmore)

/-- A count that has no more than 53 bits is off by half a hundredth of its unit at most. -/
theorem nearest (hcount : count < 2 ^ 53) :
    2 * ((ofCount count).hundredths * (ofCount count).unit.size) ≤
        2 * (100 * count) + (ofCount count).unit.size ∧
      2 * (100 * count) ≤
        2 * ((ofCount count).hundredths * (ofCount count).unit.size) +
          (ofCount count).unit.size := by
  unfold ofCount
  dsimp only
  rw [roundToBits_of_lt hcount]
  exact roundDiv_nearest _ (ByteUnit.size_pos _)

/-- Single bytes are shown as they are. -/
theorem hundredths_of_lt (hcount : count < 1024) : (ofCount count).hundredths = 100 * count := by
  unfold ofCount
  dsimp only
  rw [ByteUnit.ofCount_of_lt hcount, roundToBits_of_lt (hcount.trans (by decide))]
  exact roundDiv_one

theorem unit_of_lt (hcount : count < 1024) : (ofCount count).unit = .byte :=
  ByteUnit.ofCount_of_lt hcount

/-! ### The bytes that a text tells -/

theorem ofText?_byteText (count : Nat) :
    ByteReading.ofText? (byteText count) = some (ofCount count).reading := by
  refine ofText?_text fun hunit ↦ ?_
  rw [hundredths_of_lt (ByteUnit.lt_of_ofCount_eq hunit)]
  exact Nat.dvd_mul_right 100 count

theorem bytes_mono : Monotone fun count ↦ (ofCount count).reading.bytes := by
  intro count more hle
  have hmono := (Nat.cast_le (α := ℚ)).mpr (mul_size_mono hle)
  dsimp only at hmono ⊢
  rw [bytes_reading, bytes_reading]
  linarith

theorem abs_bytes_sub_le (hcount : count < 2 ^ 53) :
    |(ofCount count).reading.bytes - count| ≤ 0.005 * (ofCount count).unit.size := by
  obtain ⟨habove, hbelow⟩ := nearest hcount
  rw [← Nat.cast_le (α := ℚ)] at habove hbelow
  rw [bytes_reading, abs_le]
  push_cast at *
  constructor <;> linarith

theorem bytes_of_lt (hcount : count < 1024) : (ofCount count).reading.bytes = count := by
  have hsize : (ofCount count).unit.size = 1 := by
    rw [unit_of_lt hcount]
    rfl
  rw [bytes_reading, hundredths_of_lt hcount, hsize]
  push_cast
  ring

end ByteAmount

/-- The text of a count shows the largest unit that the count reaches. It is read back as a number
of bytes that does not fall as the count grows, is at most half a hundredth of the unit off, and is
the count itself if that is less than a kibibyte. -/
theorem byteText_accurate :
    ∃ shown : Nat → ByteReading,
      (∀ count, ByteReading.ofText? (byteText count) = some (shown count)) ∧
      (∀ count, (shown count).unit = ByteUnit.ofCount count) ∧
      (Monotone fun count ↦ (shown count).bytes) ∧
      (∀ count < 2 ^ 53, |(shown count).bytes - count| ≤ 0.005 * (shown count).unit.size) ∧
      ∀ count < 1024, (shown count).bytes = count :=
  ⟨fun count ↦ (ByteAmount.ofCount count).reading, ByteAmount.ofText?_byteText,
    fun _ ↦ rfl, ByteAmount.bytes_mono, fun _ ↦ ByteAmount.abs_bytes_sub_le,
    fun _ ↦ ByteAmount.bytes_of_lt⟩

/-- A count right below a unit is shown as the whole of it, in the smaller unit. -/
example : byteText (2 ^ 20 - 1) = "1024.00 KiB" ∧ byteText (2 ^ 20) = "1.00 MiB" := by decide

end KernelMemory
