import KernelMemory.Heap.Basic
import KernelMemory.Proofs.Heap.Rounding
import KernelMemory.Proofs.Heap.Carve

/-!
# Arguments that pass the checks

What is known of a configuration (`HeapConfig.Consistent`) and of a request (`HeapRequest.Serves`)
once it has passed its check: the sizes and alignments are within bounds, and a block of the size
that is asked for has room for the payload and its tag.
-/

set_option autoImplicit false
set_option relaxedAutoImplicit false

namespace KernelMemory

namespace HeapConfig

variable {config : HeapConfig}

/-- The size of a page is one that a block may have. -/
structure PageFits (config : HeapConfig) : Prop where
  min_le : 2 * minBlockSize ≤ config.pageSize
  le_max : config.pageSize ≤ maxBlockSize
  aligned : config.pageSize % blockAlign = 0

theorem PageFits.dvd (hpage : config.PageFits) : blockAlign ∣ config.pageSize :=
  Nat.dvd_of_mod_eq_zero hpage.aligned

/-- The parts of the configuration fit together, in numbers without bound. -/
structure Consistent (config : HeapConfig) : Prop extends PageFits config where
  watermark_pos : 0 < config.growWatermark
  watermark_le : SizeClass.ceiling config.growWatermark ≤ config.pageSize
  align_power : Word.isPowerOfTwo config.maxAlign = true
  align_lt : config.maxAlign < config.pageSize

theorem Consistent.growWatermark_le (hconsistent : config.Consistent) :
    config.growWatermark ≤ maxBlockSize :=
  (SizeClass.le_ceiling _).trans (hconsistent.watermark_le.trans hconsistent.le_max)

theorem Consistent.roundUp_growWatermark (hconsistent : config.Consistent) :
    roundUp config.growWatermark = .ok (SizeClass.ceiling config.growWatermark) :=
  roundUp_of_le (hconsistent.growWatermark_le.trans (by decide))

theorem consistent_of_validate (hvalidate : config.validate = .ok (.ok ())) :
    config.Consistent := by
  unfold validate at hvalidate
  obtain ⟨hmin, hvalidate⟩ := Checked.demand_eq_ok_iff.mp hvalidate
  obtain ⟨hpage, hvalidate⟩ := Checked.demand_eq_ok_iff.mp hvalidate
  obtain ⟨haligned, hvalidate⟩ := Checked.demand_eq_ok_iff.mp hvalidate
  obtain ⟨hpos, hvalidate⟩ := Checked.demand_eq_ok_iff.mp hvalidate
  obtain ⟨rounded, hround, hvalidate⟩ := Checked.bind_eq_ok_iff.mp hvalidate
  obtain ⟨hwatermark, hvalidate⟩ := Checked.demand_eq_ok_iff.mp hvalidate
  obtain ⟨hpower, hvalidate⟩ := Checked.demand_eq_ok_iff.mp hvalidate
  rw [roundUp_eq (Checked.lift_eq_ok_iff.mp hround)] at hwatermark
  refine ⟨⟨hmin, hpage, haligned⟩, hpos, hwatermark, hpower, ?_⟩
  by_contra hlarge
  dsimp only at hvalidate
  rw [if_neg hlarge] at hvalidate
  cases hvalidate

end HeapConfig

namespace HeapRequest

/-- The request serves an allocation of the given size and alignment. -/
structure Serves (request : HeapRequest) (size align : Nat) : Prop where
  need : BlockNeed request.need request.align
  align_eq : request.align = max align blockAlign
  size_le : size + headerSize ≤ request.need
  need_le : request.need ≤ request.search
  search_le : request.search ≤ maxBlockSize
  room : request.align = blockAlign ∨ request.need + request.align + minBlockSize ≤ request.search

theorem isPowerOfTwo_max {align : Nat} (halign : Word.isPowerOfTwo align = true) :
    Word.isPowerOfTwo (max align blockAlign) = true ∧ blockAlign ∣ max align blockAlign := by
  rcases Nat.le_total align blockAlign with hle | hle
  · rw [Nat.max_eq_right hle]
    decide
  · rw [Nat.max_eq_left hle]
    exact ⟨halign, blockAlign_dvd_of_le halign hle⟩

/-- A block is as large as the payload in whole alignment steps with its tag, rounded up. -/
theorem roundUp_of_blockSize {size need : Nat} (hblock : blockSize size = .ok (.ok need)) :
    roundUp ((size + (blockAlign - 1)) / blockAlign * blockAlign + headerSize) = .ok need ∧
      need ≤ maxBlockSize := by
  unfold blockSize at hblock
  rw [Word.alignUp_eq (by decide) (by decide), Checked.lift_ok_bind] at hblock
  dsimp only at hblock
  split_ifs at hblock
  · simp only [Word.add?] at hblock
    split_ifs at hblock
    · obtain ⟨rounded, hround, hblock⟩ := Checked.bind_eq_ok_iff.mp hblock
      rw [Checked.lift_eq_ok_iff] at hround
      split_ifs at hblock with hmax
      · cases hblock
      cases hblock
      exact ⟨hround, Nat.le_of_not_lt hmax⟩
    · cases hblock
  · cases hblock

theorem le_blockSize {size need : Nat} (hblock : blockSize size = .ok (.ok need)) :
    size + headerSize ≤ need := by
  obtain ⟨hround, -⟩ := roundUp_of_blockSize hblock
  have hle := (roundUp_spec hround).1
  rw [blockAlign_eq, headerSize_eq] at hle
  rw [headerSize_eq]
  omega

/-- The block has room for the payload and its tag. -/
theorem blockSize_spec {size need : Nat} (hpos : 0 < size)
    (hblock : blockSize size = .ok (.ok need)) :
    size + headerSize ≤ need ∧ minBlockSize ≤ need ∧ blockAlign ∣ need ∧ need ≤ maxBlockSize := by
  obtain ⟨hround, hmax⟩ := roundUp_of_blockSize hblock
  have hle := le_blockSize hblock
  have hdvd := SizeClass.blockAlign_dvd_of_width (roundUp_spec hround).2
  refine ⟨hle, ?_, hdvd, hmax⟩
  rw [headerSize_eq] at hle
  rw [blockAlign_eq] at hdvd
  rw [minBlockSize_eq]
  omega

/-! ### The check of a request -/

theorem misaligned_or_aligned (config : HeapConfig) (align : Nat) :
    ((∀ exponent, align ≠ 2 ^ exponent) ∨ config.maxAlign < align) ∨
      (∃ exponent, align = 2 ^ exponent) ∧ align ≤ config.maxAlign := by
  rw [← not_lt, ← not_forall_not, ← not_or]
  exact em _

variable {config : HeapConfig} {size align : Nat} {request : HeapRequest}

theorem check_of_misaligned (hpos : size ≠ 0)
    (halign : (∀ exponent, align ≠ 2 ^ exponent) ∨ config.maxAlign < align) :
    check config size align = .ok (.error .invalidAlignment) := by
  have hrefused : (!Word.isPowerOfTwo align || decide (config.maxAlign < align)) = true := by
    rw [Bool.or_eq_true, Bool.not_eq_true', decide_eq_true_eq, ← Bool.not_eq_true,
      Word.isPowerOfTwo_iff, not_exists]
    exact halign
  unfold check
  dsimp only
  rw [if_neg hpos, if_pos hrefused]
  rfl

/-- An alignment that is served is not checked any further. -/
theorem check_eq_of_aligned (hpos : size ≠ 0) (hpower : ∃ exponent, align = 2 ^ exponent)
    (hle : align ≤ config.maxAlign) : check config size align = (do
      let need ← blockSize size
      let search ←
        if blockAlign < max align blockAlign then
          (do Word.add (← Word.add need (max align blockAlign)) minBlockSize : Except Fault Nat)
        else pure need
      if maxBlockSize < search then throw .noMemoryAvailable
      return { need, search, align := max align blockAlign }) := by
  have hserved : ¬ (!Word.isPowerOfTwo align || decide (config.maxAlign < align)) = true := by
    rw [Bool.or_eq_true, Bool.not_eq_true', decide_eq_true_eq, ← Bool.not_eq_true,
      Word.isPowerOfTwo_iff, not_or, not_not, not_lt]
    exact ⟨hpower, hle⟩
  unfold check
  dsimp only
  rw [if_neg hpos, if_neg hserved]

/-- What passes the check asks for a block with room for the payload, and looks for one with room to
align that if it has to be aligned to more than blocks are. -/
theorem of_check (hcheck : check config size align = .ok (.ok request)) :
    size ≠ 0 ∧ (∃ exponent, align = 2 ^ exponent) ∧ blockSize size = .ok (.ok request.need) ∧
      request.align = max align blockAlign ∧ request.search ≤ maxBlockSize ∧
      (request.align = blockAlign ∧ request.search = request.need ∨
        request.search = request.need + request.align + minBlockSize) := by
  have hpos : size ≠ 0 := by
    rintro rfl
    have hzero : check config 0 align = .ok (.error .zeroSize) := rfl
    rw [hzero] at hcheck
    cases hcheck
  obtain hmisaligned | ⟨hpower, hle⟩ := misaligned_or_aligned config align
  · rw [check_of_misaligned hpos hmisaligned] at hcheck
    cases hcheck
  rw [check_eq_of_aligned hpos hpower hle] at hcheck
  dsimp only at hcheck
  obtain ⟨need, hneed, hcheck⟩ := Checked.bind_eq_ok_iff.mp hcheck
  split_ifs at hcheck with hwide
  · obtain ⟨search, hsearch, hcheck⟩ := Checked.bind_eq_ok_iff.mp hcheck
    rw [Checked.lift_eq_ok_iff] at hsearch
    obtain ⟨sum, hsum, hsearch⟩ := bind_eq_ok_iff.mp hsearch
    unfold Word.add at hsum hsearch
    split_ifs at hsum hsearch with hfirst hsecond
    obtain rfl := Except.ok.inj hsum
    obtain rfl := Except.ok.inj hsearch
    split_ifs at hcheck with hlarge
    · cases hcheck
    cases hcheck
    exact ⟨hpos, hpower, hneed, rfl, Nat.le_of_not_lt hlarge, .inr rfl⟩
  · rw [pure_bind] at hcheck
    split_ifs at hcheck with hlarge
    · cases hcheck
    cases hcheck
    exact ⟨hpos, hpower, hneed, rfl, Nat.le_of_not_lt hlarge,
      .inl ⟨Nat.le_antisymm (Nat.le_of_not_lt hwide) (Nat.le_max_right _ _), rfl⟩⟩

theorem check_spec (hcheck : check config size align = .ok (.ok request)) :
    request.Serves size align := by
  obtain ⟨hpos, hpower, hneed, halign, hmax, hsearch⟩ := of_check hcheck
  obtain ⟨hsize, hmin, hdvd, -⟩ := blockSize_spec (Nat.pos_of_ne_zero hpos) hneed
  obtain ⟨hpowerMax, hdvdMax⟩ := isPowerOfTwo_max (Word.isPowerOfTwo_iff.mpr hpower)
  rw [← halign] at hpowerMax hdvdMax
  refine ⟨⟨hmin, hdvd, hpowerMax, hdvdMax⟩, halign, hsize, ?_, hmax, ?_⟩
  · rcases hsearch with ⟨-, heq⟩ | heq
    · exact heq.ge
    · omega
  · exact hsearch.imp And.left Eq.ge

/-! ### No request faults -/

theorem exists_blockSize {size : Nat} (hsize : size ≤ 2 ^ 63) :
    ∃ answer, blockSize size = .ok answer := by
  have hlimit : Word.limit = 2 ^ 64 := rfl
  unfold blockSize
  rw [Word.alignUp_eq (by decide) (by decide), Checked.lift_ok_bind]
  split_ifs with hfits
  swap
  · exact ⟨_, rfl⟩
  dsimp only [Word.add?]
  split_ifs with hpadded
  swap
  · exact ⟨_, rfl⟩
  have hpayload := Nat.div_mul_le_self (size + (blockAlign - 1)) blockAlign
  have hroom : (size + (blockAlign - 1)) / blockAlign * blockAlign + headerSize ≤
      2 ^ 64 - 2 ^ 59 := by
    rw [headerSize_eq]
    rw [blockAlign_eq] at hpayload ⊢
    omega
  dsimp only
  rw [roundUp_of_le hroom, Checked.lift_ok_bind]
  split_ifs
  · exact ⟨_, rfl⟩
  · exact ⟨_, rfl⟩

/-- With a valid configuration the check comes to an answer for every alignment. -/
theorem exists_check (hvalid : config.Consistent) (hsize : size ≤ 2 ^ 63) (align : Nat) :
    ∃ answer, check config size align = .ok answer := by
  have hlimit : Word.limit = 2 ^ 64 := rfl
  have hmax : maxBlockSize = 2 ^ 32 := rfl
  by_cases hzero : size = 0
  · subst hzero
    exact ⟨_, rfl⟩
  obtain hmisaligned | ⟨hpower, hle⟩ := misaligned_or_aligned config align
  · exact ⟨_, check_of_misaligned hzero hmisaligned⟩
  rw [check_eq_of_aligned hzero hpower hle]
  dsimp only
  obtain ⟨answer, hneed⟩ := exists_blockSize hsize
  rw [hneed]
  rcases answer with error | need
  · exact ⟨_, rfl⟩
  rw [Checked.ok_bind]
  split_ifs with hwide
  · obtain ⟨-, -, -, hneedLe⟩ := blockSize_spec (Nat.pos_of_ne_zero hzero) hneed
    have halign : max align blockAlign ≤ maxBlockSize := by
      have hpage := hvalid.le_max
      have hlt := hvalid.align_lt
      rw [blockAlign_eq]
      omega
    have hfirst : Word.add need (max align blockAlign) = .ok (need + max align blockAlign) :=
      if_pos (by omega)
    have hsecond : Word.add (need + max align blockAlign) minBlockSize =
        .ok (need + max align blockAlign + minBlockSize) := by
      rw [minBlockSize_eq]
      exact if_pos (by omega)
    rw [hfirst, ok_bind, hsecond, Checked.lift_ok_bind]
    split_ifs
    · exact ⟨_, rfl⟩
    · exact ⟨_, rfl⟩
  · rw [pure_bind]
    split_ifs
    · exact ⟨_, rfl⟩
    · exact ⟨_, rfl⟩

end HeapRequest

end KernelMemory
