import KernelMemory.Proofs.Heap.Demand
import KernelMemory.Proofs.Heap.Refusals

/-!
# What a valid configuration is good for

A configuration is accepted just if its parts fit together, in numbers without bound
(`HeapConfig.Consistent`), and all others are refused with the error for that, but for watermarks in
one span at the end of the words: these fault, as they are rounded up to the start of a class before
they are found to be too large (`HeapConfig.Overflows`).

What was accepted is good for all that a heap computes from it: one free page reaches the watermark,
the blocks of a page have lists, and the size to look for is a word whatever alignment is served
(`HeapConfig.validate_suffices`).
-/

set_option autoImplicit false
set_option relaxedAutoImplicit false

namespace KernelMemory

namespace HeapConfig

variable {config : HeapConfig}

/-- There is no word to round the watermark up to. -/
structure Overflows (config : HeapConfig) : Prop extends PageFits config where
  lt_watermark : 2 ^ 64 - 2 ^ 59 < config.growWatermark

theorem Consistent.not_overflows (hconsistent : config.Consistent) : ¬ config.Overflows := by
  intro hoverflows
  have hlt := hoverflows.lt_watermark
  have hle := hconsistent.growWatermark_le
  have hmax : maxBlockSize = 2 ^ 32 := rfl
  omega

theorem validate_of_consistent (hconsistent : config.Consistent) :
    config.validate = .ok (.ok ()) := by
  unfold validate
  dsimp only
  rw [if_pos hconsistent.min_le, if_pos hconsistent.le_max, if_pos hconsistent.aligned,
    if_pos hconsistent.watermark_pos, hconsistent.roundUp_growWatermark, Checked.lift_ok_bind,
    if_pos hconsistent.watermark_le, if_pos hconsistent.align_power, if_pos hconsistent.align_lt]
  rfl

theorem validate_of_overflows (hoverflows : config.Overflows)
    (hword : config.growWatermark < Word.limit) : config.validate = .error .addOverflow := by
  have hround : roundUp config.growWatermark = .error .addOverflow := by
    rw [roundUp_eq_ite hword, if_pos hoverflows.lt_watermark]
  unfold validate
  dsimp only
  rw [if_pos hoverflows.min_le, if_pos hoverflows.le_max, if_pos hoverflows.aligned,
    if_pos (Nat.zero_lt_of_lt hoverflows.lt_watermark), hround]
  rfl

/-- The checks are made one after the other, and the first one that fails refuses. -/
theorem validate_of_inconsistent (hinconsistent : ¬ config.Consistent)
    (hfits : ¬ config.Overflows) (hword : config.growWatermark < Word.limit) :
    config.validate = .ok (.error .invalidConfig) := by
  unfold validate
  dsimp only
  by_cases hmin : 2 * minBlockSize ≤ config.pageSize
  swap
  · rw [if_neg hmin]
    rfl
  by_cases hmax : config.pageSize ≤ maxBlockSize
  swap
  · rw [if_pos hmin, if_neg hmax]
    rfl
  by_cases haligned : config.pageSize % blockAlign = 0
  swap
  · rw [if_pos hmin, if_pos hmax, if_neg haligned]
    rfl
  rw [if_pos hmin, if_pos hmax, if_pos haligned]
  by_cases hpos : 0 < config.growWatermark
  swap
  · rw [if_neg hpos]
    rfl
  have hpage : config.PageFits := ⟨hmin, hmax, haligned⟩
  have hround : roundUp config.growWatermark = .ok (SizeClass.ceiling config.growWatermark) := by
    rw [roundUp_eq_ite hword, if_neg fun hlt ↦ hfits ⟨hpage, hlt⟩]
  rw [if_pos hpos, hround, Checked.lift_ok_bind]
  by_cases hle : SizeClass.ceiling config.growWatermark ≤ config.pageSize
  swap
  · rw [if_neg hle]
    rfl
  by_cases hpower : Word.isPowerOfTwo config.maxAlign = true
  swap
  · rw [if_pos hle, if_neg hpower]
    rfl
  rw [if_pos hle, if_pos hpower, if_neg fun hlt ↦ hinconsistent ⟨hpage, hpos, hle, hpower, hlt⟩]
  rfl

/-! ### What was accepted -/

/-- What a heap computes from the configuration comes out as it should. -/
structure Suffices (config : HeapConfig) : Prop where
  /-- A heap with one page, which is free, finds that page for the watermark. -/
  page_found : ∀ base, 0 < base → blockAlign ∣ base → base + config.pageSize < Word.limit →
    ∃ layout index block, ({} : Layout).addPage base config.pageSize = .ok layout ∧
      layout.findFree? config.growWatermark = .ok (some index) ∧
      layout.blocks.get? index = some block ∧ block.isFree = true ∧ block.size = config.pageSize
  /-- So does any heap on which a free block is as large as a page. -/
  found : ∀ layout : Layout, layout.Settled → layout.HasFree config.pageSize →
    ∃ index, layout.findFree? config.growWatermark = .ok (some index)
  /-- The blocks of a page have lists. -/
  listed : ∀ size ≤ config.pageSize, ∃ number < classCount,
    (SizeClass.ofSize size).index = .ok number
  /-- The size to look for is a word. -/
  fits : ∀ need ≤ maxBlockSize, ∀ align ≤ config.maxAlign,
    (do Word.add (← Word.add need (max align blockAlign)) minBlockSize : Except Fault Nat) =
      .ok (need + max align blockAlign + minBlockSize)

/-- The page is the only free block there is. -/
theorem size_eq_of_first_page {size index : Nat} {layout : Layout} {block : Block}
    (hgrows : ({} : Layout).Grows layout size) (hblock : layout.blocks.get? index = some block)
    (hfree : block.isFree = true) : block.size = size := by
  rcases hgrows.free index block hblock hfree with hold | ⟨other, page, hother, -, -, hpage, hsize⟩
  · cases hold
  · obtain rfl := Option.some.inj (hblock.symm.trans hother)
    rcases hgrows.pages _ page hpage with hold | hnew
    · cases hold
    · exact hsize.trans hnew

theorem Consistent.suffices (hvalid : config.Consistent) : config.Suffices := by
  have hwatermark := hvalid.growWatermark_le
  have hfound : ∀ layout : Layout, layout.Settled → layout.HasFree config.pageSize →
      ∃ index, layout.findFree? config.growWatermark = .ok (some index) :=
    fun layout hsettled hfree ↦
      hsettled.exists_findFree?_of_hasFree hwatermark hvalid.roundUp_growWatermark
        (hfree.mono hvalid.watermark_le)
  refine ⟨fun base hpos hdvd hend ↦ ?_, hfound, fun size hsize ↦ ?_,
    fun need hneed align halign ↦ ?_⟩
  · have husable : Page.Usable ⟨base, config.pageSize, 0⟩ :=
      ⟨hpos, hdvd, (Nat.le_mul_of_pos_left _ (by decide)).trans hvalid.min_le,
        hvalid.dvd, hvalid.le_max, hend⟩
    obtain ⟨-, -, layout, hadd, hsettled, -, -, -, -, -, hgrows⟩ :=
      Layout.settled_empty.addPage husable fun _ _ hpage ↦ by cases hpage
    obtain ⟨first, page, hpage, hpageFree, hpageSize⟩ := hgrows.fresh
    obtain ⟨index, hindex⟩ := hfound layout hsettled ⟨first, page, hpage, hpageFree, hpageSize.ge⟩
    obtain ⟨block, hblock, hfree, -⟩ := hsettled.findFree? hwatermark hindex
    exact ⟨layout, index, block, hadd, hindex, hblock, hfree,
      size_eq_of_first_page hgrows hblock hfree⟩
  · have hclass := SizeClass.ofSize_inRange (hsize.trans hvalid.le_max)
    exact ⟨_, hclass.number_lt, hclass.index_eq⟩
  · have hpage := hvalid.le_max
    have hlt := hvalid.align_lt
    have hmax : maxBlockSize = 2 ^ 32 := rfl
    have hlimit : Word.limit = 2 ^ 64 := rfl
    have hfirst : Word.add need (max align blockAlign) = .ok (need + max align blockAlign) := by
      rw [blockAlign_eq]
      exact if_pos (by omega)
    rw [hfirst, ok_bind, blockAlign_eq, minBlockSize_eq]
    exact if_pos (by omega)

/-- A configuration is accepted just if its parts fit together, and then a heap can rely on it. It
faults just if it passes all checks before that of the watermark and there is no word to round that
up to, and in all other cases it is refused. -/
theorem validate_suffices (hword : config.growWatermark < Word.limit) :
    (config.validate = .ok (.ok ()) ↔ config.Consistent) ∧
    (config.validate = .ok (.error .invalidConfig) ↔ ¬ config.Consistent ∧ ¬ config.Overflows) ∧
    (∀ fault, config.validate = .error fault ↔ fault = .addOverflow ∧ config.Overflows) ∧
    (config.validate = .ok (.ok ()) → config.Suffices) := by
  have hsuffices : config.validate = .ok (.ok ()) → config.Suffices := fun hvalidate ↦
    (consistent_of_validate hvalidate).suffices
  by_cases hoverflows : config.Overflows
  · have hinconsistent : ¬ config.Consistent := fun hconsistent ↦
      hconsistent.not_overflows hoverflows
    rw [validate_of_overflows hoverflows hword] at hsuffices ⊢
    refine ⟨iff_of_false ?_ hinconsistent, iff_of_false ?_ fun hboth ↦ hboth.2 hoverflows,
      fun fault ↦ ⟨?_, ?_⟩, hsuffices⟩
    · rintro ⟨⟩
    · rintro ⟨⟩
    · rintro ⟨⟩
      exact ⟨rfl, hoverflows⟩
    · rintro ⟨rfl, -⟩
      rfl
  by_cases hconsistent : config.Consistent
  · rw [validate_of_consistent hconsistent] at hsuffices ⊢
    refine ⟨iff_of_true rfl hconsistent, iff_of_false ?_ fun hboth ↦ hboth.1 hconsistent,
      fun fault ↦ iff_of_false ?_ fun hboth ↦ hoverflows hboth.2, hsuffices⟩
    · rintro ⟨⟩
    · rintro ⟨⟩
  · rw [validate_of_inconsistent hconsistent hoverflows hword] at hsuffices ⊢
    refine ⟨iff_of_false ?_ hconsistent, iff_of_true rfl ⟨hconsistent, hoverflows⟩,
      fun fault ↦ iff_of_false ?_ fun hboth ↦ hoverflows hboth.2, hsuffices⟩
    · rintro ⟨⟩
    · rintro ⟨⟩

/-- The size of a page need not start a class: this one lies between two of them, and the watermark
is as large as it may be for it. -/
theorem validate_suffices_of_odd_page :
    (HeapConfig.mk 16400 16384 1 8192).growWatermark < Word.limit ∧
    (HeapConfig.mk 16400 16384 1 8192).validate = .ok (.ok ()) ∧
    (HeapConfig.mk 16400 16384 1 8192).Consistent ∧
    (HeapConfig.mk 16400 16384 1 8192).Suffices ∧
    (HeapConfig.mk 16400 16385 1 8192).validate = .ok (.error .invalidConfig) := by
  have hvalidate : (HeapConfig.mk 16400 16384 1 8192).validate.run = .ok (.ok ()) := by
    decide +kernel
  have hrefused : (HeapConfig.mk 16400 16385 1 8192).validate.run =
      .ok (.error .invalidConfig) := by decide +kernel
  obtain ⟨haccepts, -, -, hsuffices⟩ :=
    @validate_suffices (HeapConfig.mk 16400 16384 1 8192) (by decide)
  exact ⟨by decide, hvalidate, haccepts.mp hvalidate, hsuffices hvalidate, hrefused⟩

/-- The last word as a watermark is neither accepted nor refused. -/
theorem addOverflow_of_validate :
    (HeapConfig.mk 16384 (2 ^ 64 - 1) 1 4096).growWatermark < Word.limit ∧
    (HeapConfig.mk 16384 (2 ^ 64 - 1) 1 4096).validate.run ≠ .ok (.ok ()) ∧
    (HeapConfig.mk 16384 (2 ^ 64 - 1) 1 4096).validate.run ≠ .ok (.error .invalidConfig) ∧
    (HeapConfig.mk 16384 (2 ^ 64 - 1) 1 4096).validate.run = .error .addOverflow := by
  decide +kernel

end HeapConfig

end KernelMemory
