import KernelMemory.Proofs.Heap.Runs

/-!
# Allocations that are refused at once

Which allocations no heap can serve is told by their size, their alignment and the configuration,
in numbers without bound (`HeapRequest.Unservable`). Such an allocation ends before anything is done
for it: the supplier is not called, and heap and memory stay as they are. It is refused with the
error that fits, but for the sizes in one span at the end of the words: these fault, as they are
rounded up to the start of a class before they are found to be too large
(`HeapState.allocateAligned_of_unservable`).

An allocation without an alignment of its own asks for that of blocks. A heap whose configuration
admits only smaller alignments refuses it, although a smaller alignment gets just such a block
(`HeapState.allocate_agrees_iff`).
-/

set_option autoImplicit false
set_option relaxedAutoImplicit false

namespace KernelMemory

/-! ### What no heap can serve -/

namespace HeapRequest

/-- The size of the block for a payload, with its tag, in numbers without bound. -/
def blockFor (size : Nat) : Nat :=
  SizeClass.ceiling ((size + (blockAlign - 1)) / blockAlign * blockAlign + headerSize)

/-- The size of the free block to look for, which leaves room to align the payload. -/
def searchFor (size align : Nat) : Nat :=
  if blockAlign < align then blockFor size + align + minBlockSize else blockFor size

/-- The payload with its tag is a word, but there is no word to round that up to. -/
def Overflows (size : Nat) : Prop := 2 ^ 64 - 2 ^ 59 - 16 < size ∧ size ≤ 2 ^ 64 - 32

instance (size : Nat) : Decidable (Overflows size) :=
  inferInstanceAs (Decidable (_ ∧ _))

/-- The allocation asks for nothing, for an alignment that is not served, or for a block that is too
large, by itself or with the room to align the payload. -/
inductive Unservable (config : HeapConfig) (size align : Nat) : AllocError → Prop
  | zeroSize (hzero : size = 0) : Unservable config size align .zeroSize
  | invalidAlignment (hpos : size ≠ 0)
      (halign : (∀ exponent, align ≠ 2 ^ exponent) ∨ config.maxAlign < align) :
      Unservable config size align .invalidAlignment
  | noMemoryAvailable (hpos : size ≠ 0) (hpower : ∃ exponent, align = 2 ^ exponent)
      (hle : align ≤ config.maxAlign)
      (hlarge : maxBlockSize < blockFor size ∨
        blockAlign < align ∧ maxBlockSize < blockFor size + align + minBlockSize) :
      Unservable config size align .noMemoryAvailable

theorem lt_searchFor_iff {size align : Nat} : maxBlockSize < searchFor size align ↔
    maxBlockSize < blockFor size ∨
      blockAlign < align ∧ maxBlockSize < blockFor size + align + minBlockSize := by
  unfold searchFor
  split_ifs <;> omega

theorem lt_blockFor (size : Nat) : size < blockFor size := by
  have hceiling :=
    SizeClass.le_ceiling ((size + (blockAlign - 1)) / blockAlign * blockAlign + headerSize)
  have hdiv := Nat.div_add_mod' (size + (blockAlign - 1)) blockAlign
  unfold blockFor
  rw [blockAlign_eq, headerSize_eq] at *
  omega

/-- A block that is computed in words is that without bound, unless it is too large. -/
theorem blockSize_eq_ite {size : Nat} (hsize : size < Word.limit) : blockSize size =
    if Overflows size then .error .addOverflow
    else if maxBlockSize < blockFor size then .ok (.error .noMemoryAvailable)
    else .ok (.ok (blockFor size)) := by
  have hlimit : Word.limit = 2 ^ 64 := rfl
  have hmax : maxBlockSize = 2 ^ 32 := rfl
  have hlt := lt_blockFor size
  have hdiv := Nat.div_add_mod' (size + (blockAlign - 1)) blockAlign
  have hmod := Nat.mod_lt (size + (blockAlign - 1)) (by decide : 0 < blockAlign)
  have hdvd := Nat.dvd_mul_left blockAlign ((size + (blockAlign - 1)) / blockAlign)
  have hheader : headerSize = 16 := rfl
  have halign : blockAlign = 16 := rfl
  unfold blockFor at hlt ⊢
  unfold blockSize
  rw [Word.alignUp_eq (by decide) (by decide), Checked.lift_ok_bind]
  generalize (size + (blockAlign - 1)) / blockAlign * blockAlign = payload at *
  rw [halign] at hdvd
  have hoverflows : Overflows size ↔ payload + headerSize < Word.limit ∧
      2 ^ 64 - 2 ^ 59 < payload + headerSize := by
    unfold Overflows
    omega
  by_cases hfits : size + (blockAlign - 1) < Word.limit ∧ payload + headerSize < Word.limit
  · have hpadded : Word.add? payload headerSize = some (payload + headerSize) := if_pos hfits.2
    rw [if_pos hfits.1]
    dsimp only
    rw [hpadded]
    dsimp only
    rw [roundUp_eq_ite hfits.2]
    by_cases hlast : 2 ^ 64 - 2 ^ 59 < payload + headerSize
    · rw [if_pos hlast, if_pos (hoverflows.mpr ⟨hfits.2, hlast⟩)]
      rfl
    · rw [if_neg hlast, if_neg fun hover ↦ hlast (hoverflows.mp hover).2, Checked.lift_ok_bind]
      rfl
  · -- Sizes at the very end of the words are noticed before anything is rounded up to a class.
    have hnot : ¬ Overflows size := by
      unfold Overflows
      omega
    have hlarge : maxBlockSize < SizeClass.ceiling (payload + headerSize) := by omega
    rw [if_neg hnot, if_pos hlarge]
    split_ifs with hpayload
    · have hpadded : Word.add? payload headerSize = none :=
        if_neg fun hpadded ↦ hfits ⟨hpayload, hpadded⟩
      dsimp only
      rw [hpadded]
      rfl
    · rfl

/-! ### Checks that refuse -/

variable {config : HeapConfig} {size align : Nat}

/-- What is asked for with an alignment that is served is computed as without bound, but for the
sizes that overflow. -/
theorem check_of_aligned (hpos : size ≠ 0) (hpower : ∃ exponent, align = 2 ^ exponent)
    (hle : align ≤ config.maxAlign) (hsize : size < Word.limit) (halign : align < Word.limit) :
    check config size align =
      if Overflows size then .error .addOverflow
      else if maxBlockSize < searchFor size align then .ok (.error .noMemoryAvailable)
      else .ok (.ok ⟨blockFor size, searchFor size align, max align blockAlign⟩) := by
  have hlimit : Word.limit = 2 ^ 64 := rfl
  have hmax : maxBlockSize = 2 ^ 32 := rfl
  have hmin : minBlockSize = 32 := rfl
  rw [check_eq_of_aligned hpos hpower hle, blockSize_eq_ite hsize]
  by_cases hover : Overflows size
  · rw [if_pos hover, if_pos hover]
    rfl
  rw [if_neg hover, if_neg hover]
  by_cases hlarge : maxBlockSize < blockFor size
  · have hsearch : maxBlockSize < searchFor size align := by
      unfold searchFor
      split_ifs <;> omega
    rw [if_pos hlarge, if_pos hsearch]
    rfl
  rw [if_neg hlarge, Checked.ok_bind]
  unfold searchFor
  rcases Nat.lt_or_ge blockAlign align with hwide | hnarrow
  · -- An alignment that is a word is at most half of them, so that the sum cannot overflow.
    have hhalf : align ≤ 2 ^ 63 := by
      obtain ⟨exponent, rfl⟩ := hpower
      have hexponent : exponent < 64 := (Nat.pow_lt_pow_iff_right (by decide)).mp halign
      exact Nat.pow_le_pow_right (by decide) (by omega)
    have hadd : Word.add (blockFor size) align = .ok (blockFor size + align) := if_pos (by omega)
    have hroom : Word.add (blockFor size + align) minBlockSize =
      .ok (blockFor size + align + minBlockSize) := if_pos (by omega)
    rw [Nat.max_eq_left hwide.le, if_pos hwide, if_pos hwide, hadd, ok_bind, hroom,
      Checked.lift_ok_bind]
    rfl
  · rw [Nat.max_eq_right hnarrow, if_neg (Nat.lt_irrefl _), if_neg (Nat.not_lt.mpr hnarrow),
      pure_bind]
    rfl

/-- A request that no heap can serve is refused with the error that fits, or overflows. -/
theorem check_of_unservable {error : AllocError} (hsize : size < Word.limit)
    (halign : align < Word.limit) (hunservable : Unservable config size align error) :
    check config size align =
      if error = .noMemoryAvailable ∧ Overflows size then .error .addOverflow
      else .ok (.error error) := by
  cases hunservable with
  | zeroSize hzero =>
    subst hzero
    rfl
  | invalidAlignment hpos halign => exact check_of_misaligned hpos halign
  | noMemoryAvailable hpos hpower hle hlarge =>
    have hsearch : maxBlockSize < searchFor size align := lt_searchFor_iff.mpr hlarge
    rw [check_of_aligned hpos hpower hle hsize halign, if_pos hsearch]
    simp only [true_and]

end HeapRequest

/-! ### Refusals on the way -/

namespace Heap

variable {κ ω α : Type} {errors : AllocError → Prop}

theorem refusesOnly_step (change : Layout → Except Fault (α × Layout)) :
    (step change : Act (Site κ ω) α).RefusesOnly errors :=
  Act.refusesOnly_get.bind fun _ ↦ (Act.refusesOnly_lift _).bind fun _ ↦
    (Act.refusesOnly_set _).bind fun _ ↦ Act.refusesOnly_pure _

theorem refusesOnly_findFree? (size : Nat) :
    (findFree? size : Act (Site κ ω) (Option Nat)).RefusesOnly errors :=
  Act.refusesOnly_get.bind fun _ ↦ Act.refusesOnly_lift _

variable [PageSupplier κ ω]

/-- That a growth is refused is noted. -/
theorem refusesOnly_growIfLow : (growIfLow : Act (Site κ ω) Unit).RefusesOnly errors := by
  unfold growIfLow
  refine Act.refusesOnly_get.bind fun _ ↦ (refusesOnly_findFree? _).bind fun found ↦ ?_
  split
  · refine (Act.refusesOnly_settle _).bind fun settled ↦ ?_
    cases settled with
    | error error => exact Act.refusesOnly_note _
    | ok value => exact Act.refusesOnly_pure ()
  · exact Act.refusesOnly_pure ()

theorem refusesOnly_findOrGrow (size : Nat) (hmemory : errors .noMemoryAvailable) :
    (findOrGrow size : Act (Site κ ω) Nat).RefusesOnly errors := by
  unfold findOrGrow
  refine (refusesOnly_findFree? size).bind fun found ↦ ?_
  cases found with
  | some block => exact Act.refusesOnly_pure block
  | none =>
    refine (Act.refusesOnly_lift _).bind fun _ ↦ (Act.refusesOnly_settle _).bind fun settled ↦ ?_
    cases settled with
    | error error => exact Act.refusesOnly_throw hmemory
    | ok value =>
      refine (refusesOnly_findFree? size).bind fun again ↦ ?_
      cases again with
      | none => exact Act.refusesOnly_throw hmemory
      | some block => exact Act.refusesOnly_pure block

end Heap

namespace HeapState

variable {κ ω : Type} [PageSupplier κ ω] {state : HeapState κ ω} {size align : Nat}

/-- What the check refuses is refused before anything is done. -/
theorem allocateAligned_of_refused {error : AllocError}
    (hcheck : HeapRequest.check state.heap.config size align = .ok (.error error)) :
    allocateAligned size align state = ⟨.ok (.error error), state, []⟩ := by
  unfold allocateAligned
  rw [Act.get_bind_run]
  exact Act.bind_run_of_refused (Act.liftM_checked_run hcheck state) _

theorem allocateAligned_of_fault {fault : Fault}
    (hcheck : HeapRequest.check state.heap.config size align = .error fault) :
    allocateAligned size align state = ⟨.error fault, state, []⟩ := by
  unfold allocateAligned
  rw [Act.get_bind_run]
  exact Act.bind_run_of_fault (Act.liftM_checked_run_of_fault hcheck state) _

/-- Past its check an allocation is refused only for want of memory. -/
theorem eq_noMemoryAvailable_of_request {request : HeapRequest} {error : AllocError}
    (hcheck : HeapRequest.check state.heap.config size align = .ok (.ok request))
    (hanswer : (allocateAligned size align state).answer = .ok (.error error)) :
    error = .noMemoryAvailable := by
  unfold allocateAligned at hanswer
  rw [Act.get_bind_run, Act.bind_run_of_silent (Act.liftM_checked_run hcheck state)] at hanswer
  have hgrow : (onSite Heap.growIfLow : Act (HeapState κ ω) Unit).RefusesOnly
      (· = .noMemoryAvailable) := Heap.refusesOnly_growIfLow.within _ _
  have hfind : (onSite (Heap.findOrGrow request.search) : Act (HeapState κ ω) Nat).RefusesOnly
      (· = .noMemoryAvailable) := (Heap.refusesOnly_findOrGrow _ (by rfl)).within _ _
  refine (hgrow.bind fun _ ↦ hfind.bind fun _ ↦ ?_) state error hanswer
  exact ((Heap.refusesOnly_step _).within _ _).bind fun _ ↦
    Act.refusesOnly_get.bind fun _ ↦ (Act.refusesOnly_lift _).bind fun _ ↦
    (Act.refusesOnly_modify _).bind fun _ ↦ Act.refusesOnly_lift _

/-- What no heap can serve is refused with the error that fits, without a call of the supplier and
without a change of heap and memory. Sizes that overflow as they are rounded up end in a fault. -/
theorem allocateAligned_of_unservable {error : AllocError} (hsize : size < Word.limit)
    (halign : align < Word.limit)
    (hunservable : HeapRequest.Unservable state.heap.config size align error) :
    allocateAligned size align state =
      ⟨if error = .noMemoryAvailable ∧ HeapRequest.Overflows size then .error .addOverflow
        else .ok (.error error), state, []⟩ := by
  have hcheck := HeapRequest.check_of_unservable hsize halign hunservable
  split_ifs at hcheck ⊢ with hoverflows
  · exact allocateAligned_of_fault hcheck
  · exact allocateAligned_of_refused hcheck

/-- A block of more than the largest size is refused, also one that is too large only with the room
to align the payload. -/
theorem allocateAligned_of_unservable_block :
    (2 ^ 32 - 16 < Word.limit ∧ 4096 < Word.limit ∧
      HeapRequest.Unservable HeapRun.oneTaken.state.heap.config (2 ^ 32 - 16) 4096
        .noMemoryAvailable) ∧
    allocateAligned (2 ^ 32 - 16) 4096 HeapRun.oneTaken.state =
      ⟨.ok (.error .noMemoryAvailable), HeapRun.oneTaken.state, []⟩ := by
  have hconfig : HeapRun.oneTaken.state.heap.config = {} := by decide +kernel
  have hunservable : HeapRequest.Unservable HeapRun.oneTaken.state.heap.config (2 ^ 32 - 16) 4096
      .noMemoryAvailable := by
    rw [hconfig]
    refine .noMemoryAvailable (by decide) ⟨12, by decide⟩ (by decide) ?_
    exact .inr (by decide +kernel)
  have hrefused := allocateAligned_of_unservable (by decide) (by decide) hunservable
  rw [if_neg (by decide)] at hrefused
  exact ⟨⟨by decide, by decide, hunservable⟩, hrefused⟩

/-- Close to the last word a request that should be refused ends in a fault instead. -/
theorem addOverflow_of_unservable : ∃ (state : HeapState LinearSupplier Unit)
    (deeds : List HeapDeed) (log : List Event), HeapRun AnyWrite state deeds log ∧ Orderly log ∧
      2 ^ 64 - 101 < Word.limit ∧
      HeapRequest.Unservable state.heap.config (2 ^ 64 - 101) 16 .noMemoryAvailable ∧
      (allocateAligned (2 ^ 64 - 101) 16 state).answer = .error .addOverflow := by
  refine ⟨_, _, _, HeapRun.oneTaken_run _, HeapRun.orderly_firstLog, by decide, ?_,
    by decide +kernel⟩
  have hconfig : HeapRun.oneTaken.state.heap.config = {} := by decide +kernel
  rw [hconfig]
  refine .noMemoryAvailable (by decide) ⟨4, by decide⟩ (by decide) ?_
  exact .inl (by decide +kernel)

/-! ### Allocations without an alignment -/

/-- Alignments that are served do not count beyond what the check makes of them. -/
theorem allocateAligned_congr {other : Nat}
    (hcheck : HeapRequest.check state.heap.config size align =
      HeapRequest.check state.heap.config size other) :
    allocateAligned size align state = allocateAligned size other state := by
  unfold allocateAligned
  rw [Act.get_bind_run, Act.get_bind_run, hcheck]

/-- An alignment that is served is not what an allocation is refused for. -/
theorem answer_ne_invalidAlignment (hpower : ∃ exponent, align = 2 ^ exponent)
    (hle : align ≤ state.heap.config.maxAlign) (hsize : size < Word.limit)
    (halign : align < Word.limit) :
    (allocateAligned size align state).answer ≠ .ok (.error .invalidAlignment) := by
  intro hanswer
  rcases Nat.eq_zero_or_pos size with rfl | hpos
  · rw [allocateAligned_of_refused rfl] at hanswer
    cases hanswer
  have hcheck := HeapRequest.check_of_aligned hpos.ne' hpower hle hsize halign
  split_ifs at hcheck
  · rw [allocateAligned_of_fault hcheck] at hanswer
    cases hanswer
  · rw [allocateAligned_of_refused hcheck] at hanswer
    cases hanswer
  · cases eq_noMemoryAvailable_of_request hcheck hanswer

/-- An allocation without an alignment does the same as one with an alignment up to that of blocks,
just if the configuration admits the alignment of blocks. Otherwise it is refused for its alignment
and nothing is done, whatever its size. -/
theorem allocate_agrees_iff (hsize : size < Word.limit) (hpower : ∃ exponent, align = 2 ^ exponent)
    (hle : align ≤ blockAlign) (hmax : align ≤ state.heap.config.maxAlign) :
    (allocate size state = allocateAligned size align state ↔
      size = 0 ∨ blockAlign ≤ state.heap.config.maxAlign) ∧
    ((allocate size state).answer = .ok (.error .invalidAlignment) ↔
      size ≠ 0 ∧ state.heap.config.maxAlign < blockAlign) ∧
    (size ≠ 0 → state.heap.config.maxAlign < blockAlign →
      allocate size state = ⟨.ok (.error .invalidAlignment), state, []⟩) := by
  have hword : blockAlign < Word.limit := by decide
  have hblockPower : ∃ exponent, blockAlign = 2 ^ exponent := ⟨alignShift, rfl⟩
  have hrefused : size ≠ 0 → state.heap.config.maxAlign < blockAlign →
      allocate size state = ⟨.ok (.error .invalidAlignment), state, []⟩ := fun hpos hlt ↦
    allocateAligned_of_refused (HeapRequest.check_of_misaligned hpos (.inr hlt))
  have hserved : blockAlign ≤ state.heap.config.maxAlign →
      (allocate size state).answer ≠ .ok (.error .invalidAlignment) := fun hblock ↦
    answer_ne_invalidAlignment hblockPower hblock hsize hword
  have hother := answer_ne_invalidAlignment hpower hmax hsize (hle.trans_lt hword)
  refine ⟨⟨fun heq ↦ ?_, ?_⟩, ⟨fun hanswer ↦ ⟨?_, ?_⟩, fun ⟨hpos, hlt⟩ ↦ ?_⟩, hrefused⟩
  · by_contra hnot
    obtain ⟨hpos, hlt⟩ := not_or.mp hnot
    rw [← heq, hrefused hpos (Nat.not_le.mp hlt)] at hother
    exact hother rfl
  · rintro (rfl | hblock)
    · exact allocateAligned_congr rfl
    · rcases Nat.eq_zero_or_pos size with rfl | hpos
      · exact allocateAligned_congr rfl
      · refine allocateAligned_congr ?_
        rw [HeapRequest.check_eq_of_aligned hpos.ne' hblockPower hblock,
          HeapRequest.check_eq_of_aligned hpos.ne' hpower hmax, Nat.max_self, Nat.max_eq_right hle]
  · rintro rfl
    have hzero : allocate 0 state = ⟨.ok (.error .zeroSize), state, []⟩ :=
      allocateAligned_of_refused rfl
    rw [hzero] at hanswer
    cases hanswer
  · by_contra hblock
    exact hserved (Nat.not_lt.mp hblock) hanswer
  · rw [hrefused hpos hlt]

/-- A heap on its first page that serves no alignment beyond that of words. -/
def narrowPage : Outcome (Heap.Site LinearSupplier Unit) Unit :=
  Heap.grow (HeapConfig.pageSize { maxAlign := 8 })
    ({ config := { maxAlign := 8 }, supplier := { next := 4096, stop := 2 ^ 32 } }, ())

def narrow : HeapState LinearSupplier Unit := ⟨narrowPage.state.1, .blank, narrowPage.state.2⟩

theorem narrow_run : HeapRun AnyWrite narrow [] HeapRun.firstLog := by
  have hvalid : ({ maxAlign := 8 } : HeapConfig).validate.run = .ok (.ok ()) := by decide +kernel
  have hpage : narrowPage.answer = .ok (.ok ()) := by decide +kernel
  have hlog : narrowPage.events = HeapRun.firstLog := by decide +kernel
  exact .created (Heap.create_run hvalid (Outcome.eq_of_answer hpage hlog)) .blank

theorem narrow_maxAlign : narrow.heap.config.maxAlign = 8 := by decide +kernel

/-- Where no alignment beyond that of words is served, an allocation that asks for that one goes
another way than one that asks for none. -/
theorem allocate_agrees_iff_of_narrow :
    (100 < Word.limit ∧ (∃ exponent, 8 = 2 ^ exponent) ∧ 8 ≤ blockAlign ∧
      8 ≤ narrow.heap.config.maxAlign) ∧
    allocate 100 narrow ≠ allocateAligned 100 8 narrow ∧
    allocate 100 narrow = ⟨.ok (.error .invalidAlignment), narrow, []⟩ := by
  have hmax : 8 ≤ narrow.heap.config.maxAlign := narrow_maxAlign.ge
  have hlt : narrow.heap.config.maxAlign < blockAlign := by
    rw [narrow_maxAlign]
    decide
  obtain ⟨heq, -, hrefused⟩ :=
    @allocate_agrees_iff _ _ _ narrow 100 8 (by decide) ⟨3, rfl⟩ (by decide) hmax
  refine ⟨⟨by decide, ⟨3, rfl⟩, by decide, hmax⟩, fun hsame ↦ ?_, hrefused (by decide) hlt⟩
  exact (heq.mp hsame).elim (by decide) hlt.not_ge

/-- A heap may be made on which every allocation without an alignment is refused for its alignment,
while one with a small alignment gets a block. -/
theorem invalidAlignment_of_allocate : ∃ (state : HeapState LinearSupplier Unit)
    (deeds : List HeapDeed) (log : List Event), HeapRun AnyWrite state deeds log ∧ Orderly log ∧
      8 ≤ state.heap.config.maxAlign ∧
      (allocate 100 state).answer = .ok (.error .invalidAlignment) ∧
      (allocateAligned 100 8 state).answer = .ok (.ok 4112) :=
  ⟨narrow, [], _, narrow_run, HeapRun.orderly_firstLog, narrow_maxAlign.ge, by decide +kernel,
    by decide +kernel⟩

end HeapState

end KernelMemory
