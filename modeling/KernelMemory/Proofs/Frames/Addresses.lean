import KernelMemory.Proofs.Frames.Canonical

/-!
# The addresses of frames

A pool is set up just if it starts at the address of a frame and its end is an address too
(`FrameAllocator.withBase_eq_ite`). So no sum of its base with the place of a frame leaves the
words, and each frame has an address. It is found there and nowhere else, and at no other address is
a frame found (`FrameAllocator.frameAt?_eq_some_iff`): not before the pool or behind it, and not
between two frames.

No call moves a pool, so the frames and their addresses tell each other in every state of it
(`FramesInUse.addresses_tell_frames`).
-/

set_option autoImplicit false
set_option relaxedAutoImplicit false

namespace KernelMemory

namespace FrameAllocator

variable {frames : FrameAllocator} {base count frame address : Nat}

/-! ### The place of a pool -/

/-- Any other place is refused. -/
theorem checkPlace_of_misplaced
    (hplace : ¬ (base % frameSize = 0 ∧ base + count * frameSize < Word.limit)) :
    checkPlace base count = .ok (.error .invalidConfig) := by
  unfold checkPlace
  by_cases hbase : base % frameSize = 0
  · have hend : ¬ base + count * frameSize < Word.limit := fun hend ↦ hplace ⟨hbase, hend⟩
    have hnone : ((Word.mul? count frameSize).bind fun size ↦ Word.add? size base) = none := by
      unfold Word.mul?
      split_ifs
      · rw [Option.bind_some, Word.add?, if_neg (by omega)]
      · rfl
    simp only [hbase, hnone, ne_eq, not_true_eq_false, if_false, Option.isNone_none, if_true]
    rfl
  · simp only [ne_eq, hbase, not_false_eq_true, if_true]
    rfl

theorem withBase_of_misplaced
    (hplace : ¬ (base % frameSize = 0 ∧ base + count * frameSize < Word.limit)) :
    withBase base count = .ok (.error .invalidConfig) := by
  rw [withBase, checkPlace_of_misplaced hplace]
  rfl

/-- A pool is set up at a place that is aligned and has an end, and refused at any other. -/
theorem withBase_eq_ite (base count : Nat) : withBase base count =
    if base % frameSize = 0 ∧ base + count * frameSize < Word.limit then
      liftM (ofFrames base count)
    else .ok (.error .invalidConfig) := by
  split_ifs with hplace
  · exact withBase_eq_ofFrames hplace.1 hplace.2
  · exact withBase_of_misplaced hplace

/-- What is set up is the new pool at such a place. -/
theorem withBase_eq_ok_iff : withBase base count = .ok (.ok frames) ↔
    (base % frameSize = 0 ∧ base + count * frameSize < Word.limit) ∧
      ofFrames base count = .ok frames := by
  rw [withBase_eq_ite]
  split_ifs with hplace
  · rw [Checked.lift_eq_ok_iff]
    exact (and_iff_right hplace).symm
  · refine iff_of_false ?_ fun hboth ↦ hplace hboth.1
    rintro ⟨⟩

theorem exists_withBase_iff : (∃ frames, withBase base count = .ok (.ok frames)) ↔
    base % frameSize = 0 ∧ base + count * frameSize < Word.limit := by
  obtain ⟨frames, lists, hframes, -⟩ := ofFrames_partitioned base count
  constructor
  · rintro ⟨other, hother⟩
    exact (withBase_eq_ok_iff.mp hother).1
  · intro hplace
    exact ⟨frames, withBase_eq_ok_iff.mpr ⟨hplace, hframes⟩⟩

/-! ### Frames and addresses -/

theorem addressOf_eq (hword : frames.base + frame * frameSize < Word.limit) :
    frames.addressOf frame = .ok (frames.base + frame * frameSize) := by
  have hmul : Word.mul frame frameSize = .ok (frame * frameSize) := by
    unfold Word.mul
    exact if_pos (by omega)
  rw [addressOf, hmul, ok_bind]
  unfold Word.add
  exact if_pos hword

theorem eq_of_addressOf_eq_ok (haddress : frames.addressOf frame = .ok address) :
    address = frames.base + frame * frameSize := by
  obtain ⟨product, hproduct, hsum⟩ := bind_eq_ok_iff.mp haddress
  rw [Word.eq_of_add_eq_ok hsum, Word.eq_of_mul_eq_ok hproduct]

/-- A frame is found at its address and nowhere else. -/
theorem frameAt?_eq_some_iff : frames.frameAt? address = some frame ↔
    address = frames.base + frame * frameSize ∧ frame < frames.frameCount := by
  have hparts : frames.frameAt? address = some frame ↔ frames.base ≤ address ∧
      (address - frames.base) % frameSize = 0 ∧
      (address - frames.base) / frameSize < frames.frameCount ∧
      (address - frames.base) / frameSize = frame := by
    simp only [frameAt?, Word.sub?, Option.bind_eq_bind, Option.bind_eq_some_iff,
      Option.guard_eq_some', Option.pure_def, Option.some.injEq, Option.ite_none_right_eq_some,
      exists_const, exists_and_left, exists_eq_left', and_assoc]
  rw [hparts]
  simp only [frameSize]
  omega

/-- Frames and addresses tell each other: every frame has an address, at which it is found, what is
found at an address has this address, and where nothing is found no frame has its address. -/
structure Addressed (frames : FrameAllocator) (count : Nat) : Prop where
  address : ∀ frame < count, ∃ address < Word.limit, frames.addressOf frame = .ok address ∧
    frames.frameAt? address = some frame
  found : ∀ address frame, frames.frameAt? address = some frame →
    frame < count ∧ frames.addressOf frame = .ok address
  missed : ∀ address, frames.frameAt? address = none →
    ∀ frame < count, frames.addressOf frame ≠ .ok address

/-- A pool with an end among the words has addresses for all of its frames. -/
theorem addressed (hend : frames.base + frames.frameCount * frameSize < Word.limit) :
    frames.Addressed frames.frameCount := by
  have hword : ∀ frame < frames.frameCount,
      frames.base + frame * frameSize < Word.limit := fun frame hframe ↦
    lt_of_le_of_lt (Nat.add_le_add_left (Nat.mul_le_mul_right _ (Nat.le_of_lt hframe)) _) hend
  constructor
  · intro frame hframe
    exact ⟨_, hword frame hframe, addressOf_eq (hword frame hframe),
      frameAt?_eq_some_iff.mpr ⟨rfl, hframe⟩⟩
  · intro address frame hfound
    obtain ⟨rfl, hframe⟩ := frameAt?_eq_some_iff.mp hfound
    exact ⟨hframe, addressOf_eq (hword frame hframe)⟩
  · intro address hmissed frame hframe haddress
    have hfound : frames.frameAt? address = some frame :=
      frameAt?_eq_some_iff.mpr ⟨eq_of_addressOf_eq_ok haddress, hframe⟩
    rw [hmissed] at hfound
    cases hfound

end FrameAllocator

namespace FramesInUse

variable {use after : FramesInUse} {lists : Nat → List Nat} {calls : List FrameCall}

/-- A run that does not fault asks for no number of frames beyond the last power of two. -/
theorem pages_le_of_run (hrun : use.run calls = .ok after) {pages : Nat}
    (hpages : .allocatePages pages ∈ calls) : pages ≤ 2 ^ 63 := by
  induction calls generalizing use with
  | nil => exact absurd hpages List.not_mem_nil
  | cons call calls ih =>
    rw [run, List.foldlM_cons] at hrun
    obtain ⟨first, hfirst, hrest⟩ := bind_eq_ok_iff.mp hrun
    rcases List.mem_cons.mp hpages with rfl | hmem
    · exact pages_le_of_step hfirst
    · exact ih hrest hmem

/-- No call moves a pool. -/
theorem Held.base_eq (huse : use.Held lists) (hrun : use.run calls = .ok after) :
    after.frames.base = use.frames.base ∧ after.frames.frameCount = use.frames.frameCount := by
  obtain ⟨other, more, hother, hbase, hcount, -⟩ := huse.run fun _ ↦ pages_le_of_run hrun
  obtain rfl : other = after := Except.ok.inj (hother.symm.trans hrun)
  exact ⟨hbase, hcount⟩

/-- A pool is set up just if its base is the address of a frame and its end is a word, and refused
otherwise. Then after any run its frames and their addresses tell each other. -/
theorem addresses_tell_frames (base count : Nat) :
    ((∃ frames, FrameAllocator.withBase base count = .ok (.ok frames)) ↔
      base % frameSize = 0 ∧ base + count * frameSize ≤ Word.max) ∧
    (¬ (base % frameSize = 0 ∧ base + count * frameSize ≤ Word.max) →
      FrameAllocator.withBase base count = .ok (.error .invalidConfig)) ∧
    ∀ frames calls use, FrameAllocator.withBase base count = .ok (.ok frames) →
      run ⟨frames, []⟩ calls = .ok use → use.frames.Addressed count := by
  have hmax : base + count * frameSize ≤ Word.max ↔ base + count * frameSize < Word.limit := by
    simp only [Word.max, Word.limit]
    omega
  rw [hmax]
  refine ⟨FrameAllocator.exists_withBase_iff, FrameAllocator.withBase_of_misplaced,
    fun frames calls use hframes huse ↦ ?_⟩
  obtain ⟨⟨-, hend⟩, hnew⟩ := FrameAllocator.withBase_eq_ok_iff.mp hframes
  obtain ⟨lists, hheld, rfl, rfl⟩ := held_ofFrames hnew
  obtain ⟨hbase, hcount⟩ := hheld.base_eq huse
  dsimp only at hbase hcount
  rw [← hbase, ← hcount] at hend
  rw [← hcount]
  exact FrameAllocator.addressed hend

/-- The last three frames before the last one of all are a pool, and a fourth is too much for it. -/
theorem addresses_tell_frames_of_last : ∃ frames use,
    FrameAllocator.withBase (2 ^ 64 - 16384) 3 = .ok (.ok frames) ∧
    FrameAllocator.withBase (2 ^ 64 - 16384) 4 = .ok (.error .invalidConfig) ∧
    run ⟨frames, []⟩ [.allocatePages 2, .allocate 0, .free 0] = .ok use ∧ use.live = [⟨2, 0⟩] ∧
    use.frames.Addressed 3 ∧ use.frames.frameAt? (2 ^ 64 - 8192) = some 2 ∧
    use.frames.addressOf 2 = .ok (2 ^ 64 - 8192) ∧
    use.frames.frameAt? (2 ^ 64 - 4096) = none ∧ use.frames.addressOf 2 ≠ .ok (2 ^ 64 - 4096) := by
  obtain ⟨frames, use, hframes, huse, hlive, hfound, hmissed⟩ : ∃ frames use,
      FrameAllocator.withBase (2 ^ 64 - 16384) 3 = .ok (.ok frames) ∧
      run ⟨frames, []⟩ [.allocatePages 2, .allocate 0, .free 0] = .ok use ∧
      use.live = [⟨2, 0⟩] ∧ use.frames.frameAt? (2 ^ 64 - 8192) = some 2 ∧
      use.frames.frameAt? (2 ^ 64 - 4096) = none :=
    ⟨_, _, FrameAllocator.withBase_eq_ok_iff.mpr ⟨⟨by decide, by decide⟩,
      FrameAllocator.ofFrames_eq rfl⟩, rfl, rfl, rfl, rfl⟩
  obtain ⟨-, hrefused, -⟩ := addresses_tell_frames (2 ^ 64 - 16384) 4
  obtain ⟨-, -, htell⟩ := addresses_tell_frames (2 ^ 64 - 16384) 3
  have haddressed := htell frames _ use hframes huse
  exact ⟨frames, use, hframes, hrefused (by decide), huse, hlive, haddressed, hfound,
    (haddressed.found _ _ hfound).2, hmissed, haddressed.missed _ hmissed 2 (by decide)⟩

end FramesInUse

end KernelMemory
