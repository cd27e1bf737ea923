import KernelMemory.Proofs.Frames.Answers
import Mathlib.Order.Bounds.Defs

/-!
# Requests for a number of frames

A request for a number of frames is one for a block of the least order that has so many
(`Word.isLeast_ceilLog2`), which is less than twice as large (`Word.two_pow_ceilLog2_lt`). No block
has more frames than the largest order, so all larger numbers are refused, but for those that no
power of two among the words reaches: these fault, as they are rounded up before they are found to
be too large (`FramesInUse.pages_served`).
-/

set_option autoImplicit false
set_option relaxedAutoImplicit false

namespace KernelMemory

namespace Word

/-- The exponent is that of the least power of two that is large enough. -/
theorem isLeast_ceilLog2 (number : Nat) :
    IsLeast {exponent | number ≤ 2 ^ exponent} (ceilLog2 number) :=
  ⟨ceilLog2_le_iff.mp (Nat.le_refl _), fun _ ↦ ceilLog2_le_iff.mpr⟩

/-- Half of that power of two is too small. -/
theorem two_pow_ceilLog2_lt {number : Nat} (hpos : 0 < number) :
    2 ^ ceilLog2 number < 2 * number := by
  cases hexponent : ceilLog2 number with
  | zero => omega
  | succ exponent =>
    have hhalf : ¬ number ≤ 2 ^ exponent := fun hle ↦ by
      have hleast := ceilLog2_le_iff.mpr hle
      omega
    rw [pow_succ]
    omega

end Word

variable {frames : FrameAllocator} {pages : Nat}

namespace FrameAllocator

/-- No block has so many frames. -/
theorem allocatePages_of_many (hmany : 2 ^ topOrder < pages) (hpages : pages ≤ 2 ^ 63) :
    frames.allocatePages pages = .ok (.error .orderTooLarge) := by
  have horder : ¬ Word.ceilLog2 pages ≤ topOrder := fun hle ↦
    (Word.ceilLog2_le_iff.mp hle).not_gt hmany
  rw [allocatePages_eq_allocate (Nat.zero_lt_of_lt hmany) hpages]
  exact allocate_of_le (Nat.lt_of_not_le horder)

end FrameAllocator

namespace FramePool

theorem allocatePages_run_eq_allocate (hpos : 0 < pages) (hpages : pages ≤ 2 ^ 63) :
    allocatePages pages frames = allocate (Word.ceilLog2 pages) frames := by
  unfold allocatePages
  dsimp only
  rw [if_neg hpos.ne', Word.exponentFor_eq hpages, Act.lift_ok_bind_run]

/-- What the pool refuses changes nothing and is not noted. -/
theorem allocatePages_run_of_refused {error : AllocError}
    (hrefused : frames.allocatePages pages = .ok (.error error)) :
    allocatePages pages frames = ⟨.ok (.error error), frames, []⟩ := by
  rcases Nat.eq_zero_or_pos pages with rfl | hpos
  · obtain rfl : AllocError.zeroSize = error := Except.error.inj (Except.ok.inj hrefused)
    rfl
  rcases Nat.lt_or_ge (2 ^ 63) pages with hlast | hpages
  · rw [FrameAllocator.allocatePages_of_gt hlast] at hrefused
    cases hrefused
  · rw [FrameAllocator.allocatePages_eq_allocate hpos hpages] at hrefused
    rw [allocatePages_run_eq_allocate hpos hpages]
    exact allocate_run_of_refused hrefused

end FramePool

namespace FramesInUse

variable {base count : Nat} {use : FramesInUse} {calls : List FrameCall} {lists : Nat → List Nat}

/-- A request faults just if there is no word to round its number up to. -/
theorem Held.allocatePages_eq_error_iff (huse : use.Held lists) {fault : Fault} :
    use.frames.allocatePages pages = .error fault ↔ fault = .addOverflow ∧ 2 ^ 63 < pages := by
  rcases Nat.lt_or_ge (2 ^ 63) pages with hlast | hpages
  · rw [FrameAllocator.allocatePages_of_gt hlast]
    exact ⟨fun heq ↦ ⟨(Except.error.inj heq).symm, hlast⟩, fun ⟨hfault, _⟩ ↦ hfault ▸ rfl⟩
  refine iff_of_false (fun heq ↦ ?_) fun hboth ↦ hpages.not_gt hboth.2
  rcases Nat.eq_zero_or_pos pages with rfl | hpos
  · cases heq
  rw [FrameAllocator.allocatePages_eq_allocate hpos hpages] at heq
  obtain ⟨-, hanswer⟩ | ⟨-, -, hanswer⟩ | ⟨frame, after, more, hanswer, -⟩ :=
    huse.partitioned.allocate (Word.ceilLog2 pages)
  all_goals
    rw [hanswer] at heq
    cases heq

/-- After any run, a request for a number of frames is one for a block of the least order that has
so many, which is less than twice as large. None, and more than the largest block has, is refused,
and nothing changes. A request faults just if its number is beyond the last power of two among the
words. -/
theorem pages_served (hframes : FrameAllocator.ofFrames base count = .ok frames)
    (huse : run ⟨frames, []⟩ calls = .ok use) (pages : Nat) :
    ∃ order, IsLeast {order | pages ≤ 2 ^ order} order ∧
    (pages = 0 → use.frames.allocatePages pages = .ok (.error .zeroSize)) ∧
    (0 < pages → pages ≤ 2 ^ topOrder → order ≤ topOrder ∧
      use.frames.allocatePages pages = use.frames.allocate order ∧
      use.step (.allocatePages pages) = use.step (.allocate order) ∧
      FramePool.allocatePages pages use.frames = FramePool.allocate order use.frames) ∧
    (2 ^ topOrder < pages → pages ≤ 2 ^ 63 →
      use.frames.allocatePages pages = .ok (.error .orderTooLarge)) ∧
    (∀ fault, use.frames.allocatePages pages = .error fault ↔
      fault = .addOverflow ∧ 2 ^ 63 < pages) ∧
    (∀ start after, use.frames.allocatePages pages = .ok (.ok (start, after)) →
      use.step (.allocatePages pages) = .ok ⟨after, ⟨start, order⟩ :: use.live⟩ ∧
      pages ≤ FrameBlock.size ⟨start, order⟩ ∧ FrameBlock.size ⟨start, order⟩ < 2 * pages) ∧
    ∀ error, use.frames.allocatePages pages = .ok (.error error) →
      use.step (.allocatePages pages) = .ok use ∧
      FramePool.allocatePages pages use.frames = ⟨.ok (.error error), use.frames, []⟩ := by
  obtain ⟨newLists, hnew, -⟩ := held_ofFrames hframes
  obtain ⟨lists, hheld, -⟩ := hnew.run_of_ok huse
  have hleast := Word.isLeast_ceilLog2 pages
  refine ⟨_, hleast, ?_, fun hpos hfew ↦ ?_, FrameAllocator.allocatePages_of_many,
    fun fault ↦ hheld.allocatePages_eq_error_iff, fun start after hgranted ↦ ?_,
    fun error hrefused ↦ ⟨?_, FramePool.allocatePages_run_of_refused hrefused⟩⟩
  · rintro rfl
    rfl
  · have hpages : pages ≤ 2 ^ 63 := hfew.trans (by decide)
    have heq := @FrameAllocator.allocatePages_eq_allocate use.frames pages hpos hpages
    exact ⟨hleast.2 hfew, heq, congrArg (use.grant _) heq,
      FramePool.allocatePages_run_eq_allocate hpos hpages⟩
  · have hpos : 0 < pages := by
      refine Nat.pos_of_ne_zero ?_
      rintro rfl
      cases hgranted
    refine ⟨?_, hleast.1, Word.two_pow_ceilLog2_lt hpos⟩
    rw [FramesInUse.step, hgranted]
    rfl
  · rw [FramesInUse.step, hrefused]
    rfl

/-- Three of seven frames are had as a block of four, after one frame was taken, and eight are not
to be had. -/
theorem pages_served_of_seven : ∃ frames use after,
    FrameAllocator.ofFrames 4096 7 = .ok frames ∧ run ⟨frames, []⟩ [.allocate 0] = .ok use ∧
    use.frames.allocatePages 3 = use.frames.allocate 2 ∧
    use.frames.allocatePages 3 = .ok (.ok (0, after)) ∧
    use.step (.allocatePages 3) = .ok ⟨after, [⟨0, 2⟩, ⟨6, 0⟩]⟩ ∧
    use.frames.allocatePages 1025 = .ok (.error .orderTooLarge) := by
  obtain ⟨frames, use, after, hframes, huse, hlive, hgranted⟩ : ∃ frames use after,
      FrameAllocator.ofFrames 4096 7 = .ok frames ∧ run ⟨frames, []⟩ [.allocate 0] = .ok use ∧
      use.live = [⟨6, 0⟩] ∧ use.frames.allocatePages 3 = .ok (.ok (0, after)) :=
    ⟨_, _, _, FrameAllocator.ofFrames_eq rfl, rfl, rfl, rfl⟩
  obtain ⟨order, hleast, -, hserved, -, -, hstep, -⟩ := pages_served hframes huse 3
  obtain ⟨_, -, -, -, hmany, -⟩ := pages_served hframes huse 1025
  obtain rfl : order = 2 := by
    have hle : order ≤ 2 := hleast.2 (by decide : 3 ≤ 2 ^ 2)
    have hroom : 3 ≤ 2 ^ order := hleast.1
    interval_cases order <;> omega
  rw [hlive] at hstep
  exact ⟨frames, use, after, hframes, huse, (hserved (by decide) (by decide)).2.1, hgranted,
    (hstep 0 after hgranted).1, hmany (by decide) (by decide)⟩

/-- The first number beyond the last power of two among the words is not refused. -/
theorem addOverflow_of_pages : ∃ frames use, FrameAllocator.ofFrames 4096 7 = .ok frames ∧
    run ⟨frames, []⟩ [.allocate 0] = .ok use ∧ 1024 < 2 ^ 63 + 1 ∧ 2 ^ 63 + 1 < Word.limit ∧
    use.frames.allocatePages (2 ^ 63 + 1) ≠ .ok (.error .orderTooLarge) ∧
    use.frames.allocatePages (2 ^ 63 + 1) = .error .addOverflow := by
  obtain ⟨frames, use, hframes, huse⟩ : ∃ frames use,
      FrameAllocator.ofFrames 4096 7 = .ok frames ∧ run ⟨frames, []⟩ [.allocate 0] = .ok use :=
    ⟨_, _, FrameAllocator.ofFrames_eq rfl, rfl⟩
  have hfault : use.frames.allocatePages (2 ^ 63 + 1) = .error .addOverflow :=
    FrameAllocator.allocatePages_of_gt (Nat.lt_succ_self _)
  refine ⟨frames, use, hframes, huse, by decide, by decide, ?_, hfault⟩
  rw [hfault]
  rintro ⟨⟩

end FramesInUse

end KernelMemory
