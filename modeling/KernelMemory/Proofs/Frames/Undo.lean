import KernelMemory.Proofs.Frames.Answers

/-!
# Freeing undoes an allocation

A block that is freed at once merges again with the upper halves of its splits, level by level, and
not any further: its buddy at the order it was found at is not free, since the free blocks are
merged (`takeBack_handOut`). So all free lists are as before, block by block
(`FramesInUse.free_undoes_allocation`).

Records of frames inside a block may differ from before. No answer depends on them: two pools with
the same lists and the same live blocks (`FrameAllocator.Alike`) answer all calls the same way
(`Alike.replies_eq`).
-/

set_option autoImplicit false
set_option relaxedAutoImplicit false

namespace KernelMemory

namespace FrameAllocator

/-! ### Merging undoes splitting -/

variable {lists : Nat → List Nat}

/-- A block merges with the upper halves that were split off it. -/
theorem grow_putHalves {start order splits : Nat} (hle : order + splits ≤ topOrder)
    (hdvd : 2 ^ (order + splits) ∣ start) :
    grow (putHalves lists start order splits) start (topOrder - order) =
      grow lists start (topOrder - (order + splits)) := by
  induction splits generalizing lists with
  | zero => rfl
  | succ splits ih =>
    have hbuddy : buddyOf start (order + splits) = start + 2 ^ (order + splits) :=
      buddyOf_of_dvd hdvd
    have hsteps : topOrder - (order + splits) = topOrder - (order + splits + 1) + 1 := by omega
    have horder : topOrder - (topOrder - (order + splits + 1) + 1) = order + splits := by omega
    rw [putHalves, ih (by omega) ((pow_dvd_pow 2 (Nat.le_succ _)).trans hdvd), hsteps, grow_of_mem]
    · rw [horder, hbuddy, dropFree_putFree, min_eq_left (Nat.le_add_right ..)]
      rfl
    · rw [horder, hbuddy, putFree, Function.update_self]
      exact List.mem_cons_self

/-- A block without a free buddy does not merge. -/
theorem grow_of_buddy {start order : Nat} (horder : order ≤ topOrder)
    (hbuddy : order < topOrder → ⟨buddyOf start order, order⟩ ∉ listed lists) :
    grow lists start (topOrder - order) = (⟨start, order⟩, lists) := by
  rcases horder.eq_or_lt with rfl | hlt
  · rw [Nat.sub_self]
    rfl
  · have hsteps : topOrder - order = topOrder - (order + 1) + 1 := by omega
    have hself : topOrder - (topOrder - (order + 1) + 1) = order := by omega
    rw [hsteps, grow_of_notMem, hself]
    rw [hself]
    exact fun hmem ↦ hbuddy hlt ⟨Nat.lt_succ_of_lt hlt, hmem⟩

/-- A block that comes back at once grows to the block it was cut out of. -/
theorem grow_handOut {start order found : Nat} (hmerged : Merged lists) (hle : order ≤ found)
    (hfree : ⟨start, found⟩ ∈ listed lists) (hdvd : 2 ^ found ∣ start) :
    grow (handOut lists start order found) start (topOrder - order) =
      (⟨start, found⟩, dropFree lists ⟨start, found⟩) := by
  have hfound : found ≤ topOrder := Nat.le_of_lt_succ hfree.1
  have hsum : order + (found - order) = found := Nat.add_sub_cancel' hle
  rw [handOut, grow_putHalves (hsum.symm ▸ hfound) (hsum.symm ▸ hdvd), hsum]
  refine grow_of_buddy hfound fun hlt hbuddy ↦ hmerged _ hfree hlt ⟨hfree.1, ?_⟩
  have hmem := hbuddy.2
  rw [dropFree, Function.update_self] at hmem
  exact List.mem_of_mem_erase hmem

/-- So the lists are as before. -/
theorem takeBack_handOut {start order found : Nat} {rest : List Nat} (hmerged : Merged lists)
    (hle : order ≤ found) (hfound : found < orderCount) (hlist : lists found = nodeOf start :: rest)
    (hdvd : 2 ^ found ∣ start) :
    takeBack (handOut lists start order found) start order = lists := by
  have hfree : (⟨start, found⟩ : FrameBlock) ∈ listed lists := ⟨hfound, hlist ▸ List.mem_cons_self⟩
  rw [takeBack, grow_handOut hmerged hle hfree hdvd]
  exact putFree_dropFree hlist

/-! ### What answers depend on -/

/-- Two pools have the same addresses, the same lists and the same live blocks. -/
structure Alike (first second : FrameAllocator) : Prop where
  base_eq : first.base = second.base
  count_eq : first.frameCount = second.frameCount
  partitioned : ∃ lists live, first.Partitioned lists live ∧ second.Partitioned lists live

end FrameAllocator

namespace FrameAllocator.Alike

variable {first second : FrameAllocator} (halike : first.Alike second)

include halike

theorem stats_eq : first.stats = second.stats := by
  obtain ⟨hbase, hcount, lists, live, hfirst, hsecond⟩ := halike
  have hcounts := hfirst.indexed.freeCounts_eq hsecond.indexed rfl
  simp only [stats, allocatedBytes, totalBytes, freeBytes, hcounts, hcount]

/-- Both pools refuse a request for an order, or hand out the same block. -/
theorem allocate (order : Nat) :
    (∃ error, first.allocate order = .ok (.error error) ∧
        second.allocate order = .ok (.error error)) ∨
      ∃ frame after other, first.allocate order = .ok (.ok (frame, after)) ∧
        second.allocate order = .ok (.ok (frame, other)) ∧ after.Alike other := by
  obtain ⟨hbase, hcount, lists, live, hfirst, hsecond⟩ := halike
  rcases Nat.lt_or_ge order orderCount with horder | horder
  swap
  · exact Or.inl ⟨_, allocate_of_le horder, allocate_of_le horder⟩
  rcases hfirst.indexed.empty_or_exists order with ⟨-, hempty⟩ |
    ⟨found, frame, rest, hle, hfound, hlist, hleast⟩
  · exact Or.inl
      ⟨_, hfirst.allocate_of_empty horder hempty, hsecond.allocate_of_empty horder hempty⟩
  · obtain ⟨after, hafter, hbaseAfter, hcountAfter, hafterHeld⟩ :=
      hfirst.allocate_of_mem hle hfound hlist hleast
    obtain ⟨other, hother, hbaseOther, hcountOther, hotherHeld⟩ :=
      hsecond.allocate_of_mem hle hfound hlist hleast
    exact Or.inr ⟨frame, after, other, hafter, hother,
      hbaseAfter.trans (hbase.trans hbaseOther.symm),
      hcountAfter.trans (hcount.trans hcountOther.symm), _, _, hafterHeld, hotherHeld⟩

/-- Both pools refuse a frame, or take back the same block and merge it in the same way. -/
theorem free (frame : Nat) :
    (∃ error, first.free frame = .ok (.error error) ∧ second.free frame = .ok (.error error)) ∨
      ∃ block after other, first.free frame = .ok (.ok (block, after)) ∧
        second.free frame = .ok (.ok (block, other)) ∧ after.Alike other := by
  obtain ⟨hbase, hcount, lists, live, hfirst, hsecond⟩ := halike
  by_cases hlive : ∃ order, ⟨frame, order⟩ ∈ live
  · obtain ⟨order, hmem⟩ := hlive
    obtain ⟨after, hafter, hbaseAfter, hcountAfter, hafterHeld⟩ := hfirst.free_of_mem hmem
    obtain ⟨other, hother, hbaseOther, hcountOther, hotherHeld⟩ := hsecond.free_of_mem hmem
    exact Or.inr ⟨_, after, other, hafter, hother, hbaseAfter.trans (hbase.trans hbaseOther.symm),
      hcountAfter.trans (hcount.trans hcountOther.symm), _, _, hafterHeld, hotherHeld⟩
  · have hnone := not_exists.mp hlive
    exact Or.inl ⟨_, hfirst.free_of_notMem hnone, hsecond.free_of_notMem hnone⟩

end FrameAllocator.Alike

/-- Two outcomes show the same, and leave pools that are alike. -/
structure Outcome.Alike {α : Type} (first second : Outcome FrameAllocator α) : Prop where
  answer_eq : first.answer = second.answer
  events_eq : first.events = second.events
  state : first.state.Alike second.state

/-- The act does not tell pools that are alike from each other. -/
def Act.Blind {α : Type} (act : Act FrameAllocator α) : Prop :=
  ∀ first second : FrameAllocator, first.Alike second → (act first).Alike (act second)

theorem Act.blind_of_checked {α : Type} (checked : Checked α) :
    (liftM checked : Act FrameAllocator α).Blind := fun _ _ halike ↦ ⟨rfl, rfl, halike⟩

theorem Act.Blind.bind {α β : Type} {act : Act FrameAllocator α} {next : α → Act FrameAllocator β}
    (hact : act.Blind) (hnext : ∀ value, (next value).Blind) : (act >>= next).Blind := by
  intro first second halike
  obtain ⟨hanswer, hevents, hstate⟩ := hact first second halike
  rcases hfirst : act first with ⟨answer, after, events⟩
  rcases hsecond : act second with ⟨otherAnswer, other, otherEvents⟩
  rw [hfirst, hsecond] at hanswer hevents hstate
  obtain rfl : answer = otherAnswer := hanswer
  obtain rfl : events = otherEvents := hevents
  rcases answer with fault | error | value
  · rw [bind_run_of_fault hfirst, bind_run_of_fault hsecond]
    exact ⟨rfl, rfl, hstate⟩
  · rw [bind_run_of_refused hfirst, bind_run_of_refused hsecond]
    exact ⟨rfl, rfl, hstate⟩
  · obtain ⟨hanswerNext, heventsNext, hstateNext⟩ := hnext value after other hstate
    rw [bind_run_of_value hfirst, bind_run_of_value hsecond]
    exact ⟨hanswerNext, congrArg (events ++ ·) heventsNext, hstateNext⟩

namespace FramePool

theorem blind_allocate (order : Nat) : (allocate order).Blind := by
  intro first second halike
  rcases halike.allocate order with ⟨error, hfirst, hsecond⟩ |
    ⟨frame, after, other, hfirst, hsecond, hafter⟩
  · rw [allocate_run_of_refused hfirst, allocate_run_of_refused hsecond]
    exact ⟨rfl, rfl, halike⟩
  · rw [allocate_run_of_ok hfirst, allocate_run_of_ok hsecond]
    exact ⟨rfl, rfl, hafter⟩

theorem blind_allocatePages (count : Nat) : (allocatePages count).Blind := by
  unfold allocatePages
  split
  · exact fun _ _ halike ↦ ⟨rfl, rfl, halike⟩
  · exact (Act.blind_of_checked _).bind blind_allocate

theorem blind_free (frame : Nat) : (free frame).Blind := by
  intro first second halike
  rcases halike.free frame with ⟨error, hfirst, hsecond⟩ |
    ⟨block, after, other, hfirst, hsecond, hafter⟩
  · rw [free_run_of_refused hfirst, free_run_of_refused hsecond]
    exact ⟨rfl, rfl, halike⟩
  · rw [free_run_of_ok hfirst, free_run_of_ok hsecond]
    exact ⟨rfl, rfl, hafter⟩

end FramePool

/-- A call of a pool, with the frame that it gives if it asks for one. -/
def FrameCall.act : FrameCall → Act FrameAllocator (Option Nat)
  | .allocate order => do return some (← FramePool.allocate order)
  | .allocatePages count => do return some (← FramePool.allocatePages count)
  | .free frame => do
    FramePool.free frame
    return none

theorem FrameCall.blind_act (call : FrameCall) : call.act.Blind := by
  have hpure : ∀ value : Option Nat, (pure value : Act FrameAllocator (Option Nat)).Blind :=
    fun _ _ _ halike ↦ ⟨rfl, rfl, halike⟩
  cases call with
  | allocate order => exact (FramePool.blind_allocate order).bind fun _ ↦ hpure _
  | allocatePages count => exact (FramePool.blind_allocatePages count).bind fun _ ↦ hpure _
  | free frame => exact (FramePool.blind_free frame).bind fun _ ↦ hpure _

/-- What is seen of a call. -/
structure FrameReply where
  answer : Except Fault (Except AllocError (Option Nat))
  events : List Event
  stats : Stats

/-- What is seen of calls of a pool one after another. -/
def FrameAllocator.replies (frames : FrameAllocator) : List FrameCall → List FrameReply
  | [] => []
  | call :: calls =>
    let outcome := call.act frames
    ⟨outcome.answer, outcome.events, outcome.state.stats⟩ :: outcome.state.replies calls

/-- Pools that are alike answer all calls the same way. -/
theorem FrameAllocator.Alike.replies_eq {first second : FrameAllocator}
    (halike : first.Alike second) (calls : List FrameCall) :
    first.replies calls = second.replies calls := by
  induction calls generalizing first second with
  | nil => rfl
  | cons call calls ih =>
    obtain ⟨hanswer, hevents, hstate⟩ := call.blind_act first second halike
    simp only [replies, hanswer, hevents, hstate.stats_eq, ih hstate]

namespace FramesInUse

variable {base count : Nat} {frames : FrameAllocator} {use : FramesInUse} {calls : List FrameCall}
  {lists : Nat → List Nat}

/-- The pool after a block was handed out and freed at once, and the block that is free again. -/
theorem Held.exists_free_of_allocate (huse : use.Held lists) {order start : Nat}
    {after : FrameAllocator} (hallocate : use.frames.allocate order = .ok (.ok (start, after))) :
    ∃ found restored, after.free start = .ok (.ok (⟨start, found⟩, restored)) ∧
      use.run [.allocate order, .free start] = .ok ⟨restored, use.live⟩ ∧
      restored.base = use.frames.base ∧ restored.frameCount = use.frames.frameCount ∧
      (⟨restored, use.live⟩ : FramesInUse).Held lists := by
  obtain ⟨found, rest, hle, hfound, hlist, hleast, hbase, hcount, hafter⟩ :=
    huse.partitioned.of_allocate hallocate
  have hfree : (⟨start, found⟩ : FrameBlock) ∈ FrameAllocator.listed lists :=
    ⟨hfound, hlist ▸ List.mem_cons_self⟩
  have hdvd : 2 ^ found ∣ start := huse.partitioned.paving.size_dvd _ (Or.inl hfree)
  have hmerged := huse.partitioned.merged
  have hfresh := huse.partitioned.notMem_of_mem_listed hfree
  have hmiddle := huse.grant_of_ok hfresh hafter
  obtain ⟨restored, hrestored, hbaseAgain, hcountAgain, hpartitioned⟩ :=
    hafter.free_of_mem (Set.mem_insert _ _)
  rw [FrameAllocator.takeBack_handOut hmerged hle hfound hlist hdvd,
    Set.insert_sdiff_self_of_notMem (hfresh order)] at hpartitioned
  rw [FrameAllocator.grow_handOut hmerged hle hfree hdvd] at hrestored
  refine ⟨found, restored, hrestored, ?_, hbaseAgain.trans hbase, hcountAgain.trans hcount,
    hpartitioned, huse.nodup⟩
  have hrest := hmiddle.filter_eq_erase List.mem_cons_self
  rw [List.erase_cons_head] at hrest
  obtain ⟨hstep, -⟩ := huse.of_allocate hallocate
  have hback : FramesInUse.step ⟨after, ⟨start, order⟩ :: use.live⟩ (.free start) =
      .ok ⟨restored, use.live⟩ := by
    rw [FramesInUse.step, hrestored]
    exact congrArg (fun live ↦ (.ok ⟨restored, live⟩ : Except Fault FramesInUse)) hrest
  rw [FramesInUse.run, List.foldlM_cons, hstep, ok_bind, List.foldlM_cons, hback]
  rfl

/-- After any run, a block that is handed out and freed at once leaves no trace: all free lists have
the same blocks in the same order, the counts and the live blocks are the same, and all later calls
are answered the same way. -/
theorem free_undoes_allocation (hframes : FrameAllocator.ofFrames base count = .ok frames)
    (huse : run ⟨frames, []⟩ calls = .ok use) {order start : Nat} {after : FrameAllocator}
    (hallocate : use.frames.allocate order = .ok (.ok (start, after))) :
    ∃ block restored, after.free start = .ok (.ok (block, restored)) ∧
      use.run [.allocate order, .free start] = .ok ⟨restored, use.live⟩ ∧
      restored.base = use.frames.base ∧ restored.frameCount = use.frames.frameCount ∧
      (∀ number < orderCount, ∃ blocks, use.frames.freeBlocks number = .ok blocks ∧
        restored.freeBlocks number = .ok blocks) ∧
      restored.freeCounts = use.frames.freeCounts ∧
      (∀ frame number : Nat,
        restored.records[frame]? = some { order := number, status := .allocated } ↔
          use.frames.records[frame]? = some { order := number, status := .allocated }) ∧
      ∀ later, restored.replies later = use.frames.replies later := by
  obtain ⟨newLists, hnew, -⟩ := held_ofFrames hframes
  obtain ⟨lists, hheld, -⟩ := hnew.run_of_ok huse
  obtain ⟨found, restored, hrestored, hrun, hbase, hcount, hagain⟩ :=
    hheld.exists_free_of_allocate hallocate
  have hindexed := hheld.partitioned.indexed
  have hindexedAgain := hagain.partitioned.indexed
  refine ⟨_, restored, hrestored, hrun, hbase, hcount, fun number hnumber ↦
    ⟨_, hindexed.freeBlocks_eq hnumber, hindexedAgain.freeBlocks_eq hnumber⟩,
    hindexedAgain.freeCounts_eq hindexed rfl, fun frame number ↦ ?_, fun later ↦ ?_⟩
  · rw [hindexedAgain.allocated_record, hindexed.allocated_record]
  · exact FrameAllocator.Alike.replies_eq
      ⟨hbase, hcount, lists, _, hagain.partitioned, hheld.partitioned⟩ later

/-- Of seven frames the last three are taken, in two blocks. The next frame is split off twice from
the block of four frames, which is whole again when the frame comes back. -/
theorem free_undoes_allocation_of_seven : ∃ frames use after block restored,
    FrameAllocator.ofFrames 4096 7 = .ok frames ∧
    run ⟨frames, []⟩ [.allocate 0, .allocate 1] = .ok use ∧
    use.frames.allocate 0 = .ok (.ok (0, after)) ∧
    after.freeBlocks 0 = .ok [⟨1, 0⟩] ∧ after.freeBlocks 1 = .ok [⟨2, 1⟩] ∧
    after.free 0 = .ok (.ok (block, restored)) ∧
    restored.freeCounts = use.frames.freeCounts ∧
    restored.replies [.free 5, .allocate 2] = use.frames.replies [.free 5, .allocate 2] := by
  obtain ⟨frames, use, after, hframes, huse, hallocate, hzero, hone⟩ : ∃ frames use after,
      FrameAllocator.ofFrames 4096 7 = .ok frames ∧
      run ⟨frames, []⟩ [.allocate 0, .allocate 1] = .ok use ∧
      use.frames.allocate 0 = .ok (.ok (0, after)) ∧
      after.freeBlocks 0 = .ok [⟨1, 0⟩] ∧ after.freeBlocks 1 = .ok [⟨2, 1⟩] :=
    ⟨_, _, _, FrameAllocator.ofFrames_eq rfl, rfl, rfl, rfl, rfl⟩
  obtain ⟨block, restored, hrestored, -, -, -, -, hcounts, -, hreplies⟩ :=
    free_undoes_allocation hframes huse hallocate
  exact ⟨frames, use, after, block, restored, hframes, huse, hallocate, hzero, hone, hrestored,
    hcounts, hreplies _⟩

end FramesInUse

end KernelMemory
