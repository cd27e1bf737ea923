import KernelMemory.Proofs.Frames.Pool

/-!
# What a pool grants and takes back

A request for a block is granted just if some block of its order is vacant: a vacant block lies in a
free block, since otherwise the free blocks inside it would not have been merged
(`Partitioned.exists_vacant_iff`). What is granted is cut out of a free block of the smallest order
that is large enough (`FrameAllocator.Splits`, `FramesInUse.allocation_complete`).

A frame is taken back just if a live block starts there. All other frames lie outside the pool,
inside a free block, or inside a live block but not at its start
(`FramesInUse.frees_just_live_blocks`).
-/

set_option autoImplicit false
set_option relaxedAutoImplicit false

namespace KernelMemory

/-- The lower part of a vacant block is vacant. -/
theorem FrameBlock.Vacant.lower {count start order found : Nat} {live : Set FrameBlock}
    (hvacant : Vacant count live ⟨start, found⟩) (hle : order ≤ found) :
    Vacant count live ⟨start, order⟩ := by
  have hpow : 2 ^ order ≤ 2 ^ found := Nat.pow_le_pow_right (by decide) hle
  have hend : start + 2 ^ found ≤ count := hvacant.end_le
  refine ⟨hle.trans hvacant.order_le, (pow_dvd_pow 2 hle).trans hvacant.size_dvd, ?_,
    fun other hother frame hframe ↦ hvacant.unused other hother frame ?_⟩
  · simp only [size]
    omega
  · simp only [Covers, size] at hframe ⊢
    omega

namespace FrameAllocator

/-- An allocation cut a block out of a free block of the order `found`: this was the first block on
the first list that had one, and the upper halves of its splits are free now. All other lists are as
they were. -/
structure Splits (before after : FrameAllocator) (start order found : Nat) : Prop where
  order_le : order ≤ found
  found_lt : found < orderCount
  least : ∀ number, order ≤ number → number < found → before.freeBlocks number = .ok []
  taken : ∃ rest, before.freeBlocks found = .ok (⟨start, found⟩ :: rest) ∧
    after.freeBlocks found = .ok rest
  upper : ∀ number, order ≤ number → number < found →
    after.freeBlocks number = .ok [⟨start + 2 ^ number, number⟩]
  kept : ∀ number < orderCount, number < order ∨ found < number →
    after.freeBlocks number = before.freeBlocks number

variable {frames : FrameAllocator} {lists : Nat → List Nat} {live : Set FrameBlock}

theorem putHalves_apply (lists : Nat → List Nat) (start order splits number : Nat) :
    putHalves lists start order splits number =
      if order ≤ number ∧ number < order + splits then
        nodeOf (start + 2 ^ number) :: lists number
      else lists number := by
  induction splits generalizing lists with
  | zero => rw [putHalves, if_neg (by omega)]
  | succ splits ih =>
    rw [putHalves, ih, putFree]
    rcases lt_trichotomy number (order + splits) with hlt | rfl | hgt
    · rw [Function.update_of_ne hlt.ne]
      simp only [hlt, and_true, show number < order + (splits + 1) by omega]
    · rw [Function.update_self, if_neg (by omega), if_pos (by omega)]
    · rw [Function.update_of_ne hgt.ne', if_neg (by omega), if_neg (by omega)]

namespace Partitioned

variable (hframes : frames.Partitioned lists live)

include hframes

/-- A block of an order is vacant just if a list of this or a larger order has a block. -/
theorem exists_vacant_iff {order : Nat} :
    (∃ start, FrameBlock.Vacant frames.frameCount live ⟨start, order⟩) ↔
      ∃ number, order ≤ number ∧ number < orderCount ∧ lists number ≠ [] := by
  constructor
  · rintro ⟨start, hvacant⟩
    obtain ⟨other, hother, hcovers⟩ :=
      hframes.exists_listed hvacant (FrameBlock.covers_start ⟨start, order⟩)
    refine ⟨other.order, ?_, hother.1, List.ne_nil_of_mem hother.2⟩
    -- a smaller free block would lie in the vacant one
    by_contra hsmaller
    have hwithin := FrameBlock.within_of_covers (hframes.paving.size_dvd other (Or.inl hother))
      hvacant.size_dvd (Nat.le_of_not_le hsmaller) hcovers (FrameBlock.covers_start ⟨start, order⟩)
    exact hsmaller (hframes.order_le_of_within hother hvacant hwithin)
  · rintro ⟨number, hle, hnumber, hne⟩
    obtain ⟨node, hnode⟩ := List.exists_mem_of_ne_nil _ hne
    obtain ⟨frame, -, rfl⟩ := hframes.indexed.exists_of_mem hnumber hnode
    have hfree : (⟨frame, number⟩ : FrameBlock) ∈ listed lists := ⟨hnumber, hnode⟩
    exact ⟨frame, (hframes.vacant hfree).lower hle⟩

/-- A pool without a vacant block of an order refuses a request for one. -/
theorem allocate_of_not_vacant {order : Nat} (horder : order < orderCount)
    (hnone : ¬ ∃ start, FrameBlock.Vacant frames.frameCount live ⟨start, order⟩) :
    frames.allocate order = .ok (.error .noMemoryAvailable) := by
  rw [hframes.exists_vacant_iff] at hnone
  push Not at hnone
  exact hframes.allocate_of_empty horder hnone

/-- What is handed out was cut out of a free block of the least order that is large enough. -/
theorem of_allocate {order start : Nat} {after : FrameAllocator}
    (hallocate : frames.allocate order = .ok (.ok (start, after))) :
    ∃ found rest, order ≤ found ∧ found < orderCount ∧ lists found = nodeOf start :: rest ∧
      (∀ number, order ≤ number → number < found → lists number = []) ∧
      after.base = frames.base ∧ after.frameCount = frames.frameCount ∧
      after.Partitioned (handOut lists start order found) (insert ⟨start, order⟩ live) := by
  rcases Nat.lt_or_ge order orderCount with horder | horder
  swap
  · rw [allocate_of_le horder] at hallocate
    cases hallocate
  rcases hframes.indexed.empty_or_exists order with ⟨-, hempty⟩ |
    ⟨found, frame, rest, hle, hfound, hlist, hleast⟩
  · rw [hframes.allocate_of_empty horder hempty] at hallocate
    cases hallocate
  · obtain ⟨other, hother, hbase, hcount, hpartitioned⟩ :=
      hframes.allocate_of_mem hle hfound hlist hleast
    rw [hother, Except.ok.injEq, Except.ok.injEq, Prod.mk.injEq] at hallocate
    obtain ⟨rfl, rfl⟩ := hallocate
    exact ⟨found, rest, hle, hfound, hlist, hleast, hbase, hcount, hpartitioned⟩

/-- The free blocks after an allocation. -/
theorem splits {order found start : Nat} {rest : List Nat} {after : FrameAllocator}
    {taken : Set FrameBlock} (hle : order ≤ found) (hfound : found < orderCount)
    (hlist : lists found = nodeOf start :: rest)
    (hleast : ∀ number, order ≤ number → number < found → lists number = [])
    (hafter : after.Partitioned (handOut lists start order found) taken) :
    frames.Splits after start order found := by
  have hend : order + (found - order) = found := Nat.add_sub_cancel' hle
  have hbefore : ∀ number < orderCount, frames.freeBlocks number =
      .ok ((lists number).map (blockAt number)) := fun _ ↦
    hframes.indexed.freeBlocks_eq
  have hblocks : ∀ number < orderCount, after.freeBlocks number =
      .ok ((handOut lists start order found number).map (blockAt number)) :=
    fun _ ↦ hafter.indexed.freeBlocks_eq
  refine ⟨hle, hfound, fun number hnumber hlt ↦ ?_,
    ⟨rest.map (blockAt found), ?_, ?_⟩, fun number hnumber hlt ↦ ?_,
    fun number hnumber hother ↦ ?_⟩
  · rw [hbefore number (hlt.trans hfound), hleast number hnumber hlt, List.map_nil]
  · rw [hbefore found hfound, hlist, List.map_cons, blockAt_nodeOf]
  · rw [hblocks found hfound, handOut, putHalves_apply, hend, if_neg (by omega), dropFree,
      Function.update_self, hlist, List.erase_cons_head]
  · rw [hblocks number (hlt.trans hfound), handOut, putHalves_apply, hend,
      if_pos ⟨hnumber, hlt⟩, dropFree, Function.update_of_ne hlt.ne, hleast number hnumber hlt,
      List.map_singleton, blockAt_nodeOf]
  · rw [hblocks number hnumber, hbefore number hnumber, handOut, putHalves_apply, hend,
      if_neg (by omega), dropFree, Function.update_of_ne (by simp only; omega)]

/-- No live block starts at a frame just if the frame lies outside the pool, inside a free block, or
inside a live block that starts elsewhere. -/
theorem not_live_iff {frame : Nat} : (∀ order, ⟨frame, order⟩ ∉ live) ↔
    frames.frameCount ≤ frame ∨ (∃ block ∈ listed lists, block.Covers frame) ∨
      ∃ block ∈ live, block.Covers frame ∧ block.start ≠ frame := by
  constructor
  · intro hnone
    rcases Nat.lt_or_ge frame frames.frameCount with hlt | hge
    · obtain ⟨block, hfree | hlive, hcovers⟩ := hframes.paving.covered frame hlt
      · exact Or.inr (Or.inl ⟨block, hfree, hcovers⟩)
      · refine Or.inr (Or.inr ⟨block, hlive, hcovers, ?_⟩)
        rintro rfl
        exact hnone block.order hlive
    · exact Or.inl hge
  · rintro hcases order hmem
    have hself : FrameBlock.Covers ⟨frame, order⟩ frame := FrameBlock.covers_start ⟨frame, order⟩
    rcases hcases with hge | ⟨block, hfree, hcovers⟩ | ⟨block, hlive, hcovers, hne⟩
    · have hlt : frame < frames.frameCount := hframes.paving.start_lt (Or.inr hmem)
      omega
    · have hsame := hframes.paving.unique block (Or.inl hfree) _ (Or.inr hmem) frame hcovers hself
      exact hframes.indexed.notMem_allocated hfree (hsame ▸ hmem)
    · have hsame := hframes.paving.unique block (Or.inr hlive) _ (Or.inr hmem) frame hcovers hself
      exact hne (congrArg FrameBlock.start hsame)

end Partitioned

end FrameAllocator

namespace FramesInUse

variable {base count : Nat} {frames : FrameAllocator} {use : FramesInUse} {calls : List FrameCall}
  {lists : Nat → List Nat}

namespace Held

variable (huse : use.Held lists)

include huse

/-- The free bytes and those of the live blocks are all bytes of the pool. -/
theorem freeBytes_add_eq :
    use.frames.freeBytes + (use.live.map fun block ↦ block.size * frameSize).sum =
      use.frames.totalBytes :=
  huse.partitioned.freeBytes_add_eq (fun _ ↦ Iff.rfl) huse.nodup

/-- The live blocks without the one that starts at a frame. -/
theorem filter_eq_erase {frame order : Nat} (hmem : ⟨frame, order⟩ ∈ use.live) :
    (use.live.filter fun block ↦ block.start ≠ frame) = use.live.erase ⟨frame, order⟩ := by
  rw [huse.nodup.erase_eq_filter]
  refine List.filter_congr fun block hblock ↦ ?_
  rw [Bool.eq_iff_iff, decide_eq_true_eq, bne_iff_ne]
  refine not_congr ⟨fun hstart ↦ ?_, fun heq ↦ heq ▸ rfl⟩
  exact huse.partitioned.paving.eq_of_start_eq (Or.inr hblock) (Or.inr hmem) hstart

/-- What a granted request does to the pool and to what its users hold. -/
theorem of_allocate {order start : Nat} {after : FrameAllocator}
    (hallocate : use.frames.allocate order = .ok (.ok (start, after))) :
    use.step (.allocate order) = .ok ⟨after, ⟨start, order⟩ :: use.live⟩ ∧
    FrameBlock.Vacant use.frames.frameCount {block | block ∈ use.live} ⟨start, order⟩ ∧
    (∀ frame number, after.records[frame]? = some { order := number, status := .allocated } ↔
      ⟨frame, number⟩ ∈ (⟨start, order⟩ :: use.live : List FrameBlock)) ∧
    after.freeBytes + 2 ^ order * frameSize = use.frames.freeBytes ∧
    ∃ found, use.frames.Splits after start order found := by
  obtain ⟨found, rest, hle, hfound, hlist, hleast, hbase, hcount, hafter⟩ :=
    huse.partitioned.of_allocate hallocate
  have hfree : (⟨start, found⟩ : FrameBlock) ∈ FrameAllocator.listed lists :=
    ⟨hfound, hlist ▸ List.mem_cons_self⟩
  have hheld := huse.grant_of_ok (huse.partitioned.notMem_of_mem_listed hfree) hafter
  have hbytes := huse.freeBytes_add_eq
  have hbytesAfter := hheld.freeBytes_add_eq
  refine ⟨by rw [FramesInUse.step, hallocate]; rfl, (huse.partitioned.vacant hfree).lower hle,
    hheld.partitioned.indexed.allocated_record, ?_,
    found, huse.partitioned.splits hle hfound hlist hleast hafter⟩
  have htotal : after.totalBytes = use.frames.totalBytes :=
    congrArg (· * frameSize) hcount
  simp only [List.map_cons, List.sum_cons, FrameBlock.size, htotal] at hbytesAfter hbytes
  omega

/-- What happens to the pool, and to what its users hold, when a live block is taken back. -/
theorem free_of_mem {frame order : Nat} (hmem : ⟨frame, order⟩ ∈ use.live) :
    ∃ block after, use.frames.free frame = .ok (.ok (block, after)) ∧
      use.step (.free frame) = .ok ⟨after, use.live.erase ⟨frame, order⟩⟩ ∧
      (∀ other number, after.records[other]? = some { order := number, status := .allocated } ↔
        ⟨other, number⟩ ∈ use.live ∧ (⟨other, number⟩ : FrameBlock) ≠ ⟨frame, order⟩) ∧
      after.freeBytes = use.frames.freeBytes + 2 ^ order * frameSize := by
  obtain ⟨after, hafter, hbase, hcount, hpartitioned⟩ := huse.partitioned.free_of_mem hmem
  have hheld := huse.giveBack_of_ok hmem hpartitioned
  have hbytes := huse.freeBytes_add_eq
  have hbytesAfter := hheld.freeBytes_add_eq
  have hrecords := hheld.partitioned.indexed.allocated_record
  rw [huse.filter_eq_erase hmem] at hbytesAfter
  refine ⟨_, after, hafter, ?_, fun other number ↦ ?_, ?_⟩
  · rw [FramesInUse.step, hafter, ← huse.filter_eq_erase hmem]
    rfl
  · rw [hrecords other number, huse.filter_eq_erase hmem, Set.mem_ofPred_eq,
      huse.nodup.mem_erase_iff, and_comm]
  · have htotal : after.totalBytes = use.frames.totalBytes := congrArg (· * frameSize) hcount
    have hsum := List.sum_map_erase (fun block ↦ FrameBlock.size block * frameSize) hmem
    simp only [FrameBlock.size] at hsum hbytes hbytesAfter
    omega

end Held

/-- After any run, a request for a block is granted just if a block of its order is vacant. Then it
gives one that was, and exactly this block becomes live; it is cut out of a free block of the least
order that is large enough. Any other request is refused, and nothing changes. -/
theorem allocation_complete (hframes : FrameAllocator.ofFrames base count = .ok frames)
    (huse : run ⟨frames, []⟩ calls = .ok use) (order : Nat) :
    (orderCount ≤ order → use.frames.allocate order = .ok (.error .orderTooLarge)) ∧
    (order < orderCount →
      ((∃ start after, use.frames.allocate order = .ok (.ok (start, after))) ↔
        ∃ start, FrameBlock.Vacant count {block | block ∈ use.live} ⟨start, order⟩) ∧
      ((¬ ∃ start, FrameBlock.Vacant count {block | block ∈ use.live} ⟨start, order⟩) →
        use.frames.allocate order = .ok (.error .noMemoryAvailable))) ∧
    (∀ start after, use.frames.allocate order = .ok (.ok (start, after)) →
      use.step (.allocate order) = .ok ⟨after, ⟨start, order⟩ :: use.live⟩ ∧
      FrameBlock.Vacant count {block | block ∈ use.live} ⟨start, order⟩ ∧
      (∀ frame number, after.records[frame]? = some { order := number, status := .allocated } ↔
        ⟨frame, number⟩ ∈ (⟨start, order⟩ :: use.live : List FrameBlock)) ∧
      after.freeBytes + 2 ^ order * frameSize = use.frames.freeBytes ∧
      ∃ found, use.frames.Splits after start order found) ∧
    ∀ error, use.frames.allocate order = .ok (.error error) →
      use.step (.allocate order) = .ok use ∧
      FramePool.allocate order use.frames = ⟨.ok (.error error), use.frames, []⟩ := by
  obtain ⟨lists, hnew, -, hcountNew⟩ := held_ofFrames hframes
  obtain ⟨more, hheld, hcountUse⟩ := hnew.run_of_ok huse
  obtain rfl : use.frames.frameCount = count := hcountUse.trans hcountNew
  refine ⟨FrameAllocator.allocate_of_le, fun horder ↦ ⟨⟨?_, ?_⟩,
    hheld.partitioned.allocate_of_not_vacant horder⟩, fun start after ↦ hheld.of_allocate,
    fun error herror ↦ ⟨?_, FramePool.allocate_run_of_refused herror⟩⟩
  · rintro ⟨start, after, hallocate⟩
    obtain ⟨-, hvacant, -⟩ := hheld.of_allocate hallocate
    exact ⟨start, hvacant⟩
  · intro hvacant
    obtain ⟨number, hle, hnumber, hne⟩ := hheld.partitioned.exists_vacant_iff.mp hvacant
    rcases hheld.partitioned.allocate order with ⟨hlarge, -⟩ | ⟨-, hempty, -⟩ |
      ⟨start, after, -, hallocate, -⟩
    · omega
    · exact absurd (hempty number hle hnumber) hne
    · exact ⟨start, after, hallocate⟩
  · rw [step, herror]
    rfl

/-- Of seven frames the last one is taken. The next frame is cut out of the block of two frames
before it, and no block of eight frames can be had. -/
theorem allocation_complete_of_seven : ∃ frames use after,
    FrameAllocator.ofFrames 4096 7 = .ok frames ∧ run ⟨frames, []⟩ [.allocate 0] = .ok use ∧
    use.frames.allocate 0 = .ok (.ok (4, after)) ∧
    use.step (.allocate 0) = .ok ⟨after, [⟨4, 0⟩, ⟨6, 0⟩]⟩ ∧
    after.freeBytes + 4096 = use.frames.freeBytes ∧
    (∃ found, use.frames.Splits after 4 0 found) ∧
    (∃ start, FrameBlock.Vacant 7 {block | block ∈ use.live} ⟨start, 0⟩) ∧
    use.frames.allocate 3 = .ok (.error .noMemoryAvailable) ∧
    FramePool.allocate 3 use.frames = ⟨.ok (.error .noMemoryAvailable), use.frames, []⟩ := by
  obtain ⟨frames, use, after, hframes, huse, hallocate, hlive⟩ : ∃ frames use after,
      FrameAllocator.ofFrames 4096 7 = .ok frames ∧ run ⟨frames, []⟩ [.allocate 0] = .ok use ∧
      use.frames.allocate 0 = .ok (.ok (4, after)) ∧ use.live = [⟨6, 0⟩] :=
    ⟨_, _, _, FrameAllocator.ofFrames_eq rfl, rfl, rfl, rfl⟩
  obtain ⟨-, hone, hgranted, -⟩ := allocation_complete hframes huse 0
  obtain ⟨-, height, -, hrefused⟩ := allocation_complete hframes huse 3
  obtain ⟨hstep, -, -, hbytes, hsplits⟩ := hgranted 4 after hallocate
  have hnone := (height (by decide)).2 (by
    rintro ⟨start, hvacant⟩
    have hend : start + 8 ≤ 7 := hvacant.end_le
    omega)
  rw [hlive] at hstep
  exact ⟨frames, use, after, hframes, huse, hallocate, hstep, hbytes, hsplits,
    (hone (by decide)).1.mp ⟨4, after, hallocate⟩, hnone, (hrefused _ hnone).2⟩

/-- After any run, a frame is taken back just if a live block starts there: exactly this block, of
the order it was asked for, is live no more. Every other frame, be it outside the pool, inside a
free block, or inside a live block but not at its start, is refused, and nothing changes. -/
theorem frees_just_live_blocks (hframes : FrameAllocator.ofFrames base count = .ok frames)
    (huse : run ⟨frames, []⟩ calls = .ok use) (frame : Nat) :
    ((∃ block after, use.frames.free frame = .ok (.ok (block, after))) ↔
      ∃ order, ⟨frame, order⟩ ∈ use.live) ∧
    (∀ order, ⟨frame, order⟩ ∈ use.live →
      ∃ block after, use.frames.free frame = .ok (.ok (block, after)) ∧
        use.step (.free frame) = .ok ⟨after, use.live.erase ⟨frame, order⟩⟩ ∧
        (∀ other number, after.records[other]? = some { order := number, status := .allocated } ↔
          ⟨other, number⟩ ∈ use.live ∧ (⟨other, number⟩ : FrameBlock) ≠ ⟨frame, order⟩) ∧
        after.freeBytes = use.frames.freeBytes + 2 ^ order * frameSize) ∧
    ((∀ order, ⟨frame, order⟩ ∉ use.live) →
      use.frames.free frame = .ok (.error .invalidFrame) ∧
      use.step (.free frame) = .ok use ∧
      FramePool.free frame use.frames =
        ⟨.ok (.error .invalidFrame), use.frames, [.noted (.invalidFrame frame)]⟩) ∧
    ((∀ order, ⟨frame, order⟩ ∉ use.live) ↔
      count ≤ frame ∨ (∃ block, use.frames.OnFreeList block ∧ block.Covers frame) ∨
        ∃ block ∈ use.live, block.Covers frame ∧ block.start ≠ frame) := by
  obtain ⟨lists, hnew, -, hcountNew⟩ := held_ofFrames hframes
  obtain ⟨more, hheld, hcountUse⟩ := hnew.run_of_ok huse
  obtain rfl : use.frames.frameCount = count := hcountUse.trans hcountNew
  refine ⟨⟨?_, ?_⟩, fun order ↦ hheld.free_of_mem, fun hnone ↦ ?_, ?_⟩
  · rintro ⟨block, after, hfree⟩
    by_contra hnone
    rw [hheld.partitioned.free_of_notMem (not_exists.mp hnone)] at hfree
    cases hfree
  · rintro ⟨order, hmem⟩
    obtain ⟨block, after, hfree, -⟩ := hheld.free_of_mem hmem
    exact ⟨block, after, hfree⟩
  · have hfree := hheld.partitioned.free_of_notMem hnone
    refine ⟨hfree, ?_, FramePool.free_run_of_refused hfree⟩
    rw [step, hfree]
    rfl
  · simp only [hheld.partitioned.indexed.onFreeList_iff]
    exact hheld.partitioned.not_live_iff

/-- Of seven frames the last three are taken, in two blocks. The block of two frames can be taken
back by its first frame and not by its second one. -/
theorem frees_just_live_blocks_of_seven : ∃ frames use after,
    FrameAllocator.ofFrames 4096 7 = .ok frames ∧
    run ⟨frames, []⟩ [.allocate 0, .allocate 1] = .ok use ∧
    use.step (.free 4) = .ok ⟨after, [⟨6, 0⟩]⟩ ∧
    after.freeBytes = use.frames.freeBytes + 2 * 4096 ∧
    use.frames.free 5 = .ok (.error .invalidFrame) ∧ use.step (.free 5) = .ok use := by
  obtain ⟨frames, use, hframes, huse, hlive⟩ : ∃ frames use,
      FrameAllocator.ofFrames 4096 7 = .ok frames ∧
      run ⟨frames, []⟩ [.allocate 0, .allocate 1] = .ok use ∧ use.live = [⟨4, 1⟩, ⟨6, 0⟩] :=
    ⟨_, _, FrameAllocator.ofFrames_eq rfl, rfl, rfl⟩
  obtain ⟨-, hfirst, -⟩ := frees_just_live_blocks hframes huse 4
  obtain ⟨-, -, hsecond, hcases⟩ := frees_just_live_blocks hframes huse 5
  obtain ⟨-, after, -, hstep, -, hbytes⟩ := hfirst 1 (by simp [hlive])
  obtain ⟨hrefused, hkept, -⟩ := hsecond (hcases.mpr (Or.inr (Or.inr
    ⟨⟨4, 1⟩, by simp [hlive], ⟨by decide, by decide⟩, by decide⟩)))
  rw [hlive] at hstep
  exact ⟨frames, use, after, hframes, huse, hstep, hbytes, hrefused, hkept⟩

end FramesInUse

end KernelMemory
