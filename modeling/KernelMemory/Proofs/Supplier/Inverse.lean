import KernelMemory.Proofs.Frames.Undo
import KernelMemory.Proofs.Supplier.Frames
import Mathlib.Order.Bounds.Defs

/-!
# Regions that are supplied and released

A region is supplied as a block of the least order that is large enough (`orderForSize_eq`), and it
is seen at the address of its first frame plus the offset. An address is that of one frame at most
(`FrameAllocator.bind_frameAt?_eq_some_iff`), so a release finds the block again by its first byte
alone. All that is not the first byte of a live block is foreign (`FramesInUse.Foreign`), and is
left alone. A region that is supplied and released at once leaves no trace
(`FrameAllocator.Restored`, `FrameSupplier.release_undoes_supply`).
-/

set_option autoImplicit false
set_option relaxedAutoImplicit false

namespace KernelMemory

/-! ### Orders -/

/-- The order of the least block with so many frames as a size takes is the least one with room. -/
theorem isLeast_ceilLog2_frames (size : Nat) : IsLeast {order | size ≤ 2 ^ order * frameSize}
    (Word.ceilLog2 ((max size 1 + frameSize - 1) / frameSize)) := by
  have hroom : ∀ order, Word.ceilLog2 ((max size 1 + frameSize - 1) / frameSize) ≤ order ↔
      size ≤ 2 ^ order * frameSize := by
    intro order
    have hpos := Nat.two_pow_pos order
    rw [Word.ceilLog2_le_iff]
    simp only [frameSize]
    omega
  exact ⟨(hroom _).mp (Nat.le_refl _), fun order ↦ (hroom order).mpr⟩

/-- The order for a size is the least one whose blocks have room for it. -/
theorem orderForSize_eq {size : Nat} (hsize : size + frameSize < Word.limit) :
    ∃ order, orderForSize size = .ok order ∧
      IsLeast {order | size ≤ 2 ^ order * frameSize} order := by
  simp only [frameSize, Word.limit] at hsize
  have hadd : Word.add (max size 1) frameSize = .ok (max size 1 + frameSize) :=
    if_pos (by simp only [frameSize, Word.limit]; omega)
  refine ⟨_, ?_, isLeast_ceilLog2_frames size⟩
  rw [orderForSize, hadd, ok_bind, Word.exponentFor_eq (by simp only [frameSize]; omega)]

theorem sizeOfOrder_eq {order : Nat} (horder : order < orderCount) :
    sizeOfOrder order = .ok (2 ^ order * frameSize) := by
  have hle : 2 ^ order ≤ 2 ^ topOrder := Nat.pow_le_pow_right (by decide) (Nat.le_of_lt_succ horder)
  have hpower : Word.power order = .ok (2 ^ order) := by
    rw [← Nat.one_shiftLeft]
    exact if_pos (horder.trans (by decide))
  rw [sizeOfOrder, framesOfOrder, hpower, ok_bind]
  exact if_pos (Nat.lt_of_le_of_lt (Nat.mul_le_mul_right frameSize hle) (by decide))

namespace FrameAllocator

/-- The pools have the same blocks on all free lists, in the same order, and the same frames are
allocated. All calls are answered the same way. -/
structure Restored (before after : FrameAllocator) : Prop where
  freeBlocks : ∀ order < orderCount, ∃ blocks, before.freeBlocks order = .ok blocks ∧
    after.freeBlocks order = .ok blocks
  freeCounts : after.freeCounts = before.freeCounts
  allocated : ∀ frame order : Nat,
    after.records[frame]? = some { order := order, status := .allocated } ↔
      before.records[frame]? = some { order := order, status := .allocated }
  replies : ∀ calls, after.replies calls = before.replies calls

end FrameAllocator

namespace FramesInUse

/-- No live block is first seen at the address: it is below the pool, lies inside a frame or beyond
the pool, or it is that of a frame in a free block or behind the first one of a live block. -/
def Foreign (use : FramesInUse) (offset address : Nat) : Prop :=
  address < use.frames.base + offset ∨
  (address - (use.frames.base + offset)) % frameSize ≠ 0 ∨
  ∃ frame, address = use.frames.base + frame * frameSize + offset ∧
    (use.frames.frameCount ≤ frame ∨
      (∃ block, use.frames.OnFreeList block ∧ block.Covers frame) ∨
      ∃ block ∈ use.live, block.Covers frame ∧ block.start ≠ frame)

variable {use : FramesInUse} {lists : Nat → List Nat}

namespace Held

variable (huse : use.Held lists)

include huse

/-- A pool is restored if its lists and its live blocks are the same again. -/
theorem restored_of_held {restored : FrameAllocator}
    (hagain : (⟨restored, use.live⟩ : FramesInUse).Held lists)
    (hbase : restored.base = use.frames.base)
    (hcount : restored.frameCount = use.frames.frameCount) : use.frames.Restored restored := by
  have hindexed := huse.partitioned.indexed
  have hindexedAgain := hagain.partitioned.indexed
  refine ⟨fun order horder ↦
    ⟨_, hindexed.freeBlocks_eq horder, hindexedAgain.freeBlocks_eq horder⟩,
    hindexedAgain.freeCounts_eq hindexed rfl, fun frame order ↦ ?_,
    FrameAllocator.Alike.replies_eq
      ⟨hbase, hcount, lists, _, hagain.partitioned, huse.partitioned⟩⟩
  rw [hindexedAgain.allocated_record, hindexed.allocated_record]

/-- An address is foreign just if no live block is first seen there. -/
theorem foreign_iff {offset address : Nat} : use.Foreign offset address ↔
    ∀ block ∈ use.live, (block.region use.frames.base offset).base ≠ address := by
  have hframe : ∀ frame, (use.frames.frameCount ≤ frame ∨
      (∃ block, use.frames.OnFreeList block ∧ block.Covers frame) ∨
      ∃ block ∈ use.live, block.Covers frame ∧ block.start ≠ frame) ↔
      ∀ order, ⟨frame, order⟩ ∉ use.live := by
    intro frame
    simp only [huse.partitioned.indexed.onFreeList_iff]
    exact huse.partitioned.not_live_iff.symm
  simp only [Foreign, hframe, FrameBlock.region, frameSize]
  constructor
  · rintro (hbelow | hinside | ⟨frame, haddress, hnone⟩) block hblock rfl
    · omega
    · omega
    · obtain rfl : frame = block.start := by omega
      exact hnone block.order hblock
  · intro hnone
    by_contra hforeign
    simp only [not_or, not_exists, not_and, not_lt, not_not] at hforeign
    obtain ⟨habove, haligned, hlive⟩ := hforeign
    obtain ⟨frame, hframe⟩ : ∃ frame, address = use.frames.base + frame * 4096 + offset :=
      ⟨(address - (use.frames.base + offset)) / 4096, by omega⟩
    exact hlive frame hframe fun order hblock ↦ hnone ⟨frame, order⟩ hblock hframe.symm

end Held

end FramesInUse

namespace FrameSupplier

variable {supplier : FrameSupplier} {frames after : FrameAllocator}
  {start order size address : Nat} {error : AllocError}

/-! ### Runs -/

section Runs

-- No sum or product of addresses is to be computed while an act is looked at step by step.
attribute [local irreducible] Word.add Word.mul

/-- A request whose order is refused by the pool is refused, and nothing changes. -/
theorem supply_run_of_refused (hsize : orderForSize size = .ok order)
    (hallocate : frames.allocate order = .ok (.error error)) :
    supplier.supply size frames = ⟨.ok (.error error), frames, []⟩ := by
  unfold supply
  rw [hsize, Act.lift_ok_bind_run]
  split_ifs with horder
  · rw [FrameAllocator.allocate_of_le horder] at hallocate
    cases hallocate
    rfl
  · exact Act.bind_run_of_refused (FramePool.allocate_run_of_refused hallocate) _

/-- What is supplied is the region of the block that the pool hands out. -/
theorem supply_run_of_ok (hsize : orderForSize size = .ok order) (horder : order < orderCount)
    (hallocate : frames.allocate order = .ok (.ok (start, after)))
    (hword : after.base + start * frameSize + supplier.offset < Word.limit) :
    supplier.supply size frames =
      ⟨.ok (.ok (FrameBlock.region after.base supplier.offset ⟨start, order⟩)), after,
        [.noted (.frameAllocated start order)]⟩ := by
  have haddress : after.addressOf start = .ok (after.base + start * frameSize) :=
    FrameAllocator.addressOf_eq (by omega)
  have hadd : Word.add (after.base + start * frameSize) supplier.offset =
      .ok (after.base + start * frameSize + supplier.offset) := by
    unfold Word.add
    exact if_pos hword
  unfold supply
  rw [hsize, Act.lift_ok_bind_run, if_neg (Nat.not_le.mpr horder)]
  refine (Act.bind_run_of_value (FramePool.allocate_run_of_ok hallocate) _).trans ?_
  simp only [Act.get_bind_run, haddress, hadd, sizeOfOrder_eq horder, Act.lift_ok_bind_run,
    Act.pure_run]
  rfl

/-- A block is freed by the address at which its first frame is seen. -/
theorem release_run_of_ok {block : FrameBlock}
    (haddress : address = frames.base + start * frameSize + supplier.offset)
    (hstart : start < frames.frameCount) (hfree : frames.free start = .ok (.ok (block, after))) :
    supplier.release address frames =
      ⟨.ok (.ok ()), after, [.noted (.frameFreed start block.order)]⟩ := by
  have hframe := FrameAllocator.bind_frameAt?_eq_some_iff.mpr ⟨haddress, hstart⟩
  unfold release
  rw [Act.get_bind_run, hframe]
  exact (Act.bind_run_of_value (Act.settle_run (FramePool.free_run_of_ok hfree)) _).trans rfl

/-- An address at which no frame is seen, or none that can be freed, is noted and otherwise
ignored. -/
theorem release_run_of_ignored (hframes : ∀ frame < frames.frameCount,
      address = frames.base + frame * frameSize + supplier.offset →
        ∃ error, frames.free frame = .ok (.error error)) :
    ∃ notices : List Notice, supplier.release address frames =
      ⟨.ok (.ok ()), frames, notices.map .noted⟩ := by
  unfold release
  rw [Act.get_bind_run]
  rcases hfound : (Word.sub? address supplier.offset).bind frames.frameAt? with _ | frame
  · exact ⟨[.regionUnknown address], rfl⟩
  · obtain ⟨haddress, hlt⟩ := FrameAllocator.bind_frameAt?_eq_some_iff.mp hfound
    obtain ⟨error, hfree⟩ := hframes frame hlt haddress
    refine ⟨[.invalidFrame frame, .regionNotFreed address error], ?_⟩
    exact (Act.bind_run_of_value (Act.settle_run (FramePool.free_run_of_refused hfree)) _).trans rfl

end Runs

/-! ### The inverse -/

/-- The supplier serves a request with the region of a block that was vacant. The region is seen at
the address of the first frame plus the offset, and the block is live from then on. -/
structure Serves (supplier : FrameSupplier) (use : FramesInUse) (size : Nat) (block : FrameBlock)
    (region : Region) (after : FrameAllocator) : Prop where
  vacant : FrameBlock.Vacant use.frames.frameCount {other | other ∈ use.live} block
  region_eq : region = block.region use.frames.base supplier.offset
  address : use.frames.addressOf block.start = .ok (region.base - supplier.offset)
  supply : supplier.supply size use.frames =
    ⟨.ok (.ok region), after, [.noted (.frameAllocated block.start block.order)]⟩
  step : use.step (.allocate block.order) = .ok ⟨after, block :: use.live⟩
  allocated : ∀ frame order : Nat,
    after.records[frame]? = some { order := order, status := .allocated } ↔
      ⟨frame, order⟩ ∈ block :: use.live

/-- The supplier frees a live block: this one is live no more, and all others still are. -/
structure Frees (supplier : FrameSupplier) (use : FramesInUse) (address : Nat)
    (block grown : FrameBlock) (after : FrameAllocator) : Prop where
  free : use.frames.free block.start = .ok (.ok (grown, after))
  release : supplier.release address use.frames =
    ⟨.ok (.ok ()), after, [.noted (.frameFreed block.start grown.order)]⟩
  step : use.step (.free block.start) = .ok ⟨after, use.live.erase block⟩
  allocated : ∀ frame order : Nat,
    after.records[frame]? = some { order := order, status := .allocated } ↔
      ⟨frame, order⟩ ∈ use.live.erase block

variable {base count : Nat} {use : FramesInUse} {calls : List FrameCall} {lists : Nat → List Nat}

theorem serves_of_allocate (huse : use.Held lists) (hsize : orderForSize size = .ok order)
    (hwords : ∀ frame < use.frames.frameCount,
      use.frames.base + frame * frameSize + supplier.offset < Word.limit)
    (hallocate : use.frames.allocate order = .ok (.ok (start, after))) :
    supplier.Serves use size ⟨start, order⟩
      (FrameBlock.region use.frames.base supplier.offset ⟨start, order⟩) after := by
  obtain ⟨number, -, hle, hnumber, -, -, hbase, hcount, hafter⟩ :=
    huse.partitioned.of_allocate hallocate
  obtain ⟨hstep, hvacant, hallocated, -⟩ := huse.of_allocate hallocate
  have hword := hwords start (hcount ▸ hafter.paving.start_lt (Or.inr (Set.mem_insert _ _)))
  refine ⟨hvacant, rfl, ?_, ?_, hstep, hallocated⟩
  · rw [FrameBlock.region, Nat.add_sub_cancel]
    exact FrameAllocator.addressOf_eq (Nat.lt_of_le_of_lt (Nat.le_add_right _ _) hword)
  · rw [← hbase] at hword ⊢
    exact supply_run_of_ok hsize (hle.trans_lt hnumber) hallocate hword

theorem frees_of_mem (supplier : FrameSupplier) (huse : use.Held lists) {block : FrameBlock}
    (hblock : block ∈ use.live) :
    ∃ grown after, supplier.Frees use (block.region use.frames.base supplier.offset).base block
      grown after := by
  obtain ⟨grown, after, hfree, hstep, hallocated, -⟩ := huse.free_of_mem hblock
  refine ⟨grown, after, hfree, release_run_of_ok rfl ?_ hfree, hstep, fun frame order ↦ ?_⟩
  · exact huse.partitioned.paving.start_lt (Or.inr hblock)
  · rw [hallocated, huse.nodup.mem_erase_iff, and_comm]

/-- A block that was served is freed by the first byte of its region, and the pool is as before. -/
theorem Serves.restored {block : FrameBlock} {region : Region} (huse : use.Held lists)
    (hserves : supplier.Serves use size block region after)
    (hallocate : use.frames.allocate block.order = .ok (.ok (block.start, after))) :
    ∃ grown restored,
      supplier.Frees ⟨after, block :: use.live⟩ region.base block grown restored ∧
      use.frames.Restored restored := by
  obtain ⟨-, -, -, -, -, -, hbaseAfter, -⟩ := huse.partitioned.of_allocate hallocate
  obtain ⟨found, restored, hfree, -, hbase, hcount, hagain⟩ :=
    huse.exists_free_of_allocate hallocate
  obtain ⟨more, hmiddle, -⟩ := huse.step_of_ok hserves.step
  obtain ⟨grown, other, hfrees⟩ := frees_of_mem supplier hmiddle List.mem_cons_self
  have hother := hfrees.free
  rw [hfree, Except.ok.injEq, Except.ok.injEq, Prod.mk.injEq] at hother
  obtain ⟨rfl, rfl⟩ := hother
  rw [hserves.region_eq, ← hbaseAfter]
  exact ⟨_, restored, hfrees, huse.restored_of_held hagain hbase hcount⟩

/-- After any run of a pool whose frames are seen at words. A request is served with a block of the
least order that is large enough, and refused just if such a block is not to be had; then nothing
changes. What is served can be released by its first byte, and if this happens at once, the pool is
as before. A release frees the live block that is first seen at the address, and leaves the pool
alone if there is none. -/
theorem release_undoes_supply (hframes : FrameAllocator.ofFrames base count = .ok frames)
    (huse : FramesInUse.run ⟨frames, []⟩ calls = .ok use) (supplier : FrameSupplier)
    (hwords : ∀ frame < use.frames.frameCount,
      use.frames.base + frame * frameSize + supplier.offset < Word.limit) :
    (∀ size, size + frameSize < Word.limit →
      ∃ order, IsLeast {order | size ≤ 2 ^ order * frameSize} order ∧
        (orderCount ≤ order ∧
            supplier.supply size use.frames = ⟨.ok (.error .orderTooLarge), use.frames, []⟩ ∨
          (¬ ∃ start, FrameBlock.Vacant count {block | block ∈ use.live} ⟨start, order⟩) ∧
            supplier.supply size use.frames = ⟨.ok (.error .noMemoryAvailable), use.frames, []⟩ ∨
          ∃ start region after grown restored,
            supplier.Serves use size ⟨start, order⟩ region after ∧
            supplier.Frees ⟨after, ⟨start, order⟩ :: use.live⟩ region.base ⟨start, order⟩ grown
              restored ∧
            use.frames.Restored restored)) ∧
    ∀ address,
      (∀ block ∈ use.live, (block.region use.frames.base supplier.offset).base = address →
        ∃ grown after, supplier.Frees use address block grown after) ∧
      (use.Foreign supplier.offset address → ∃ notices : List Notice,
        supplier.release address use.frames = ⟨.ok (.ok ()), use.frames, notices.map .noted⟩) ∧
      (use.Foreign supplier.offset address ↔
        ∀ block ∈ use.live, (block.region use.frames.base supplier.offset).base ≠ address) := by
  obtain ⟨lists, hnew, -, hcountNew⟩ := FramesInUse.held_ofFrames hframes
  obtain ⟨more, hheld, hcountUse⟩ := hnew.run_of_ok huse
  obtain rfl : use.frames.frameCount = count := hcountUse.trans hcountNew
  refine ⟨fun size hsize ↦ ?_, fun address ↦ ⟨?_, fun hforeign ↦ ?_, hheld.foreign_iff⟩⟩
  · obtain ⟨order, horder, hleast⟩ := orderForSize_eq hsize
    refine ⟨order, hleast, ?_⟩
    rcases hheld.partitioned.allocate order with ⟨hlarge, hrefused⟩ | ⟨-, hempty, hrefused⟩ |
      ⟨start, after, -, hallocate, -⟩
    · exact Or.inl ⟨hlarge, supply_run_of_refused horder hrefused⟩
    · refine Or.inr (Or.inl ⟨fun hvacant ↦ ?_, supply_run_of_refused horder hrefused⟩)
      obtain ⟨number, hle, hnumber, hne⟩ := hheld.partitioned.exists_vacant_iff.mp hvacant
      exact hne (hempty number hle hnumber)
    · have hserves := serves_of_allocate hheld horder hwords hallocate
      obtain ⟨grown, restored, hfrees⟩ := hserves.restored hheld hallocate
      exact Or.inr (Or.inr ⟨start, _, after, grown, restored, hserves, hfrees⟩)
  · rintro block hblock rfl
    exact frees_of_mem supplier hheld hblock
  · refine release_run_of_ignored fun frame hframe haddress ↦ ⟨.invalidFrame, ?_⟩
    refine hheld.partitioned.free_of_notMem fun order hmem ↦ ?_
    exact hheld.foreign_iff.mp hforeign ⟨frame, order⟩ hmem haddress.symm

/-- Of seven frames the last one is taken. A request for `5000` bytes is served with the two frames
before it, which come back. The block that was taken can be released too, while a frame that is
free and the second byte of a block are ignored. -/
theorem release_undoes_supply_of_seven : ∃ frames use region after grown restored other final,
    FrameAllocator.ofFrames 4096 7 = .ok frames ∧
    FramesInUse.run ⟨frames, []⟩ [.allocate 0] = .ok use ∧ region = ⟨28672, 8192⟩ ∧
    FrameSupplier.Serves ⟨8192⟩ use 5000 ⟨4, 1⟩ region after ∧
    FrameSupplier.Frees ⟨8192⟩ ⟨after, ⟨4, 1⟩ :: use.live⟩ 28672 ⟨4, 1⟩ grown restored ∧
    use.frames.Restored restored ∧
    FrameSupplier.Frees ⟨8192⟩ use 36864 ⟨6, 0⟩ other final ∧
    (FrameSupplier.release ⟨8192⟩ 32768 use.frames).state = use.frames ∧
    (FrameSupplier.release ⟨8192⟩ 36865 use.frames).state = use.frames := by
  obtain ⟨frames, use, after, hframes, huse, hbase, hcount, hlive, hrun⟩ : ∃ frames use after,
      FrameAllocator.ofFrames 4096 7 = .ok frames ∧
      FramesInUse.run ⟨frames, []⟩ [.allocate 0] = .ok use ∧ use.frames.base = 4096 ∧
      use.frames.frameCount = 7 ∧ use.live = [⟨6, 0⟩] ∧
      FrameSupplier.supply ⟨8192⟩ 5000 use.frames =
        ⟨.ok (.ok ⟨28672, 8192⟩), after, [.noted (.frameAllocated 4 1)]⟩ :=
    ⟨_, _, _, FrameAllocator.ofFrames_eq rfl, rfl, rfl, rfl, rfl, rfl⟩
  obtain ⟨hsupply, hrelease⟩ := release_undoes_supply hframes huse ⟨8192⟩ (by
    intro frame hframe
    rw [hbase]
    simp only [frameSize, Word.limit]
    omega)
  obtain ⟨order, hleast, hcases⟩ := hsupply 5000 (by decide)
  obtain ⟨-, hrefused⟩ | ⟨-, hrefused⟩ | ⟨start, region, more, grown, restored, hserves, hback⟩ :=
    hcases
  · rw [hrun] at hrefused
    cases hrefused
  · rw [hrun] at hrefused
    cases hrefused
  have hsame := hserves.supply
  rw [hrun] at hsame
  cases hsame
  have hfirst : ∀ block ∈ use.live, (block.region use.frames.base 8192).base = 36864 := by
    rw [hbase, hlive]
    decide
  have hmem : ⟨6, 0⟩ ∈ use.live := by
    rw [hlive]
    exact List.mem_cons_self
  obtain ⟨other, final, hfrees⟩ := (hrelease 36864).1 _ hmem (hfirst _ hmem)
  have hkept : ∀ address, address ≠ 36864 →
      (FrameSupplier.release ⟨8192⟩ address use.frames).state = use.frames := by
    intro address hne
    obtain ⟨-, hforeign, hiff⟩ := hrelease address
    obtain ⟨notices, hignored⟩ := hforeign
      (hiff.mpr fun block hblock heq ↦ hne (heq.symm.trans (hfirst block hblock)))
    rw [hignored]
  exact ⟨frames, use, _, _, grown, restored, other, final, hframes, huse, rfl, hserves, hback.1,
    hback.2, hfrees, hkept _ (by decide), hkept _ (by decide)⟩

end FrameSupplier

end KernelMemory
