import KernelMemory.Frames.Check
import KernelMemory.Proofs.Frames.Decomposition
import KernelMemory.Proofs.Frames.Requests
import KernelMemory.Proofs.Word
import Mathlib.Algebra.BigOperators.Ring.List

/-!
# Runs of a frame allocator

A pool is used by calls in any order with any arguments (`FrameCall`). Beside the pool a run keeps
the blocks that were handed out and did not come back (`FramesInUse`), which a call that is refused
does not change. No call faults, and after every run the blocks on the free lists and the blocks in
use partition the pool (`FramesInUse.Accounted`).
-/

set_option autoImplicit false
set_option relaxedAutoImplicit false

namespace KernelMemory

inductive FrameCall
  | allocate (order : Nat)
  | allocatePages (count : Nat)
  | free (frame : Nat)
deriving DecidableEq, Repr

/-- A pool and the blocks that its users hold. -/
structure FramesInUse where
  frames : FrameAllocator
  live : List FrameBlock
deriving DecidableEq, Repr

namespace FramesInUse

/-- The answer to a request for a block of an order; the pool is kept if it is refused. -/
def grant (use : FramesInUse) (order : Nat) (answer : Checked (Nat × FrameAllocator)) :
    Except Fault FramesInUse := do
  match ← answer.run with
  | .ok (frame, frames) => return ⟨frames, ⟨frame, order⟩ :: use.live⟩
  | .error _ => return use

def step (use : FramesInUse) : FrameCall → Except Fault FramesInUse
  | .allocate order => use.grant order (use.frames.allocate order)
  | .allocatePages count => use.grant (Word.ceilLog2 count) (use.frames.allocatePages count)
  | .free frame => do
    match ← (use.frames.free frame).run with
    | .ok (_, frames) => return ⟨frames, use.live.filter fun block ↦ block.start ≠ frame⟩
    | .error _ => return use

def run (use : FramesInUse) (calls : List FrameCall) : Except Fault FramesInUse :=
  calls.foldlM step use

end FramesInUse

namespace FrameAllocator

/-- A walk over the free list of its order finds the block. -/
def OnFreeList (frames : FrameAllocator) (block : FrameBlock) : Prop :=
  block.order < orderCount ∧ ∃ blocks, frames.freeBlocks block.order = .ok blocks ∧ block ∈ blocks

end FrameAllocator

/-- The blocks on the free lists and the live blocks partition the pool, the free lists have no
block twice and are as long as their counts tell, a record tells that its frame is allocated just
for the first frames of the live blocks, and no free block has a free buddy. -/
structure FramesInUse.Accounted (use : FramesInUse) : Prop where
  walks : ∀ order < orderCount, ∃ blocks, use.frames.freeBlocks order = .ok blocks ∧
    blocks.Nodup ∧ use.frames.freeCount order = .ok blocks.length
  paving : Paving use.frames.frameCount {block | use.frames.OnFreeList block ∨ block ∈ use.live}
  live_nodup : use.live.Nodup
  disjoint : ∀ block ∈ use.live, ¬ use.frames.OnFreeList block
  records : ∀ frame order, use.frames.records[frame]? = some { order, status := .allocated } ↔
    ⟨frame, order⟩ ∈ use.live
  merged : ∀ block, use.frames.OnFreeList block → block.order < topOrder →
    ¬ use.frames.OnFreeList ⟨buddyOf block.start block.order, block.order⟩

namespace FrameAllocator

variable {frames : FrameAllocator} {lists : Nat → List Nat} {live : Set FrameBlock}

theorem sum_map_flatMap {α : Type} (values : List α) (blocks : α → List FrameBlock)
    (weight : FrameBlock → Nat) : ((values.flatMap blocks).map weight).sum =
      (values.map fun value ↦ ((blocks value).map weight).sum).sum := by
  induction values with
  | nil => rfl
  | cons value values ih =>
    rw [List.flatMap_cons, List.map_append, List.sum_append, ih, List.map_cons, List.sum_cons]

/-! ### The walks over the free lists -/

/-- The block of an order whose first frame has a node, which is no head. -/
def blockAt (order node : Nat) : FrameBlock := ⟨node - orderCount, order⟩

@[simp] theorem order_blockAt (order node : Nat) : (blockAt order node).order = order := rfl

@[simp] theorem blockAt_nodeOf (order frame : Nat) : blockAt order (nodeOf frame) = ⟨frame, order⟩ :=
  congrArg (FrameBlock.mk · order) (Nat.add_sub_cancel_left orderCount frame)

theorem blockOf_nodeOf (order frame : Nat) : blockOf order (nodeOf frame) = .ok ⟨frame, order⟩ := by
  rw [blockOf, frameOf_nodeOf]
  rfl

namespace Indexed

variable (hframes : frames.Indexed lists live)

include hframes

theorem freeBlocks_eq {order : Nat} (horder : order < orderCount) :
    frames.freeBlocks order = .ok ((lists order).map (blockAt order)) := by
  obtain ⟨starts, hstarts⟩ : ∃ starts : List Nat, lists order = starts.map nodeOf :=
    hframes.rings.exists_map horder
  simp only [freeBlocks, hframes.rings.members horder, ok_bind, hstarts,
    mapM_map_eq (blockOf_nodeOf order), List.map_map, Function.comp_def, blockAt_nodeOf]

theorem mem_map_iff {order : Nat} (horder : order < orderCount) {block : FrameBlock} :
    block ∈ (lists order).map (blockAt order) ↔
      block.order = order ∧ block ∈ listed lists := by
  rw [List.mem_map]
  constructor
  · rintro ⟨node, hnode, rfl⟩
    obtain ⟨frame, -, rfl⟩ := hframes.exists_of_mem horder hnode
    rw [blockAt_nodeOf]
    exact ⟨rfl, horder, hnode⟩
  · rintro ⟨rfl, hmem⟩
    exact ⟨nodeOf block.start, hmem.2, blockAt_nodeOf ..⟩

theorem onFreeList_iff {block : FrameBlock} : frames.OnFreeList block ↔ block ∈ listed lists := by
  constructor
  · rintro ⟨horder, blocks, hblocks, hmem⟩
    rw [hframes.freeBlocks_eq horder, Except.ok.injEq] at hblocks
    exact ((hframes.mem_map_iff horder).mp (hblocks ▸ hmem)).2
  · intro hmem
    exact ⟨hmem.1, _, hframes.freeBlocks_eq hmem.1, (hframes.mem_map_iff hmem.1).mpr ⟨rfl, hmem⟩⟩

theorem nodup_map {order : Nat} (horder : order < orderCount) :
    ((lists order).map (blockAt order)).Nodup := by
  refine List.Nodup.map_on (fun first hfirst second hsecond heq ↦ ?_) (hframes.listed_nodup horder)
  obtain ⟨p, -, rfl⟩ := hframes.exists_of_mem horder hfirst
  obtain ⟨q, -, rfl⟩ := hframes.exists_of_mem horder hsecond
  rw [blockAt_nodeOf, blockAt_nodeOf, FrameBlock.mk.injEq] at heq
  rw [heq.1]

/-- The free bytes are those of the blocks on the free lists. -/
theorem freeBytes_eq :
    frames.freeBytes = ((List.range orderCount).map fun order ↦
      (lists order).length * 2 ^ order).sum * frameSize := by
  unfold freeBytes
  rw [← List.sum_map_mul_right]
  refine congrArg List.sum (List.map_congr_left fun order horder ↦ ?_)
  rw [hframes.counts order (List.mem_range.mp horder), Option.getD_some, Nat.mul_assoc]

end Indexed

namespace Partitioned

variable (hframes : frames.Partitioned lists live)

include hframes

theorem checkFree_eq {block : FrameBlock} (hblock : block ∈ listed lists) :
    frames.checkFree block = .ok () := by
  have hfree : frames.isFreeBlock block.start block.order = true := by
    rw [isFreeBlock, hframes.indexed.free_record block hblock, beq_self_eq_true]
  have haligned : block.start % 2 ^ block.order = 0 :=
    Nat.mod_eq_zero_of_dvd (hframes.paving.size_dvd block (Or.inl hblock))
  have hend : block.start + 2 ^ block.order ≤ frames.frameCount :=
    hframes.paving.end_le block (Or.inl hblock)
  have hmerged : ¬ (decide (block.order < topOrder) &&
      frames.isFreeBlock (buddyOf block.start block.order) block.order) = true := by
    rw [Bool.and_eq_true, decide_eq_true_eq]
    rintro ⟨hlt, hbuddy⟩
    exact hframes.merged block hblock hlt ((isFreeBlock_iff hframes.indexed hframes.paving
      (Or.inl hblock) fun other hother _ ↦ hother).mp hbuddy)
  simp only [checkFree, hfree, haligned, hend, hmerged]
  rfl

theorem checkOrder_eq {order : Nat} (horder : order < orderCount) :
    frames.checkOrder order = .ok (.ok ((lists order).length * 2 ^ order)) := by
  have hchecked : ∀ blocks : List FrameBlock, (∀ block ∈ blocks, block ∈ listed lists) →
      blocks.forM frames.checkFree = .ok () := by
    intro blocks hlisted
    induction blocks with
    | nil => rfl
    | cons block blocks ih =>
      have hrest := ih fun other hother ↦ hlisted other (List.mem_cons_of_mem _ hother)
      simp only [List.forM, hframes.checkFree_eq (hlisted block List.mem_cons_self), hrest]
      rfl
  have hblocks := hchecked _ fun block hblock ↦
    ((hframes.indexed.mem_map_iff horder).mp hblock).2
  simp only [checkOrder, hframes.indexed.freeBlocks_eq horder, Checked.lift_ok_bind, hblocks,
    liftExcept, Checked.pure_eq, Checked.ok_bind, hframes.indexed.freeCount_eq horder,
    List.length_map, if_true]

/-- The walk over all free lists finds nothing wrong. -/
theorem verify_eq : frames.verify = .ok (.ok ()) := by
  have hcounts := Checked.mapM_eq fun order horder ↦
    hframes.checkOrder_eq (List.mem_range.mp horder)
  simp only [verify, hcounts, Checked.ok_bind, hframes.indexed.freeBytes_eq, if_true,
    Checked.pure_eq]

/-- The bytes of the free blocks and of the live blocks are those of the pool. -/
theorem freeBytes_add_eq {blocks : List FrameBlock}
    (hblocks : ∀ block, block ∈ blocks ↔ block ∈ live) (hnodup : blocks.Nodup) :
    frames.freeBytes + (blocks.map fun block ↦ block.size * frameSize).sum = frames.totalBytes := by
  let free := (List.range orderCount).flatMap fun order ↦
    (lists order).map (blockAt order)
  have hmemFree : ∀ block, block ∈ free ↔ block ∈ listed lists := by
    intro block
    simp only [free, List.mem_flatMap, List.mem_range]
    constructor
    · rintro ⟨order, horder, hmem⟩
      exact ((hframes.indexed.mem_map_iff horder).mp hmem).2
    · intro hmem
      exact ⟨block.order, hmem.1, (hframes.indexed.mem_map_iff hmem.1).mpr ⟨rfl, hmem⟩⟩
  have hnodupFree : free.Nodup := by
    refine List.nodup_flatMap.mpr ⟨fun order horder ↦
      hframes.indexed.nodup_map (List.mem_range.mp horder), ?_⟩
    refine List.nodup_range.imp_of_mem fun {first second} hfirst hsecond hne block hmem hother ↦ ?_
    have heqFirst := ((hframes.indexed.mem_map_iff (List.mem_range.mp hfirst)).mp hmem).1
    have heqSecond := ((hframes.indexed.mem_map_iff (List.mem_range.mp hsecond)).mp hother).1
    exact hne (heqFirst.symm.trans heqSecond)
  have hmem : ∀ block, block ∈ free ++ blocks ↔ block ∈ listed lists ∪ live := by
    intro block
    rw [List.mem_append, hmemFree, hblocks, Set.mem_union]
  have hnodupAll : (free ++ blocks).Nodup := by
    refine List.nodup_append.mpr ⟨hnodupFree, hnodup, fun block hfree other hother heq ↦ ?_⟩
    subst heq
    exact hframes.indexed.notMem_allocated ((hmemFree block).mp hfree) ((hblocks block).mp hother)
  have hsum := hframes.paving.sum_size hmem hnodupAll
  have hfree : (free.map FrameBlock.size).sum =
      ((List.range orderCount).map fun order ↦ (lists order).length * 2 ^ order).sum := by
    simp only [free, sum_map_flatMap, List.map_map, Function.comp_def, FrameBlock.size,
      order_blockAt, List.map_const', List.sum_replicate, Nat.nsmul_eq_mul]
  rw [List.map_append, List.sum_append, hfree] at hsum
  rw [hframes.indexed.freeBytes_eq, List.sum_map_mul_right, ← Nat.add_mul, hsum]
  rfl

end Partitioned

end FrameAllocator

/-! ### Runs -/

namespace FramesInUse

variable {use : FramesInUse} {lists : Nat → List Nat}

/-- A partitioned pool with its live blocks. -/
structure Held (use : FramesInUse) (lists : Nat → List Nat) : Prop where
  partitioned : use.frames.Partitioned lists {block | block ∈ use.live}
  nodup : use.live.Nodup

namespace Held

variable (huse : use.Held lists)

include huse

theorem accounted : use.Accounted := by
  have hindexed := huse.partitioned.indexed
  have hfree : ∀ block, use.frames.OnFreeList block ↔ block ∈ FrameAllocator.listed lists :=
    fun _ ↦ hindexed.onFreeList_iff
  refine ⟨fun order horder ↦ ?_, ?_, huse.nodup, fun block hlive hmem ↦ ?_,
    hindexed.allocated_record, fun block hblock horder hbuddy ↦ ?_⟩
  · refine ⟨_, hindexed.freeBlocks_eq horder, hindexed.nodup_map horder, ?_⟩
    rw [hindexed.freeCount_eq horder, List.length_map]
  · simp only [hfree]
    exact huse.partitioned.paving
  · exact hindexed.notMem_allocated ((hfree block).mp hmem) hlive
  · exact huse.partitioned.merged block ((hfree block).mp hblock) horder ((hfree _).mp hbuddy)

/-- A block that is handed out is live. -/
theorem grant_of_ok {order frame : Nat} {after : FrameAllocator} {more : Nat → List Nat}
    (hfresh : ∀ number, (⟨frame, number⟩ : FrameBlock) ∉ use.live)
    (hafter : after.Partitioned more (insert ⟨frame, order⟩ {block | block ∈ use.live})) :
    (⟨after, ⟨frame, order⟩ :: use.live⟩ : FramesInUse).Held more := by
  refine ⟨?_, List.nodup_cons.mpr ⟨hfresh order, huse.nodup⟩⟩
  convert hafter using 1
  ext block
  exact List.mem_cons

/-- A block that comes back is not live any more. -/
theorem giveBack_of_ok {frame order : Nat} {after : FrameAllocator} {more : Nat → List Nat}
    (hmem : ⟨frame, order⟩ ∈ use.live)
    (hafter : after.Partitioned more ({block | block ∈ use.live} \ {⟨frame, order⟩})) :
    (⟨after, use.live.filter fun block ↦ block.start ≠ frame⟩ : FramesInUse).Held more := by
  refine ⟨?_, huse.nodup.filter _⟩
  convert hafter using 1
  ext other
  simp only [Set.mem_ofPred_eq, List.mem_filter, decide_eq_true_eq, Set.mem_sdiff,
    Set.mem_singleton_iff]
  refine and_congr_right fun hother ↦ not_congr ⟨fun hstart ↦ ?_, fun heq ↦ heq ▸ rfl⟩
  exact huse.partitioned.paving.eq_of_start_eq (Or.inr hother) (Or.inr hmem) hstart

theorem grant_allocate (order : Nat) :
    ∃ after more, use.grant order (use.frames.allocate order) = .ok after ∧
      after.frames.base = use.frames.base ∧
      after.frames.frameCount = use.frames.frameCount ∧ after.Held more := by
  rcases huse.partitioned.allocate order with ⟨-, heq⟩ | ⟨-, -, heq⟩ |
    ⟨frame, after, more, heq, hbase, hcount, hfresh, hafter⟩
  · exact ⟨use, lists, by rw [grant, heq]; rfl, rfl, rfl, huse⟩
  · exact ⟨use, lists, by rw [grant, heq]; rfl, rfl, rfl, huse⟩
  · exact ⟨_, more, by rw [grant, heq]; rfl, hbase, hcount, huse.grant_of_ok hfresh hafter⟩

/-- A call does not fault, and leaves a partitioned pool. -/
theorem step {call : FrameCall} (hcall : ∀ count, call = .allocatePages count → count ≤ 2 ^ 63) :
    ∃ after more, use.step call = .ok after ∧ after.frames.base = use.frames.base ∧
      after.frames.frameCount = use.frames.frameCount ∧ after.Held more := by
  cases call with
  | allocate order => exact huse.grant_allocate order
  | allocatePages count =>
    rcases Nat.eq_zero_or_pos count with rfl | hpos
    · exact ⟨use, lists, rfl, rfl, rfl, huse⟩
    · rw [FramesInUse.step, FrameAllocator.allocatePages_eq_allocate hpos (hcall count rfl)]
      exact huse.grant_allocate _
  | free frame =>
    by_cases hlive : ∃ order, (⟨frame, order⟩ : FrameBlock) ∈ use.live
    · obtain ⟨order, hmem⟩ := hlive
      obtain ⟨after, hafter, hbase, hcount, hpartitioned⟩ := huse.partitioned.free_of_mem hmem
      exact ⟨_, _, by rw [FramesInUse.step, hafter]; rfl, hbase, hcount,
        huse.giveBack_of_ok hmem hpartitioned⟩
    · refine ⟨use, lists, ?_, rfl, rfl, huse⟩
      rw [FramesInUse.step, huse.partitioned.free_of_notMem (not_exists.mp hlive)]
      rfl

/-- A run does not fault, and leaves a partitioned pool. -/
theorem run {calls : List FrameCall}
    (hcalls : ∀ count, .allocatePages count ∈ calls → count ≤ 2 ^ 63) :
    ∃ after more, use.run calls = .ok after ∧ after.frames.base = use.frames.base ∧
      after.frames.frameCount = use.frames.frameCount ∧ after.Held more := by
  induction calls generalizing use lists with
  | nil => exact ⟨use, lists, rfl, rfl, rfl, huse⟩
  | cons call calls ih =>
    obtain ⟨first, fewer, hfirst, hbaseFirst, hcountFirst, hheld⟩ := huse.step
      fun count heq ↦ hcalls count (heq ▸ List.mem_cons_self)
    obtain ⟨after, more, hafter, hbase, hcount, hheldAfter⟩ := ih hheld
      fun count hmem ↦ hcalls count (List.mem_cons_of_mem _ hmem)
    refine ⟨after, more, ?_, hbase.trans hbaseFirst, hcount.trans hcountFirst, hheldAfter⟩
    rw [FramesInUse.run, List.foldlM_cons, hfirst]
    exact hafter

end Held

/-- Every run from a new pool, with calls of any kind in any order, comes to its end without a
fault. After it the free lists and the live blocks partition the pool, the walk over the free lists
finds no defect, and the free bytes and those of the live blocks are all bytes of the pool. -/
theorem run_accounted (base count : Nat) (calls : List FrameCall)
    (hcalls : ∀ pages, .allocatePages pages ∈ calls → pages ≤ 2 ^ 63) :
    ∃ frames use, FrameAllocator.ofFrames base count = .ok frames ∧
      (base % frameSize = 0 → base + count * frameSize < Word.limit →
        FrameAllocator.withBase base count = .ok (.ok frames)) ∧
      run ⟨frames, []⟩ calls = .ok use ∧ use.frames.base = base ∧ use.frames.frameCount = count ∧
      use.Accounted ∧ use.frames.verify = .ok (.ok ()) ∧
      use.frames.freeBytes + (use.live.map fun block ↦ block.size * frameSize).sum =
        use.frames.totalBytes ∧
      use.frames.freeBytes + use.frames.allocatedBytes = use.frames.totalBytes := by
  obtain ⟨frames, lists, hframes, hbaseNew, hcountNew, hpartitioned, -⟩ :=
    FrameAllocator.ofFrames_partitioned base count
  have hheld : (⟨frames, []⟩ : FramesInUse).Held lists := by
    refine ⟨?_, List.nodup_nil⟩
    convert hpartitioned using 1
    ext block
    exact iff_of_false List.not_mem_nil (Set.notMem_empty _)
  obtain ⟨use, more, huse, hbase, hcount, hafter⟩ := hheld.run hcalls
  have hbytes := hafter.partitioned.freeBytes_add_eq (fun _ ↦ Iff.rfl) hafter.nodup
  refine ⟨frames, use, hframes, fun haligned hend ↦ ?_, huse, hbase.trans hbaseNew,
    hcount.trans hcountNew, hafter.accounted, hafter.partitioned.verify_eq, hbytes, ?_⟩
  · rw [FrameAllocator.withBase_eq_ofFrames haligned hend, hframes]
    rfl
  · unfold FrameAllocator.allocatedBytes
    omega

/-- A pool of three frames in which both blocks are taken, the frames are taken once more in vain,
and the first of them is given back twice. -/
theorem run_accounted_three :
    ∃ frames use, FrameAllocator.ofFrames 4096 3 = .ok frames ∧
      FrameAllocator.withBase 4096 3 = .ok (.ok frames) ∧
      run ⟨frames, []⟩ [.allocatePages 2, .allocate 0, .allocatePages 2, .free 1, .free 0,
        .free 0] = .ok use ∧ use.Accounted := by
  obtain ⟨frames, use, hframes, hwith, huse, -, -, haccounted, -⟩ := run_accounted 4096 3
    [.allocatePages 2, .allocate 0, .allocatePages 2, .free 1, .free 0, .free 0] (by
      intro pages hpages
      have hpages : pages = 2 := by simpa using hpages
      omega)
  exact ⟨frames, use, hframes, hwith (by decide) (by decide), huse, haccounted⟩

end FramesInUse

end KernelMemory
