import KernelMemory.Proofs.Frames.Runs

/-!
# Free blocks are canonical

Which blocks of a pool are free depends on the live blocks alone. A block is vacant if it lies in
the pool and has no frame of a live block (`FrameBlock.Vacant`), and the free blocks are the vacant
ones that no other vacant block contains (`FrameAllocator.Partitioned.mem_listed_iff`): in a larger
vacant block the smallest free part would have a free buddy. So two runs that end with the same live
blocks end with the same free blocks, whatever happened before
(`FramesInUse.free_blocks_canonical`).
-/

set_option autoImplicit false
set_option relaxedAutoImplicit false

namespace KernelMemory

/-! ### Blocks inside each other -/

namespace FrameBlock

/-- All frames of the block are frames of the other one. -/
def Within (block outer : FrameBlock) : Prop := ∀ frame, block.Covers frame → outer.Covers frame

variable {block outer : FrameBlock}

theorem covers_iff_div_eq (hdvd : block.size ∣ block.start) (frame : Nat) :
    block.Covers frame ↔ frame / block.size = block.start / block.size := by
  obtain ⟨number, hstart⟩ := hdvd
  rw [Covers, hstart, Nat.mul_div_cancel_left _ block.size_pos, Nat.div_eq_iff block.size_pos,
    Nat.mul_comm]
  have hpos := block.size_pos
  omega

/-- Two aligned blocks that share a frame lie inside each other. -/
theorem within_of_covers (hdvd : block.size ∣ block.start) (houter : outer.size ∣ outer.start)
    (horder : block.order ≤ outer.order) {frame : Nat} (hframe : block.Covers frame)
    (hshared : outer.Covers frame) : block.Within outer := by
  intro other hother
  rw [covers_iff_div_eq hdvd] at hframe hother
  rw [covers_iff_div_eq houter] at hshared ⊢
  have hsize : outer.size = block.size * 2 ^ (outer.order - block.order) := by
    rw [size, size, ← pow_add, Nat.add_sub_cancel' horder]
  rw [← hshared, hsize, ← Nat.div_div_eq_div_mul, ← Nat.div_div_eq_div_mul, hother, hframe]

theorem Within.start_le (hwithin : block.Within outer) : outer.start ≤ block.start :=
  (hwithin block.start block.covers_start).1

theorem Within.end_le (hwithin : block.Within outer) :
    block.start + block.size ≤ outer.start + outer.size := by
  have hpos := block.size_pos
  have hlast := (hwithin (block.start + block.size - 1) ⟨by omega, by omega⟩).2
  omega

theorem Within.order_le (hwithin : block.Within outer) : block.order ≤ outer.order := by
  have hstart := hwithin.start_le
  have hend := hwithin.end_le
  have hle : 2 ^ block.order ≤ 2 ^ outer.order := by
    rw [size, size] at hend
    omega
  exact (Nat.pow_le_pow_iff_right (by decide)).mp hle

theorem Within.eq (hwithin : block.Within outer) (horder : outer.order ≤ block.order) :
    outer = block := by
  have hstart := hwithin.start_le
  have hend := hwithin.end_le
  have hsame : outer.order = block.order := Nat.le_antisymm horder hwithin.order_le
  obtain ⟨start, order⟩ := block
  obtain ⟨outerStart, outerOrder⟩ := outer
  simp only [size] at hstart hend hsame
  subst hsame
  obtain rfl : outerStart = start := by omega
  rfl

/-- The buddy of a block lies inside every larger block around it. -/
theorem Within.buddy (hwithin : block.Within outer) (hdvd : block.size ∣ block.start)
    (houter : outer.size ∣ outer.start) (horder : block.order < outer.order) :
    Within ⟨buddyOf block.start block.order, block.order⟩ outer := by
  obtain ⟨hpair, hhalves⟩ := halves_min hdvd
  have hparent :
      Within ⟨min block.start (buddyOf block.start block.order), block.order + 1⟩ outer := by
    refine within_of_covers hpair houter horder ?_ (hwithin block.start block.covers_start)
    rw [← covers_halves_iff, hhalves]
    exact ⟨block, Or.inl rfl, block.covers_start⟩
  intro frame hframe
  refine hparent frame ?_
  rw [← covers_halves_iff, hhalves]
  exact ⟨_, Or.inr rfl, hframe⟩

/-- The block lies in the pool and has no frame of a live block. -/
structure Vacant (count : Nat) (live : Set FrameBlock) (block : FrameBlock) : Prop where
  order_le : block.order ≤ topOrder
  size_dvd : block.size ∣ block.start
  end_le : block.start + block.size ≤ count
  unused : ∀ other ∈ live, ∀ frame, block.Covers frame → ¬ other.Covers frame

/-- The block is vacant, and no other vacant block contains it. -/
structure MaximalVacant (count : Nat) (live : Set FrameBlock) (block : FrameBlock) : Prop where
  vacant : block.Vacant count live
  maximal : ∀ outer : FrameBlock, outer.Vacant count live → block.Within outer → outer = block

end FrameBlock

namespace FrameAllocator

variable {frames : FrameAllocator} {lists : Nat → List Nat} {live : Set FrameBlock}

namespace Partitioned

variable (hframes : frames.Partitioned lists live)

include hframes

theorem vacant {block : FrameBlock} (hblock : block ∈ listed lists) :
    block.Vacant frames.frameCount live where
  order_le := hframes.paving.order_le block (Or.inl hblock)
  size_dvd := hframes.paving.size_dvd block (Or.inl hblock)
  end_le := hframes.paving.end_le block (Or.inl hblock)
  unused := fun other hother frame hframe hshared ↦ by
    have hsame := hframes.paving.unique block (Or.inl hblock) other (Or.inr hother) frame hframe
      hshared
    exact hframes.indexed.notMem_allocated hblock (hsame ▸ hother)

/-- Every frame of a vacant block is a frame of a free block. -/
theorem exists_listed {block : FrameBlock} (hvacant : block.Vacant frames.frameCount live)
    {frame : Nat} (hframe : block.Covers frame) :
    ∃ other ∈ listed lists, other.Covers frame := by
  obtain ⟨other, hother, hcovers⟩ :=
    hframes.paving.covered frame (hframe.2.trans_le hvacant.end_le)
  rcases hother with hfree | hlive
  · exact ⟨other, hfree, hcovers⟩
  · exact absurd hcovers (hvacant.unused other hlive frame hframe)

/-- A free block is no smaller than a vacant block around it. -/
theorem order_le_of_within {block outer : FrameBlock} (hblock : block ∈ listed lists)
    (hvacant : outer.Vacant frames.frameCount live) (hwithin : block.Within outer) :
    outer.order ≤ block.order := by
  -- the buddy lies in the larger block too, so it is free or made of smaller free blocks
  induction horder : block.order using Nat.strong_induction_on generalizing block with
  | _ order ih =>
    subst horder
    by_contra hlt
    rw [Nat.not_le] at hlt
    have hbuddy :=
      hwithin.buddy (hframes.paving.size_dvd block (Or.inl hblock)) hvacant.size_dvd hlt
    obtain ⟨other, hother, hcovers⟩ := hframes.exists_listed hvacant
      (hbuddy _ (FrameBlock.covers_start ⟨buddyOf block.start block.order, block.order⟩))
    obtain ⟨hstart, hle⟩ :=
      hframes.paving.start_eq_buddyOf (Or.inl hblock) (Or.inl hother) hcovers
    have hotherWithin : other.Within outer := by
      refine fun frame hframe ↦ hbuddy frame ?_
      have hpow : 2 ^ other.order ≤ 2 ^ block.order := Nat.pow_le_pow_right (by decide) hle
      simp only [FrameBlock.Covers, FrameBlock.size, hstart] at hframe ⊢
      omega
    rcases hle.lt_or_eq with hsmaller | hsame
    · exact absurd (ih other.order hsmaller hother hotherWithin rfl) (by omega)
    · refine hframes.merged block hblock (hlt.trans_le hvacant.order_le) ?_
      rw [← hstart, ← hsame]
      exact hother

/-- The free blocks are the vacant blocks that no other vacant block contains. -/
theorem mem_listed_iff {block : FrameBlock} :
    block ∈ listed lists ↔ block.MaximalVacant frames.frameCount live := by
  constructor
  · intro hblock
    refine ⟨hframes.vacant hblock, fun outer hvacant hwithin ↦ ?_⟩
    exact hwithin.eq (hframes.order_le_of_within hblock hvacant hwithin)
  · rintro ⟨hvacant, hmaximal⟩
    obtain ⟨other, hother, hcovers⟩ := hframes.exists_listed hvacant block.covers_start
    have hotherVacant := hframes.vacant hother
    rcases Nat.le_total block.order other.order with hle | hle
    · have hwithin := FrameBlock.within_of_covers hvacant.size_dvd hotherVacant.size_dvd hle
        block.covers_start hcovers
      rw [← hmaximal other hotherVacant hwithin]
      exact hother
    · have hwithin := FrameBlock.within_of_covers hotherVacant.size_dvd hvacant.size_dvd hle
        hcovers block.covers_start
      rw [hwithin.eq (hframes.order_le_of_within hother hvacant hwithin)]
      exact hother

end Partitioned

/-- The counts tell no more than which blocks are free. -/
theorem Indexed.freeCounts_eq {other : FrameAllocator} {more : Nat → List Nat}
    {otherLive : Set FrameBlock} (hframes : frames.Indexed lists live)
    (hother : other.Indexed more otherLive) (hlisted : listed lists = listed more) :
    frames.freeCounts = other.freeCounts := by
  have hlength : ∀ order < orderCount, (lists order).length = (more order).length := by
    intro order horder
    have hmem : ∀ node, node ∈ lists order ↔ node ∈ more order := by
      intro node
      constructor
      · intro hnode
        obtain ⟨frame, -, rfl⟩ := hframes.exists_of_mem horder hnode
        have hblock : (⟨frame, order⟩ : FrameBlock) ∈ listed lists := ⟨horder, hnode⟩
        exact (hlisted ▸ hblock).2
      · intro hnode
        obtain ⟨frame, -, rfl⟩ := hother.exists_of_mem horder hnode
        have hblock : (⟨frame, order⟩ : FrameBlock) ∈ listed more := ⟨horder, hnode⟩
        exact (hlisted ▸ hblock).2
    exact ((List.perm_ext_iff_of_nodup (hframes.listed_nodup horder)
      (hother.listed_nodup horder)).mpr hmem).length_eq
  refine Array.ext (hframes.counts_size.trans hother.counts_size.symm)
    fun order hsize hotherSize ↦ ?_
  have horder : order < orderCount := hframes.counts_size ▸ hsize
  have hsame := hframes.counts order horder
  rw [hlength order horder, ← hother.counts order horder, Array.getElem?_eq_getElem hsize,
    Array.getElem?_eq_getElem hotherSize] at hsame
  exact Option.some.inj hsame

end FrameAllocator

/-! ### Runs -/

namespace FramesInUse

variable {use after : FramesInUse} {lists : Nat → List Nat}

/-- A request that does not fault is for no number of frames beyond the last power of two. -/
theorem pages_le_of_step {pages : Nat} (hstep : use.step (.allocatePages pages) = .ok after) :
    pages ≤ 2 ^ 63 := by
  by_contra hgt
  rw [FramesInUse.step, FrameAllocator.allocatePages_of_gt (Nat.lt_of_not_le hgt)] at hstep
  cases hstep

namespace Held

variable (huse : use.Held lists)

include huse

/-- A call that does not fault leaves a partitioned pool. -/
theorem step_of_ok {call : FrameCall} (hstep : use.step call = .ok after) :
    ∃ more, after.Held more ∧ after.frames.frameCount = use.frames.frameCount := by
  have hcall : ∀ pages, call = .allocatePages pages → pages ≤ 2 ^ 63 := by
    rintro pages rfl
    exact pages_le_of_step hstep
  obtain ⟨other, more, hother, -, hcount, hheld⟩ := huse.step hcall
  obtain rfl : other = after := Except.ok.inj (hother.symm.trans hstep)
  exact ⟨more, hheld, hcount⟩

/-- A run that does not fault leaves a partitioned pool. -/
theorem run_of_ok {calls : List FrameCall} (hrun : use.run calls = .ok after) :
    ∃ more, after.Held more ∧ after.frames.frameCount = use.frames.frameCount := by
  induction calls generalizing use lists with
  | nil =>
    obtain rfl : use = after := Except.ok.inj hrun
    exact ⟨lists, huse, rfl⟩
  | cons call calls ih =>
    rw [FramesInUse.run, List.foldlM_cons] at hrun
    obtain ⟨first, hfirst, hrest⟩ := bind_eq_ok_iff.mp hrun
    obtain ⟨fewer, hheld, hcountFirst⟩ := huse.step_of_ok hfirst
    obtain ⟨more, hafter, hcount⟩ := ih hheld hrest
    exact ⟨more, hafter, hcount.trans hcountFirst⟩

/-- The live blocks can be freed in any order. -/
theorem run_free {starts : List Nat} (hstarts : starts.Perm (use.live.map FrameBlock.start)) :
    ∃ after more, use.run (starts.map .free) = .ok after ∧ after.live = [] ∧ after.Held more ∧
      after.frames.frameCount = use.frames.frameCount := by
  induction starts generalizing use lists with
  | nil => exact ⟨use, lists, rfl, List.map_eq_nil_iff.mp hstarts.nil_eq.symm, huse, rfl⟩
  | cons start starts ih =>
    have hnodup : (start :: starts).Nodup := by
      refine hstarts.nodup_iff.mpr (huse.nodup.map_on fun first hfirst second hsecond heq ↦ ?_)
      exact huse.partitioned.paving.eq_of_start_eq (Or.inr hfirst) (Or.inr hsecond) heq
    obtain ⟨block, hlive, hblock⟩ := List.mem_map.mp (hstarts.mem_iff.mp List.mem_cons_self)
    obtain ⟨frames, hfree, -⟩ := huse.partitioned.free_of_mem hlive
    rw [hblock] at hfree
    have hstep : use.step (.free start) =
        .ok ⟨frames, use.live.filter fun block ↦ block.start ≠ start⟩ := by
      rw [FramesInUse.step, hfree]
      rfl
    obtain ⟨fewer, hheld, hcountFirst⟩ := huse.step_of_ok hstep
    have hrest : starts.Perm
        ((use.live.filter fun block ↦ block.start ≠ start).map FrameBlock.start) := by
      have hfilter := hstarts.filter (· ≠ start)
      rw [List.filter_map, List.filter_cons_of_neg (by simp), List.filter_eq_self.mpr] at hfilter
      · exact hfilter
      · intro other hother
        rw [decide_eq_true_eq]
        rintro rfl
        exact (List.nodup_cons.mp hnodup).1 hother
    obtain ⟨after, more, hafter, hempty, hheldAfter, hcount⟩ := ih hheld hrest
    refine ⟨after, more, ?_, hempty, hheldAfter, hcount.trans hcountFirst⟩
    rw [List.map_cons, FramesInUse.run, List.foldlM_cons, hstep]
    exact hafter

/-- The free blocks are told by the live ones. -/
theorem onFreeList_iff {block : FrameBlock} : use.frames.OnFreeList block ↔
    block.MaximalVacant use.frames.frameCount {block | block ∈ use.live} :=
  huse.partitioned.indexed.onFreeList_iff.trans huse.partitioned.mem_listed_iff

/-- With the same live blocks the counts are the same. -/
theorem freeCounts_eq {other : FramesInUse} {more : Nat → List Nat} (hother : other.Held more)
    (hcount : use.frames.frameCount = other.frames.frameCount)
    (hlive : ∀ block, block ∈ use.live ↔ block ∈ other.live) :
    use.frames.freeCounts = other.frames.freeCounts := by
  refine huse.partitioned.indexed.freeCounts_eq hother.partitioned.indexed ?_
  ext block
  rw [huse.partitioned.mem_listed_iff, hother.partitioned.mem_listed_iff, hcount]
  simp only [hlive]

end Held

/-- A new pool without live blocks is partitioned. -/
theorem held_ofFrames {base count : Nat} {frames : FrameAllocator}
    (hframes : FrameAllocator.ofFrames base count = .ok frames) :
    ∃ lists, (⟨frames, []⟩ : FramesInUse).Held lists ∧ frames.base = base ∧
      frames.frameCount = count := by
  obtain ⟨other, lists, hother, hbase, hcount, hpartitioned, -⟩ :=
    FrameAllocator.ofFrames_partitioned base count
  obtain rfl : other = frames := Except.ok.inj (hother.symm.trans hframes)
  refine ⟨lists, ⟨?_, List.nodup_nil⟩, hbase, hcount⟩
  convert hpartitioned using 1
  ext block
  exact iff_of_false List.not_mem_nil (Set.notMem_empty _)

variable {base otherBase count : Nat} {frames otherFrames : FrameAllocator} {other : FramesInUse}
  {calls otherCalls : List FrameCall}

/-- After any run the free blocks are the largest vacant ones. Two runs that end with the same live
blocks end with the same free blocks, and once all live blocks are freed, in any order, the counts
are those of the new pool. -/
theorem free_blocks_canonical (hframes : FrameAllocator.ofFrames base count = .ok frames)
    (hotherFrames : FrameAllocator.ofFrames otherBase count = .ok otherFrames)
    (huse : run ⟨frames, []⟩ calls = .ok use)
    (hother : run ⟨otherFrames, []⟩ otherCalls = .ok other) :
    (∀ block, use.frames.OnFreeList block ↔
      block.MaximalVacant count {block | block ∈ use.live}) ∧
    ((∀ block, block ∈ use.live ↔ block ∈ other.live) →
      (∀ block, use.frames.OnFreeList block ↔ other.frames.OnFreeList block) ∧
      use.frames.freeCounts = other.frames.freeCounts) ∧
    ∀ starts : List Nat, starts.Perm (use.live.map FrameBlock.start) →
      ∃ after, run use (starts.map .free) = .ok after ∧ after.live = [] ∧
        after.frames.freeCounts = frames.freeCounts := by
  obtain ⟨lists, hnew, -, hcountNew⟩ := held_ofFrames hframes
  obtain ⟨otherLists, hotherNew, -, hotherCountNew⟩ := held_ofFrames hotherFrames
  obtain ⟨more, hheld, hcountUse⟩ := hnew.run_of_ok huse
  obtain ⟨otherMore, hotherHeld, hotherCountUse⟩ := hotherNew.run_of_ok hother
  have hcount : use.frames.frameCount = count := hcountUse.trans hcountNew
  have hotherCount : other.frames.frameCount = count := hotherCountUse.trans hotherCountNew
  refine ⟨fun block ↦ hcount ▸ hheld.onFreeList_iff, fun hlive ↦ ⟨fun block ↦ ?_, ?_⟩,
    fun starts hstarts ↦ ?_⟩
  · rw [hheld.onFreeList_iff, hotherHeld.onFreeList_iff, hcount, hotherCount]
    simp only [hlive]
  · exact hheld.freeCounts_eq hotherHeld (hcount.trans hotherCount.symm) hlive
  · obtain ⟨after, least, hafter, hempty, hheldAfter, hcountAfter⟩ := hheld.run_free hstarts
    refine ⟨after, hafter, hempty, hheldAfter.freeCounts_eq hnew (hcountAfter.trans hcountUse) ?_⟩
    intro block
    rw [hempty]

/-- The last of three frames is taken at once, or after the two others were taken that are given
back then. -/
theorem free_blocks_canonical_three : ∃ frames use other after,
    FrameAllocator.ofFrames 4096 3 = .ok frames ∧ run ⟨frames, []⟩ [.allocate 0] = .ok use ∧
    run ⟨frames, []⟩ [.allocatePages 2, .allocate 0, .free 0] = .ok other ∧
    use.live = [⟨2, 0⟩] ∧ other.live = [⟨2, 0⟩] ∧
    use.frames.OnFreeList ⟨0, 1⟩ ∧ other.frames.OnFreeList ⟨0, 1⟩ ∧
    use.frames.freeCounts = other.frames.freeCounts ∧
    run other [.free 2] = .ok after ∧ after.frames.freeCounts = frames.freeCounts := by
  obtain ⟨frames, use, other, hframes, huse, hother, hlive, hotherLive, hfree⟩ :
      ∃ frames use other, FrameAllocator.ofFrames 4096 3 = .ok frames ∧
        run ⟨frames, []⟩ [.allocate 0] = .ok use ∧
        run ⟨frames, []⟩ [.allocatePages 2, .allocate 0, .free 0] = .ok other ∧
        use.live = [⟨2, 0⟩] ∧ other.live = [⟨2, 0⟩] ∧ use.frames.freeBlocks 1 = .ok [⟨0, 1⟩] :=
    ⟨_, _, _, FrameAllocator.ofFrames_eq rfl, rfl, rfl, rfl, rfl, rfl⟩
  have honList : use.frames.OnFreeList ⟨0, 1⟩ := ⟨by decide, _, hfree, List.mem_singleton_self _⟩
  obtain ⟨-, hsame, -⟩ := free_blocks_canonical hframes hframes huse hother
  obtain ⟨-, -, hall⟩ := free_blocks_canonical hframes hframes hother huse
  obtain ⟨hblocks, hcounts⟩ := hsame fun block ↦ by rw [hlive, hotherLive]
  obtain ⟨after, hafter, -, hnew⟩ := hall [2] (by rw [hotherLive]; exact List.Perm.refl _)
  exact ⟨frames, use, other, after, hframes, huse, hother, hlive, hotherLive, honList,
    (hblocks _).mp honList, hcounts, hafter, hnew⟩

end FramesInUse

end KernelMemory
