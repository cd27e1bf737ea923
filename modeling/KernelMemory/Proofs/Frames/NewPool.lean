import KernelMemory.Proofs.Frames.Pool

/-!
# New pools

A new pool is filled in turn with the blocks of its decomposition, from the first frame to the last.
That is the decomposition of the number of frames into powers of two: as many of the largest blocks
as fit, and one block of another order just if the number has the bit for it
(`FrameAllocator.length_filter_decompose`). So the counts of a new pool are read off its number of
frames (`FramePool.filled_in_turn`).
-/

set_option autoImplicit false
set_option relaxedAutoImplicit false

namespace KernelMemory

theorem Consecutive.nodup {blocks : List FrameBlock} {start stop : Nat}
    (hblocks : Consecutive blocks start stop) : blocks.Nodup := by
  refine hblocks.pairwise.imp fun {first second} hle ↦ ?_
  rintro rfl
  have hpos := first.size_pos
  omega

namespace FrameAllocator

variable {frames : FrameAllocator} {lists : Nat → List Nat} {live : Set FrameBlock}
  {start count order orders : Nat}

/-! ### Numbers of blocks -/

/-- The larger blocks come first. -/
theorem pairwise_decompose : (decompose start count orders).Pairwise
    fun first second ↦ second.order ≤ first.order := by
  induction orders generalizing start count with
  | zero => exact List.Pairwise.nil
  | succ order ih =>
    refine List.pairwise_append.mpr ⟨?_, ih, fun first hfirst second hsecond ↦ ?_⟩
    · exact List.pairwise_map.mpr (List.pairwise_of_forall fun _ _ ↦ Nat.le_refl order)
    · obtain ⟨number, -, rfl⟩ := List.mem_map.mp hfirst
      exact (order_lt_of_mem_decompose hsecond).le

/-- The frames left by the larger orders tell a bit as all frames do. -/
theorem testBit_toNat_mod (hlt : order < orders) :
    ((count % 2 ^ orders).testBit order).toNat = (count.testBit order).toNat := by
  rw [Nat.testBit_mod_two_pow, decide_eq_true hlt, Bool.true_and]

/-- There are as many blocks of the largest order as fit, and one of another order just if the
number of frames has its bit. -/
theorem length_filter_decompose (hlt : order < orders) :
    ((decompose start count orders).filter fun block ↦ block.order = order).length =
      if order + 1 = orders then count / 2 ^ order else (count.testBit order).toNat := by
  induction orders generalizing start count with
  | zero => exact absurd hlt (Nat.not_lt_zero order)
  | succ largest ih =>
    rw [decompose, List.filter_append, List.length_append]
    rcases (Nat.le_of_lt_succ hlt).eq_or_lt with rfl | hsmaller
    · have hall : ((List.range (count / 2 ^ order)).map fun number ↦
          (⟨start + number * 2 ^ order, order⟩ : FrameBlock)).filter
            (fun block ↦ block.order = order) = _ :=
        List.filter_eq_self.mpr fun block hblock ↦ by
          obtain ⟨number, -, rfl⟩ := List.mem_map.mp hblock
          exact decide_eq_true rfl
      have hnone : (decompose (start + count / 2 ^ order * 2 ^ order) (count % 2 ^ order)
          order).filter (fun block ↦ block.order = order) = [] :=
        List.filter_eq_nil_iff.mpr fun block hblock ↦ by
          simpa using (order_lt_of_mem_decompose hblock).ne
      rw [hall, hnone, if_pos rfl, List.length_map, List.length_range]
      rfl
    · have hnone : ((List.range (count / 2 ^ largest)).map fun number ↦
          (⟨start + number * 2 ^ largest, largest⟩ : FrameBlock)).filter
            (fun block ↦ block.order = order) = [] :=
        List.filter_eq_nil_iff.mpr fun block hblock ↦ by
          obtain ⟨number, -, rfl⟩ := List.mem_map.mp hblock
          simpa using hsmaller.ne'
      have hne : order + 1 ≠ largest + 1 := (Nat.succ_lt_succ hsmaller).ne
      rw [hnone, ih hsmaller, if_neg hne, List.length_nil, Nat.zero_add]
      split_ifs with hnext
      · -- what is left is less than two blocks of this order
        subst hnext
        have hfew : count % 2 ^ (order + 1) / 2 ^ order < 2 :=
          Nat.div_lt_of_lt_mul (by rw [← pow_succ]; exact Nat.mod_lt _ (Nat.two_pow_pos _))
        rw [← testBit_toNat_mod (Nat.lt_succ_self order), Nat.toNat_testBit,
          Nat.mod_eq_of_lt hfew]
      · exact testBit_toNat_mod hsmaller

/-- The number of free blocks of an order is read off the blocks that are listed. -/
theorem Indexed.freeCount_eq_length_filter (hframes : frames.Indexed lists live)
    {blocks : List FrameBlock} (hlisted : listed lists = {block | block ∈ blocks})
    (hnodup : blocks.Nodup) (horder : order < orderCount) : frames.freeCount order =
      .ok (blocks.filter fun block ↦ block.order = order).length := by
  have hperm := (List.perm_ext_iff_of_nodup (hframes.nodup_map horder)
    (hnodup.filter fun block ↦ decide (block.order = order))).mpr fun block ↦ by
      rw [hframes.mem_map_iff horder, hlisted, List.mem_filter, decide_eq_true_eq, and_comm]
      rfl
  rw [hframes.freeCount_eq horder, ← hperm.length_eq, List.length_map]

/-- All frames of a pool without live blocks are free. -/
theorem Indexed.exists_free_record (hframes : frames.Indexed lists ∅) {frame : Nat}
    (hframe : frame < frames.frameCount) :
    ∃ order, frames.records[frame]? = some { order, status := .free } := by
  obtain ⟨⟨order, status⟩, hrecord⟩ : ∃ record, frames.records[frame]? = some record :=
    ⟨_, Array.getElem?_eq_getElem hframe⟩
  cases status with
  | free => exact ⟨order, hrecord⟩
  | allocated =>
    exact absurd ((hframes.allocated_record frame order).mp hrecord) (Set.notMem_empty _)

end FrameAllocator

/-! ### Pools that are set up -/

/-- Notices are noted one after the other. -/
theorem Act.forM_note_run {σ α : Type} (values : List α) (notice : α → Notice) (state : σ) :
    (values.forM fun value ↦ note (notice value) : Act σ PUnit) state =
      ⟨.ok (.ok ()), state, values.map fun value ↦ .noted (notice value)⟩ := by
  induction values with
  | nil => rfl
  | cons value values ih =>
    have hfirst : (note (notice value) : Act σ Unit) state =
        ⟨.ok (.ok ()), state, [.noted (notice value)]⟩ := rfl
    rw [List.forM, bind_run_of_value hfirst, ih]
    rfl

namespace FramePool

open FrameAllocator

/-- A pool that is set up notes its blocks in the order in which they were added. -/
theorem create_run {σ : Type} {base count : Nat} {blocks : List FrameBlock}
    {frames : FrameAllocator} (hplace : checkPlace base count = .ok (.ok ()))
    (hfill : fill base count = .ok (blocks, frames)) (state : σ) :
    create base count state = ⟨.ok (.ok frames), state, blocks.map fun block ↦
      .noted (.framesAdded block.start block.order)⟩ := by
  unfold create
  rw [Act.bind_run_of_silent (Act.liftM_checked_run hplace state), hfill, Act.lift_ok_bind_run]
  dsimp only
  rw [Act.bind_run_of_value (Act.forM_note_run _ _ _)]
  simp only [Act.pure_run, List.append_nil]

/-- A pool that fits between an address of a frame and the end of the words is set up without a
fault, and nothing of it is allocated. It is filled in turn with the blocks of its decomposition:
these lie one after another from the first frame to the last, the larger ones first, each at a
multiple of its size and without a free buddy. The number of the largest blocks is that of how often
they fit, and of every other order there is a block just if the number of frames has its bit. -/
theorem filled_in_turn {base count : Nat} (hbase : base % frameSize = 0)
    (hend : base + count * frameSize < Word.limit) :
    ∃ frames, ofFrames base count = .ok frames ∧ withBase base count = .ok (.ok frames) ∧
      addFrom count (unlisted base count) 0 orderCount = .ok (initialBlocks count, frames) ∧
      (∀ (σ : Type) (state : σ), create base count state =
        ⟨.ok (.ok frames), state, (initialBlocks count).map fun block ↦
          .noted (.framesAdded block.start block.order)⟩) ∧
      frames.base = base ∧ frames.frameCount = count ∧ frames.allocatedBytes = 0 ∧
      (∀ frame < count, ∃ order, frames.records[frame]? = some { order, status := .free }) ∧
      frames.freeCount topOrder = .ok (count / 2 ^ topOrder) ∧
      (∀ order < topOrder, frames.freeCount order = .ok (count.testBit order).toNat) ∧
      Consecutive (initialBlocks count) 0 count ∧
      ((initialBlocks count).Pairwise fun first second ↦ second.order ≤ first.order) ∧
      (∀ block, frames.OnFreeList block ↔ block ∈ initialBlocks count) ∧
      ∀ block ∈ initialBlocks count, block.size ∣ block.start ∧
        (block.order < topOrder →
          ¬ frames.OnFreeList ⟨buddyOf block.start block.order, block.order⟩) := by
  obtain ⟨frames, lists, hfill, hbaseEq, rfl, hpartitioned, hlisted⟩ :=
    fill_partitioned base count
  have hframes := ofFrames_of_fill hfill
  have hwith : withBase base frames.frameCount = .ok (.ok frames) := by
    rw [withBase_eq_ofFrames hbase hend, hframes]
    rfl
  have hindexed := hpartitioned.indexed
  have hconsecutive := consecutive_initialBlocks frames.frameCount
  have hcount : ∀ order < orderCount, frames.freeCount order =
      .ok (if order + 1 = orderCount then frames.frameCount / 2 ^ order
        else (frames.frameCount.testBit order).toNat) := fun order horder ↦ by
    rw [hindexed.freeCount_eq_length_filter hlisted hconsecutive.nodup horder, initialBlocks,
      length_filter_decompose horder]
  have hfree : ∀ block, frames.OnFreeList block ↔ block ∈ initialBlocks frames.frameCount :=
    fun block ↦ hindexed.onFreeList_iff.trans (Set.ext_iff.mp hlisted block)
  have hbytes := hpartitioned.freeBytes_add_eq
    (fun block ↦ iff_of_false List.not_mem_nil (Set.notMem_empty block)) List.nodup_nil
  refine ⟨frames, hframes, hwith, hfill,
    fun _ state ↦ create_run (checkPlace_eq_ok hbase hend) hfill state, hbaseEq, rfl, ?_,
    fun frame hframe ↦ hindexed.exists_free_record hframe, hcount topOrder (by decide),
    fun order horder ↦ ?_, hconsecutive, pairwise_decompose, hfree, fun block hblock ↦ ⟨?_, ?_⟩⟩
  · rw [allocatedBytes, ← hbytes, List.map_nil, List.sum_nil, Nat.add_zero, Nat.sub_self]
  · have hne : order + 1 ≠ orderCount := (Nat.succ_lt_succ horder).ne
    rw [hcount order (Nat.lt_succ_of_lt horder), if_neg hne]
  · exact (paving_initialBlocks frames.frameCount).size_dvd block hblock
  · intro horder hbuddy
    have hmem : block ∈ listed lists := hlisted ▸ hblock
    exact hpartitioned.merged block hmem horder (hindexed.onFreeList_iff.mp hbuddy)

/-- Two of the largest blocks and one each of five, two, one and zero. -/
theorem filled_in_turn_of_largest :
    4096 % frameSize = 0 ∧ 4096 + 2087 * frameSize < Word.limit ∧
    ∃ frames, withBase 4096 2087 = .ok (.ok frames) ∧ frames.freeCount 10 = .ok 2 ∧
      frames.freeCount 5 = .ok 1 ∧ frames.freeCount 3 = .ok 0 ∧
      frames.OnFreeList ⟨1024, 10⟩ ∧ frames.OnFreeList ⟨2086, 0⟩ := by
  have hbase : 4096 % frameSize = 0 := by decide
  have hend : 4096 + 2087 * frameSize < Word.limit := by decide
  obtain ⟨frames, -, hwith, -, -, -, -, -, -, htop, hother, -, -, hfree, -⟩ :=
    filled_in_turn hbase hend
  exact ⟨hbase, hend, frames, hwith, htop, hother 5 (by decide), hother 3 (by decide),
    (hfree _).mpr (by decide +kernel), (hfree _).mpr (by decide +kernel)⟩

end FramePool

end KernelMemory
