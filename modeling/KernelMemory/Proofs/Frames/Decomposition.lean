import KernelMemory.Proofs.Frames.Partition

/-!
# The blocks of a new pool

A pool is filled from its first frame on: of each order, the largest first, blocks are added as
long as one fits before the end. So it consists of as many of the largest blocks as fit, followed
by at most one block of every other order (`FrameAllocator.decompose`), and the loop that fills it
comes to its end with just these (`addFrom_eq`).

The blocks lie one after another (`Consecutive`), so they pave the pool, and no two of them are
buddies of an order that is not the largest (`eq_of_mem_decompose`). They are free once each is put
on its list (`Indexed.pushAll`), which makes a new pool a partitioned one without live blocks
(`fill_partitioned`).
-/

set_option autoImplicit false
set_option relaxedAutoImplicit false

namespace KernelMemory

/-! ### Consecutive blocks -/

/-- Each block starts where the one before it ends. -/
def Consecutive : List FrameBlock → (start stop : Nat) → Prop
  | [], start, stop => start = stop
  | block :: blocks, start, stop =>
    block.start = start ∧ Consecutive blocks (start + block.size) stop

namespace Consecutive

variable {blocks : List FrameBlock} {start stop : Nat}

theorem le (hblocks : Consecutive blocks start stop) : start ≤ stop := by
  induction blocks generalizing start with
  | nil => exact Nat.le_of_eq hblocks
  | cons block blocks ih => exact (Nat.le_add_right start block.size).trans (ih hblocks.2)

theorem append {more : List FrameBlock} {middle : Nat} (hblocks : Consecutive blocks start middle)
    (hmore : Consecutive more middle stop) : Consecutive (blocks ++ more) start stop := by
  induction blocks generalizing start with
  | nil =>
    obtain rfl : start = middle := hblocks
    exact hmore
  | cons block blocks ih => exact ⟨hblocks.1, ih hblocks.2⟩

theorem bounds (hblocks : Consecutive blocks start stop) {block : FrameBlock}
    (hblock : block ∈ blocks) : start ≤ block.start ∧ block.start + block.size ≤ stop := by
  induction blocks generalizing start with
  | nil => exact absurd hblock List.not_mem_nil
  | cons first blocks ih =>
    obtain ⟨rfl, hrest⟩ := hblocks
    rcases List.mem_cons.mp hblock with rfl | hmem
    · exact ⟨Nat.le_refl _, hrest.le⟩
    · have hbounds := ih hrest hmem
      omega

theorem pairwise (hblocks : Consecutive blocks start stop) :
    blocks.Pairwise fun first second ↦ first.start + first.size ≤ second.start := by
  induction blocks generalizing start with
  | nil => exact List.Pairwise.nil
  | cons block blocks ih =>
    obtain ⟨rfl, hrest⟩ := hblocks
    exact List.pairwise_cons.mpr ⟨fun other hother ↦ (hrest.bounds hother).1, ih hrest⟩

theorem covered (hblocks : Consecutive blocks start stop) {frame : Nat} (hstart : start ≤ frame)
    (hstop : frame < stop) : ∃ block ∈ blocks, block.Covers frame := by
  induction blocks generalizing start with
  | nil =>
    obtain rfl : start = stop := hblocks
    omega
  | cons block blocks ih =>
    obtain ⟨rfl, hrest⟩ := hblocks
    by_cases hlt : frame < block.start + block.size
    · exact ⟨block, List.mem_cons_self, hstart, hlt⟩
    · obtain ⟨other, hother, hcovers⟩ := ih hrest (Nat.le_of_not_lt hlt)
      exact ⟨other, List.mem_cons_of_mem _ hother, hcovers⟩

theorem unique (hblocks : Consecutive blocks start stop) {first second : FrameBlock}
    (hfirst : first ∈ blocks) (hsecond : second ∈ blocks) {frame : Nat}
    (hcoverFirst : first.Covers frame) (hcoverSecond : second.Covers frame) : first = second := by
  induction blocks generalizing start with
  | nil => exact absurd hfirst List.not_mem_nil
  | cons block blocks ih =>
    obtain ⟨rfl, hrest⟩ := hblocks
    rcases List.mem_cons.mp hfirst with rfl | hmemFirst <;>
      rcases List.mem_cons.mp hsecond with rfl | hmemSecond
    · rfl
    · exact absurd (hrest.bounds hmemSecond).1
        (Nat.not_le.mpr (hcoverSecond.1.trans_lt hcoverFirst.2))
    · exact absurd (hrest.bounds hmemFirst).1
        (Nat.not_le.mpr (hcoverFirst.1.trans_lt hcoverSecond.2))
    · exact ih hrest hmemFirst hmemSecond

/-- Blocks of one order that lie one after another. -/
theorem map_range (start order number : Nat) :
    Consecutive ((List.range number).map fun index ↦ ⟨start + index * 2 ^ order, order⟩) start
      (start + number * 2 ^ order) := by
  induction number with
  | zero => simp [Consecutive]
  | succ number ih =>
    rw [List.range_succ, List.map_append]
    refine ih.append ⟨rfl, ?_⟩
    simp only [List.map_nil, Consecutive, FrameBlock.size]
    ring

end Consecutive

namespace FrameAllocator

/-! ### Decomposition of a pool -/

/-- The blocks of which a pool consists at first, from a start on: as many as fit of every order,
the largest first. -/
def decompose (start count : Nat) : (orders : Nat) → List FrameBlock
  | 0 => []
  | order + 1 =>
    let size := 2 ^ order
    let blocks := (List.range (count / size)).map fun number ↦ ⟨start + number * size, order⟩
    blocks ++ decompose (start + count / size * size) (count % size) order

/-- The free blocks of a new pool. -/
def initialBlocks (count : Nat) : List FrameBlock := decompose 0 count orderCount

/-- With no order left there are no frames left. -/
theorem consecutive_decompose {start count orders : Nat} (hnone : orders = 0 → count = 0) :
    Consecutive (decompose start count orders) start (start + count) := by
  induction orders generalizing start count with
  | zero => simp [decompose, Consecutive, hnone rfl]
  | succ order ih =>
    have hrest := @ih (start + count / 2 ^ order * 2 ^ order) (count % 2 ^ order) (by
      rintro rfl
      rw [pow_zero, Nat.mod_one])
    rw [Nat.add_assoc, Nat.div_add_mod' count (2 ^ order)] at hrest
    exact (Consecutive.map_range start order (count / 2 ^ order)).append hrest

theorem mem_decompose_succ_iff {start count order : Nat} {block : FrameBlock} :
    block ∈ decompose start count (order + 1) ↔
      (∃ number < count / 2 ^ order, block = ⟨start + number * 2 ^ order, order⟩) ∨
        block ∈ decompose (start + count / 2 ^ order * 2 ^ order) (count % 2 ^ order) order := by
  simp only [decompose, List.mem_append, List.mem_map, List.mem_range, eq_comm]

theorem order_lt_of_mem_decompose {start count orders : Nat} {block : FrameBlock}
    (hblock : block ∈ decompose start count orders) : block.order < orders := by
  induction orders generalizing start count with
  | zero => exact absurd hblock List.not_mem_nil
  | succ order ih =>
    rcases mem_decompose_succ_iff.mp hblock with ⟨number, -, rfl⟩ | hmem
    · exact Nat.lt_succ_self order
    · exact (ih hmem).trans (Nat.lt_succ_self order)

theorem size_dvd_of_mem_decompose {start count orders : Nat} {block : FrameBlock}
    (hstart : 2 ^ (orders - 1) ∣ start) (hblock : block ∈ decompose start count orders) :
    block.size ∣ block.start := by
  induction orders generalizing start count with
  | zero => exact absurd hblock List.not_mem_nil
  | succ order ih =>
    rw [Nat.add_sub_cancel] at hstart
    rcases mem_decompose_succ_iff.mp hblock with ⟨number, -, rfl⟩ | hmem
    · exact Nat.dvd_add hstart (Nat.dvd_mul_left _ _)
    · refine ih (dvd_trans (pow_dvd_pow 2 (Nat.sub_le order 1)) ?_) hmem
      exact Nat.dvd_add hstart (Nat.dvd_mul_left _ _)

/-- There is at most one block of every order but the largest, and of that one too if there are
too few frames for two. -/
theorem eq_of_mem_decompose {start count orders : Nat} {first second : FrameBlock}
    (hfirst : first ∈ decompose start count orders)
    (hsecond : second ∈ decompose start count orders) (horder : first.order = second.order)
    (hfew : first.order + 1 < orders ∨ count < 2 ^ orders) : first = second := by
  induction orders generalizing start count with
  | zero => exact absurd hfirst List.not_mem_nil
  | succ order ih =>
    rcases mem_decompose_succ_iff.mp hfirst with ⟨p, hp, rfl⟩ | hmemFirst <;>
      rcases mem_decompose_succ_iff.mp hsecond with ⟨q, hq, rfl⟩ | hmemSecond
    · have hcount : count < 2 ^ (order + 1) := hfew.resolve_left (Nat.lt_irrefl _)
      have hone : count / 2 ^ order < 2 := Nat.div_lt_of_lt_mul (by rwa [← pow_succ])
      obtain rfl : p = q := by omega
      rfl
    · exact absurd (order_lt_of_mem_decompose hmemSecond) (Nat.not_lt.mpr (Nat.le_of_eq horder))
    · exact absurd (order_lt_of_mem_decompose hmemFirst)
        (Nat.not_lt.mpr (Nat.le_of_eq horder.symm))
    · exact ih hmemFirst hmemSecond (Or.inr (Nat.mod_lt _ (Nat.two_pow_pos order)))

/-- No block of an order is left if there are too few frames for one. -/
theorem decompose_of_lt {start count order : Nat} (hfew : count < 2 ^ order) :
    decompose start count (order + 1) = decompose start count order := by
  simp only [decompose, Nat.div_eq_of_lt hfew, Nat.mod_eq_of_lt hfew, List.range_zero,
    List.map_nil, List.nil_append, Nat.zero_mul, Nat.add_zero]

/-- A block that fits comes first, and the other frames follow it. -/
theorem decompose_of_le {start count order : Nat} (hfits : 2 ^ order ≤ count) :
    decompose start count (order + 1) = ⟨start, order⟩ ::
      decompose (start + 2 ^ order) (count - 2 ^ order) (order + 1) := by
  have hpos := Nat.two_pow_pos order
  obtain ⟨rest, rfl⟩ := Nat.exists_eq_add_of_le hfits
  have hdiv : (2 ^ order + rest) / 2 ^ order = rest / 2 ^ order + 1 := by
    rw [Nat.add_comm, Nat.add_div_right rest hpos]
  have hstart : ∀ number, start + (number + 1) * 2 ^ order =
      start + 2 ^ order + number * 2 ^ order := fun number ↦ by ring
  simp only [decompose, hdiv, Nat.add_mod_left, Nat.add_sub_cancel_left, List.range_succ_eq_map,
    List.map_cons, List.map_map, Function.comp_def, hstart, Nat.zero_mul, Nat.add_zero,
    List.cons_append]

theorem consecutive_initialBlocks (count : Nat) : Consecutive (initialBlocks count) 0 count := by
  have hblocks := @consecutive_decompose 0 count orderCount (fun hzero ↦ absurd hzero (by decide))
  rwa [Nat.zero_add] at hblocks

theorem paving_initialBlocks (count : Nat) :
    Paving count {block | block ∈ initialBlocks count} where
  order_le := fun _ hblock ↦ Nat.le_of_lt_succ (order_lt_of_mem_decompose hblock)
  size_dvd := fun _ hblock ↦ size_dvd_of_mem_decompose (dvd_zero _) hblock
  end_le := fun _ hblock ↦ ((consecutive_initialBlocks count).bounds hblock).2
  covered := fun _ hframe ↦ (consecutive_initialBlocks count).covered (Nat.zero_le _) hframe
  unique := fun _ hfirst _ hsecond _ ↦ (consecutive_initialBlocks count).unique hfirst hsecond

/-! ### New pools -/

/-- The blocks are put on their lists, one after the other. -/
def pushAll (frames : FrameAllocator) (blocks : List FrameBlock) : Except Fault FrameAllocator :=
  blocks.foldlM (fun frames block ↦ frames.pushFree block.start block.order) frames

theorem pushAll_cons {frames first : FrameAllocator} {block : FrameBlock}
    (hfirst : frames.pushFree block.start block.order = .ok first) (blocks : List FrameBlock) :
    frames.pushAll (block :: blocks) = first.pushAll blocks := by
  rw [pushAll, List.foldlM_cons, hfirst, ok_bind, pushAll]

/-- What is added from a start on is the decomposition of the frames behind it. -/
theorem addFrom_eq {frames : FrameAllocator} {start count orders : Nat} (hstart : start ≤ count) :
    addFrom count frames start orders = do
      let after ← frames.pushAll (decompose start (count - start) orders)
      return (decompose start (count - start) orders, after) := by
  fun_induction addFrom count frames start orders with
  | case1 => rfl
  | case2 frames start order fault hrest =>
    rw [Word.sub, if_pos hstart] at hrest
    cases hrest
  | case3 frames start order rest hrest hfits _ ih =>
    obtain rfl := Word.eq_of_sub_eq_ok hrest
    rw [decompose_of_le hfits, pushAll, List.foldlM_cons, bind_assoc]
    refine bind_congr fun added ↦ ?_
    rw [ih added (by omega), Nat.sub_add_eq, bind_assoc]
    rfl
  | case4 frames start order rest hrest hfits ih =>
    obtain rfl := Word.eq_of_sub_eq_ok hrest
    rw [decompose_of_lt (Nat.lt_of_not_le hfits), ih hstart]

/-- A pool is filled by putting the blocks of its decomposition on their lists. -/
theorem fill_eq {base count : Nat} {frames : FrameAllocator}
    (hframes : (unlisted base count).pushAll (initialBlocks count) = .ok frames) :
    fill base count = .ok (initialBlocks count, frames) := by
  rw [fill, addFrom_eq (Nat.zero_le count)]
  exact bind_eq_ok_iff.mpr ⟨frames, hframes, rfl⟩

theorem ofFrames_of_fill {base count : Nat} {blocks : List FrameBlock} {frames : FrameAllocator}
    (hfill : fill base count = .ok (blocks, frames)) : ofFrames base count = .ok frames :=
  bind_eq_ok_iff.mpr ⟨_, hfill, rfl⟩

theorem ofFrames_eq {base count : Nat} {frames : FrameAllocator}
    (hframes : (unlisted base count).pushAll (initialBlocks count) = .ok frames) :
    ofFrames base count = .ok frames :=
  ofFrames_of_fill (fill_eq hframes)

theorem unlisted_indexed (base count : Nat) : (unlisted base count).Indexed (fun _ ↦ []) ∅ where
  rings := Rings.holds_alone (Nat.le_add_right orderCount count)
  rings_size := by
    simp only [unlisted, frameCount, Rings.size_alone, List.size_toArray, List.length_replicate]
  counts_size := by simp only [unlisted, List.size_toArray, List.length_replicate]
  counts := fun order horder ↦ by simp [unlisted, horder]
  free_record := fun _ hblock ↦ absurd hblock.2 List.not_mem_nil
  allocated_record := fun frame order ↦ by
    refine iff_of_false (fun hrecord ↦ ?_) (Set.notMem_empty _)
    simp only [unlisted, List.getElem?_toArray, List.getElem?_replicate] at hrecord
    split_ifs at hrecord
    simp at hrecord

/-- Blocks that lie one after another can be put on their lists in turn. -/
theorem Indexed.pushAll {frames : FrameAllocator} {lists : Nat → List Nat}
    (hframes : frames.Indexed lists ∅) {blocks : List FrameBlock}
    (horder : ∀ block ∈ blocks, block.order < orderCount)
    (hstart : ∀ block ∈ blocks, block.start < frames.frameCount)
    (hapart : blocks.Pairwise fun first second ↦ first.start + first.size ≤ second.start)
    (hfresh : ∀ block ∈ blocks, ∀ order, ⟨block.start, order⟩ ∉ listed lists) :
    ∃ after more, frames.pushAll blocks = .ok after ∧ after.base = frames.base ∧
      after.frameCount = frames.frameCount ∧ after.Indexed more ∅ ∧
      listed more = listed lists ∪ {block | block ∈ blocks} := by
  induction blocks generalizing frames lists with
  | nil => exact ⟨frames, lists, rfl, rfl, rfl, hframes, by simp⟩
  | cons block blocks ih =>
    have hmem : block ∈ block :: blocks := List.mem_cons_self
    obtain ⟨first, hfirst, hbaseFirst, hcountFirst, hindexed⟩ := hframes.pushFree
      (horder block hmem) (hstart block hmem) (hfresh block hmem) fun _ ↦ Set.notMem_empty _
    have hmore := @listed_insert lists block.order (horder block hmem) block.start
    rw [List.pairwise_cons] at hapart
    obtain ⟨after, more, hafter, hbase, hcount, hindexedAfter, hlisted⟩ := ih hindexed
      (fun other hother ↦ horder other (List.mem_cons_of_mem _ hother))
      (fun other hother ↦ hcountFirst ▸ hstart other (List.mem_cons_of_mem _ hother)) hapart.2 (by
        intro other hother order hlist
        rw [hmore] at hlist
        rcases hlist with heq | hlist
        · have hle := hapart.1 other hother
          have hpos := block.size_pos
          rw [FrameBlock.mk.injEq] at heq
          omega
        · exact hfresh other (List.mem_cons_of_mem _ hother) order hlist)
    refine ⟨after, more, (pushAll_cons hfirst blocks).trans hafter, hbase.trans hbaseFirst,
      hcount.trans hcountFirst, hindexedAfter, ?_⟩
    rw [hlisted, hmore]
    ext other
    simp only [Set.mem_union, Set.mem_insert_iff, Set.mem_ofPred_eq, List.mem_cons]
    tauto

/-- A pool that is filled is partitioned into the blocks of its decomposition, which all are
free. -/
theorem fill_partitioned (base count : Nat) :
    ∃ frames lists, fill base count = .ok (initialBlocks count, frames) ∧ frames.base = base ∧
      frames.frameCount = count ∧ frames.Partitioned lists ∅ ∧
      listed lists = {block | block ∈ initialBlocks count} := by
  have hpaving := paving_initialBlocks count
  have hcountUnlisted : (unlisted base count).frameCount = count := by
    simp only [unlisted, frameCount, List.size_toArray, List.length_replicate]
  obtain ⟨frames, lists, hframes, hbase, hcount, hindexed, hlisted⟩ :=
    (unlisted_indexed base count).pushAll
      (fun block hblock ↦ order_lt_of_mem_decompose hblock)
      (fun block hblock ↦ hcountUnlisted.symm ▸ hpaving.start_lt hblock)
      (consecutive_initialBlocks count).pairwise
      (fun _ _ _ hmem ↦ absurd hmem.2 List.not_mem_nil)
  have hempty : listed (fun _ ↦ []) = ∅ := by
    ext block
    exact iff_of_false (fun hmem ↦ absurd hmem.2 List.not_mem_nil) (Set.notMem_empty _)
  rw [hempty, Set.empty_union] at hlisted
  refine ⟨frames, lists, fill_eq hframes, hbase, hcount.trans hcountUnlisted,
    ⟨hindexed, ?_, ?_⟩, hlisted⟩
  · rw [hcount, hcountUnlisted, hlisted, Set.union_empty]
    exact hpaving
  · intro block hblock horder hbuddy
    rw [hlisted] at hblock hbuddy
    have hsame := eq_of_mem_decompose hbuddy hblock rfl (Or.inl (by
      simp only [topOrder] at horder ⊢
      omega))
    exact buddyOf_ne _ _ (congrArg FrameBlock.start hsame)

theorem ofFrames_partitioned (base count : Nat) :
    ∃ frames lists, ofFrames base count = .ok frames ∧ frames.base = base ∧
      frames.frameCount = count ∧ frames.Partitioned lists ∅ ∧
      listed lists = {block | block ∈ initialBlocks count} := by
  obtain ⟨frames, lists, hfill, hframes⟩ := fill_partitioned base count
  exact ⟨frames, lists, ofFrames_of_fill hfill, hframes⟩

/-- A place is accepted if it starts at the address of a frame and ends at an address. -/
theorem checkPlace_eq_ok {base count : Nat} (hbase : base % frameSize = 0)
    (hend : base + count * frameSize < Word.limit) : checkPlace base count = .ok (.ok ()) := by
  have hsize : Word.mul? count frameSize = some (count * frameSize) := by
    rw [Word.mul?, if_pos (by omega)]
  have hsum : Word.add? (count * frameSize) base = some (count * frameSize + base) := by
    rw [Word.add?, if_pos (by omega)]
  simp only [checkPlace, hbase, hsize, Option.bind_some, hsum, ne_eq, not_true_eq_false, if_false,
    Option.isNone_some, Bool.false_eq_true, Checked.pure_eq]

theorem withBase_eq_ofFrames {base count : Nat} (hbase : base % frameSize = 0)
    (hend : base + count * frameSize < Word.limit) :
    withBase base count = liftM (ofFrames base count) := by
  rw [withBase, checkPlace_eq_ok hbase hend, Checked.ok_bind]

end FrameAllocator

end KernelMemory
