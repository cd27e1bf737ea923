import KernelMemory.Proofs.Frames.Partition
import KernelMemory.Proofs.Word

/-!
# Requests to a pool of frames

Each request to a partitioned pool is either refused, which changes nothing, or gives a partitioned
pool with one live block more (`Partitioned.allocate`) or one live block less
(`Partitioned.free_of_mem`). No request faults. The lists before tell the lists after (`handOut`,
`takeBack`).
-/

set_option autoImplicit false
set_option relaxedAutoImplicit false

namespace KernelMemory

namespace FrameAllocator

variable {frames : FrameAllocator} {lists : Nat → List Nat} {live : Set FrameBlock}

/-- An order is found if its list is the first one that is not empty. -/
theorem Indexed.orderWithFree?_eq_some_iff (hframes : frames.Indexed lists live)
    {order found : Nat} : frames.orderWithFree? order = some found ↔
      order ≤ found ∧ found < orderCount ∧ lists found ≠ [] ∧
        ∀ number, order ≤ number → number < found → lists number = [] := by
  have hcount : ∀ number < orderCount,
      (0 < (frames.freeCounts[number]?).getD 0 ↔ lists number ≠ []) := by
    intro number hnumber
    rw [hframes.counts number hnumber, Option.getD_some, List.length_pos_iff]
  rw [orderWithFree?, List.find?_range'_eq_some]
  simp only [decide_eq_true_eq, Bool.not_eq_true', decide_eq_false_iff_not, List.mem_range'_1]
  constructor
  · rintro ⟨hfree, ⟨hle, hlt⟩, hleast⟩
    have hfound : found < orderCount := by omega
    refine ⟨hle, hfound, (hcount found hfound).mp hfree, fun number hnumber hnumberLt ↦ ?_⟩
    have hnone := hleast number hnumber hnumberLt
    rwa [hcount number (hnumberLt.trans hfound), not_not] at hnone
  · rintro ⟨hle, hfound, hfree, hleast⟩
    refine ⟨(hcount found hfound).mpr hfree, ⟨hle, by omega⟩, fun number hnumber hnumberLt ↦ ?_⟩
    rw [hcount number (hnumberLt.trans hfound), not_not]
    exact hleast number hnumber hnumberLt

theorem Indexed.orderWithFree?_eq_none_iff (hframes : frames.Indexed lists live) {order : Nat} :
    frames.orderWithFree? order = none ↔
      ∀ number, order ≤ number → number < orderCount → lists number = [] := by
  simp only [orderWithFree?, List.find?_range'_eq_none, Bool.not_eq_true', decide_eq_false_iff_not]
  refine forall_congr' fun number ↦ imp_congr_right fun hle ↦ ?_
  constructor
  · intro hnone hnumber
    have hzero := hnone (by omega)
    rwa [hframes.counts number hnumber, Option.getD_some, List.length_pos_iff, not_not] at hzero
  · intro hempty hlt
    have hnumber : number < orderCount := by omega
    rw [hframes.counts number hnumber, Option.getD_some, hempty hnumber]
    simp

/-- Either all lists from an order on are empty, or there is a first one that is not. -/
theorem Indexed.empty_or_exists (hframes : frames.Indexed lists live) (order : Nat) :
    (frames.orderWithFree? order = none ∧
        ∀ number, order ≤ number → number < orderCount → lists number = []) ∨
      ∃ found frame rest, order ≤ found ∧ found < orderCount ∧
        lists found = nodeOf frame :: rest ∧
        ∀ number, order ≤ number → number < found → lists number = [] := by
  cases hsearch : frames.orderWithFree? order with
  | none => exact Or.inl ⟨rfl, hframes.orderWithFree?_eq_none_iff.mp hsearch⟩
  | some found =>
    obtain ⟨hle, hfound, hne, hleast⟩ := hframes.orderWithFree?_eq_some_iff.mp hsearch
    obtain ⟨node, rest, hlist⟩ := List.exists_cons_of_ne_nil hne
    obtain ⟨frame, -, rfl⟩ := hframes.exists_of_mem hfound (hlist ▸ List.mem_cons_self)
    exact Or.inr ⟨found, frame, rest, hle, hfound, hlist, hleast⟩

theorem Indexed.firstFree?_of_cons (hframes : frames.Indexed lists live) {order frame : Nat}
    {rest : List Nat} (horder : order < orderCount) (hlist : lists order = nodeOf frame :: rest) :
    frames.firstFree? order = .ok (some frame) := by
  simp only [firstFree?, hframes.rings.first? horder, hlist, List.head?_cons, ok_bind,
    Option.mapM_some, frameOf_nodeOf]
  rfl

theorem allocate_of_le {order : Nat} (horder : orderCount ≤ order) :
    frames.allocate order = .ok (.error .orderTooLarge) := by
  simp only [allocate, if_pos horder]
  rfl

/-- The lists after a block of an order was cut out of a free block of the order `found`. -/
def handOut (lists : Nat → List Nat) (frame order found : Nat) : Nat → List Nat :=
  putHalves (dropFree lists ⟨frame, found⟩) frame order (found - order)

/-- The lists after a live block of an order came back. -/
def takeBack (lists : Nat → List Nat) (frame order : Nat) : Nat → List Nat :=
  putFree (grow lists frame (topOrder - order)).2 (grow lists frame (topOrder - order)).1

/-- A number that can be rounded up stands for an order. -/
theorem allocatePages_eq_allocate {pages : Nat} (hpos : 0 < pages) (hpages : pages ≤ 2 ^ 63) :
    frames.allocatePages pages = frames.allocate (Word.ceilLog2 pages) := by
  unfold allocatePages
  rw [if_neg hpos.ne', Word.exponentFor_eq hpages, Checked.lift_ok_bind]

theorem allocatePages_of_gt {pages : Nat} (hpages : 2 ^ 63 < pages) :
    frames.allocatePages pages = .error .addOverflow := by
  unfold allocatePages
  rw [if_neg (Nat.zero_lt_of_lt hpages).ne', Word.exponentFor_of_gt hpages]
  rfl

namespace Partitioned

variable (hframes : frames.Partitioned lists live)

include hframes

/-- A free block is live no longer than it is taken: no live block starts where a free one does. -/
theorem notMem_of_mem_listed {block : FrameBlock} (hblock : block ∈ listed lists) (order : Nat) :
    ⟨block.start, order⟩ ∉ live := by
  intro hmem
  have hsame := hframes.paving.eq_of_start_eq (Or.inl hblock) (Or.inr hmem) rfl
  exact hframes.indexed.notMem_allocated hblock (hsame ▸ hmem)

/-- A block that is handed out was taken from the first list that has one. -/
theorem allocate_of_mem {order found frame : Nat} {rest : List Nat} (hle : order ≤ found)
    (hfound : found < orderCount) (hlist : lists found = nodeOf frame :: rest)
    (hleast : ∀ number, order ≤ number → number < found → lists number = []) :
    ∃ after, frames.allocate order = .ok (.ok (frame, after)) ∧ after.base = frames.base ∧
      after.frameCount = frames.frameCount ∧
      after.Partitioned (handOut lists frame order found) (insert ⟨frame, order⟩ live) := by
  have hfree : ⟨frame, found⟩ ∈ listed lists := ⟨hfound, hlist ▸ List.mem_cons_self⟩
  obtain ⟨first, hfirst, hbaseFirst, hcountFirst, hhand⟩ := hframes.takeFree hfree
  obtain ⟨second, hsecond, hbaseSecond, hcountSecond, hindexed⟩ :=
    hhand.indexed.markAllocated hhand.start_lt
      (fun number hmem ↦ hhand.start_notMem number (Or.inl hmem))
      (fun number hmem ↦ hhand.start_notMem number (Or.inr hmem)) order
  have hmarked : second.InHand (dropFree lists ⟨frame, found⟩) (insert ⟨frame, order⟩ live) live
      ⟨frame, order + (found - order)⟩ := by
    rw [Nat.add_sub_cancel' hle]
    exact ⟨hindexed, hcountSecond ▸ hhand.paving, hhand.notMem, hhand.merged⟩
  obtain ⟨after, hafter, hbase, hcount, hsplit⟩ := hmarked.splitDown (by
    rintro block (rfl | hmem)
    · exact Or.inl rfl
    · exact Or.inr hmem)
  refine ⟨after, ?_, hbase.trans (hbaseSecond.trans hbaseFirst),
    hcount.trans (hcountSecond.trans hcountFirst), hsplit.partitioned⟩
  have horder : ¬ orderCount ≤ order := by omega
  have hsearch : frames.orderWithFree? order = some found :=
    hframes.indexed.orderWithFree?_eq_some_iff.mpr ⟨hle, hfound, by simp [hlist], hleast⟩
  have hhead := hframes.indexed.firstFree?_of_cons hfound hlist
  simp only at hfirst hsecond
  simp only [FrameAllocator.allocate, if_neg horder, hsearch, hhead, Checked.lift_ok_bind, hfirst,
    hsecond, hafter, Checked.pure_eq]

theorem allocate_of_empty {order : Nat} (horder : order < orderCount)
    (hempty : ∀ number, order ≤ number → number < orderCount → lists number = []) :
    frames.allocate order = .ok (.error .noMemoryAvailable) := by
  simp only [FrameAllocator.allocate, if_neg (Nat.not_le.mpr horder),
    hframes.indexed.orderWithFree?_eq_none_iff.mpr hempty]
  rfl

/-- An allocation is refused, or hands out a block that was free. -/
theorem allocate (order : Nat) :
    (orderCount ≤ order ∧ frames.allocate order = .ok (.error .orderTooLarge)) ∨
      (order < orderCount ∧ (∀ number, order ≤ number → number < orderCount → lists number = []) ∧
        frames.allocate order = .ok (.error .noMemoryAvailable)) ∨
      ∃ frame after more, frames.allocate order = .ok (.ok (frame, after)) ∧
        after.base = frames.base ∧ after.frameCount = frames.frameCount ∧
        (∀ number, ⟨frame, number⟩ ∉ live) ∧
        after.Partitioned more (insert ⟨frame, order⟩ live) := by
  rcases Nat.lt_or_ge order orderCount with horder | horder
  swap
  · exact Or.inl ⟨horder, allocate_of_le horder⟩
  rcases hframes.indexed.empty_or_exists order with ⟨-, hempty⟩ |
    ⟨found, frame, rest, hle, hfound, hlist, hleast⟩
  · exact Or.inr (Or.inl ⟨horder, hempty, hframes.allocate_of_empty horder hempty⟩)
  · obtain ⟨after, hafter, hbase, hcount, hpartitioned⟩ :=
      hframes.allocate_of_mem hle hfound hlist hleast
    have hfree : ⟨frame, found⟩ ∈ listed lists := ⟨hfound, hlist ▸ List.mem_cons_self⟩
    exact Or.inr (Or.inr ⟨frame, after, _, hafter, hbase, hcount,
      hframes.notMem_of_mem_listed hfree, hpartitioned⟩)

/-- The record of a frame tells whether a live block starts there. -/
theorem free_of_notMem {frame : Nat} (hlive : ∀ order, ⟨frame, order⟩ ∉ live) :
    frames.free frame = .ok (.error .invalidFrame) := by
  cases hrecord : frames.records[frame]? with
  | none =>
    simp only [FrameAllocator.free, hrecord]
    rfl
  | some record =>
    have hstatus : record.status ≠ .allocated := by
      intro hallocated
      refine hlive record.order ((hframes.indexed.allocated_record frame record.order).mp ?_)
      rw [hrecord, ← hallocated]
    simp only [FrameAllocator.free, hrecord, if_pos hstatus]
    rfl

/-- A live block becomes free, or a part of a larger block that is free. -/
theorem free_of_mem {frame order : Nat} (hlive : ⟨frame, order⟩ ∈ live) :
    ∃ after, frames.free frame =
        .ok (.ok ((grow lists frame (topOrder - order)).1, after)) ∧
      after.base = frames.base ∧ after.frameCount = frames.frameCount ∧
      after.Partitioned (takeBack lists frame order) (live \ {⟨frame, order⟩}) := by
  obtain ⟨first, hfirst, hbaseFirst, hcountFirst, hmarked⟩ := hframes.markFree hlive
  have horder : order ≤ topOrder := hframes.paving.order_le _ (Or.inr hlive)
  have hhand : first.InHand lists (live \ {⟨frame, order⟩}) (live \ {⟨frame, order⟩})
      ⟨frame, topOrder - (topOrder - order)⟩ := by
    rwa [Nat.sub_sub_self horder]
  obtain ⟨second, hsecond, hbaseSecond, hcountSecond, hgrown, hbuddy⟩ :=
    hhand.mergeUp (Nat.sub_le ..) (Set.Subset.refl _)
  obtain ⟨after, hafter, hbase, hcount, hindexed, hmore, hmerged⟩ :=
    hgrown.pushFree (fun number hmem ↦ hgrown.start_notMem number (Or.inr hmem)) hbuddy
  rw [takeBack]
  generalize grow lists frame (topOrder - order) = grown at *
  have hpartitioned : after.Partitioned (putFree grown.2 grown.1) (live \ {⟨frame, order⟩}) := by
    refine ⟨hindexed, ?_, hmerged⟩
    rw [hcount, hmore, Set.insert_union]
    exact hgrown.paving
  refine ⟨after, ?_, hbase.trans (hbaseSecond.trans hbaseFirst),
    hcount.trans (hcountSecond.trans hcountFirst), hpartitioned⟩
  have hblock : grown.1 ∈ listed (putFree grown.2 grown.1) := hmore ▸ Set.mem_insert grown.1 _
  have hunmissed : ¬ (decide (grown.1.order < topOrder) &&
      after.isFreeBlock (buddyOf grown.1.start grown.1.order) grown.1.order) = true := by
    rw [Bool.and_eq_true, decide_eq_true_eq]
    rintro ⟨hlt, hfree⟩
    refine hmerged grown.1 hblock hlt ((isFreeBlock_iff hindexed hpartitioned.paving
      (Or.inl hblock) fun other hother _ ↦ hother).mp hfree)
  have hrecord := (hframes.indexed.allocated_record frame order).mpr hlive
  simp only [FrameAllocator.free, hrecord, ne_eq, not_true_eq_false, if_false, hfirst,
    Checked.lift_ok_bind, hsecond, hafter, if_neg hunmissed]
  rfl

end Partitioned

end FrameAllocator

end KernelMemory
