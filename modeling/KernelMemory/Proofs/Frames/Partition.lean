import KernelMemory.Proofs.Frames.Index

/-!
# The frames of a pool are partitioned

The free blocks and the blocks that were handed out pave the pool, and no free block has a free
buddy of its own order (`FrameAllocator.Partitioned`). A request keeps this, though on the way one
block is in hand: it is on no list and does not belong to a user either (`FrameAllocator.InHand`).
An allocation splits the block in hand (`InHand.splitDown`), a free block grows in hand by its
buddies (`InHand.mergeUp`); which lists that leaves is told by the lists before alone (`putHalves`,
`grow`).

The records of frames inside a block are never cleaned up, so a record alone does not tell that a
block is free. It does for the buddy of a block of the paving (`isFreeBlock_iff`): a block that
meets the buddy starts with it, so the record of the buddy is the one of a first frame.
-/

set_option autoImplicit false
set_option relaxedAutoImplicit false

namespace KernelMemory

namespace FrameAllocator

/-- No free block has a free buddy of its own order, unless they are of the largest order. -/
def Merged (lists : Nat → List Nat) : Prop :=
  ∀ block ∈ listed lists, block.order < topOrder →
    ⟨buddyOf block.start block.order, block.order⟩ ∉ listed lists

theorem Merged.mono {lists fewer : Nat → List Nat} (hmerged : Merged lists)
    (hsub : listed fewer ⊆ listed lists) : Merged fewer := fun block hblock horder hbuddy ↦
  hmerged block (hsub hblock) horder (hsub hbuddy)

/-- A block whose buddy is not free can be freed. -/
theorem Merged.insert {lists more : Nat → List Nat} {block : FrameBlock} (hmerged : Merged lists)
    (hmore : listed more = insert block (listed lists))
    (hbuddy : block.order < topOrder →
      ⟨buddyOf block.start block.order, block.order⟩ ∉ listed lists) : Merged more := by
  intro other hother horder
  rw [hmore, Set.mem_insert_iff] at hother ⊢
  rcases hother with rfl | hother
  · rintro (heq | hmem)
    · exact buddyOf_ne _ _ (congrArg FrameBlock.start heq)
    · exact hbuddy horder hmem
  · rintro (heq | hmem)
    · -- then the other block is the buddy of the new one
      subst heq
      refine hbuddy horder ?_
      rwa [buddyOf_buddyOf]
    · exact hmerged other hother horder hmem

variable {frames : FrameAllocator} {lists : Nat → List Nat} {allocated held : Set FrameBlock}

/-- The record of the buddy of a block tells whether that is a free block of the same order. -/
theorem isFreeBlock_iff {block : FrameBlock} (hframes : frames.Indexed lists allocated)
    (hpaving : Paving frames.frameCount (listed lists ∪ held))
    (hblock : block ∈ listed lists ∪ held)
    (hheld : ∀ other ∈ held, other ≠ block → other ∈ allocated) :
    frames.isFreeBlock (buddyOf block.start block.order) block.order = true ↔
      ⟨buddyOf block.start block.order, block.order⟩ ∈ listed lists := by
  rw [isFreeBlock, beq_iff_eq]
  constructor
  · intro hrecord
    have hlt : buddyOf block.start block.order < frames.frameCount := by
      by_contra hbeyond
      rw [Array.getElem?_eq_none (Nat.le_of_not_lt hbeyond)] at hrecord
      exact absurd hrecord (by simp)
    obtain ⟨other, hother, hcovers⟩ := hpaving.covered _ hlt
    obtain ⟨hstart, horder⟩ := hpaving.start_eq_buddyOf hblock hother hcovers
    rcases hother with hfree | hmem
    · have hsame := hframes.free_record other hfree
      rw [hstart, hrecord, Option.some.injEq, FrameRecord.mk.injEq] at hsame
      rwa [← hstart, hsame.1]
    · exfalso
      have hne : other ≠ block := by
        rintro rfl
        exact buddyOf_ne _ _ hstart.symm
      have hsame := (hframes.allocated_record other.start other.order).mpr (hheld other hmem hne)
      rw [hstart, hrecord] at hsame
      exact absurd hsame (by simp)
  · exact fun hmem ↦ hframes.free_record _ hmem

/-- A block is in hand: it is on no list, and beside it the free and the held blocks pave the
pool. -/
structure InHand (frames : FrameAllocator) (lists : Nat → List Nat) (allocated held : Set FrameBlock)
    (hand : FrameBlock) : Prop where
  indexed : frames.Indexed lists allocated
  paving : Paving frames.frameCount (insert hand (listed lists ∪ held))
  notMem : hand ∉ listed lists ∪ held
  merged : Merged lists

namespace InHand

variable {hand : FrameBlock} (hframes : frames.InHand lists allocated held hand)

include hframes

theorem not_covers {block : FrameBlock} (hblock : block ∈ listed lists ∪ held) {frame : Nat}
    (hframe : hand.Covers frame) : ¬ block.Covers frame := by
  intro hcovers
  have hsame := hframes.paving.unique hand (Set.mem_insert _ _) block
    (Set.mem_insert_of_mem _ hblock) frame hframe hcovers
  exact hframes.notMem (hsame ▸ hblock)

theorem start_notMem (order : Nat) : ⟨hand.start, order⟩ ∉ listed lists ∪ held := fun hmem ↦
  hframes.not_covers hmem hand.covers_start (FrameBlock.covers_start _)

theorem start_lt : hand.start < frames.frameCount :=
  hframes.paving.start_lt (Set.mem_insert _ _)

theorem order_lt : hand.order < orderCount :=
  Nat.lt_succ_of_le (hframes.paving.order_le hand (Set.mem_insert _ _))

/-- The block in hand can be put on the list of its order if its buddy is not free. -/
theorem pushFree (hallocated : ∀ order, ⟨hand.start, order⟩ ∉ allocated)
    (hbuddy : hand.order < topOrder →
      ⟨buddyOf hand.start hand.order, hand.order⟩ ∉ listed lists) :
    ∃ after, frames.pushFree hand.start hand.order = .ok after ∧ after.base = frames.base ∧
      after.frameCount = frames.frameCount ∧ after.Indexed (putFree lists hand) allocated ∧
      listed (putFree lists hand) = insert hand (listed lists) ∧ Merged (putFree lists hand) := by
  have hlisted : ∀ order, ⟨hand.start, order⟩ ∉ listed lists := fun order hmem ↦
    hframes.start_notMem order (Or.inl hmem)
  obtain ⟨after, hafter, hbase, hcount, hindexed⟩ :=
    hframes.indexed.pushFree hframes.order_lt hframes.start_lt hlisted hallocated
  have hmore : listed (putFree lists hand) = insert hand (listed lists) :=
    listed_insert hframes.order_lt hand.start
  exact ⟨after, hafter, hbase, hcount, hindexed, hmore, hframes.merged.insert hmore hbuddy⟩

end InHand

/-- The lists after a block was split a number of times, down to `order`: the upper half of each
split comes in front of the list of its order. -/
def putHalves (lists : Nat → List Nat) (start order : Nat) : (splits : Nat) → Nat → List Nat
  | 0 => lists
  | splits + 1 =>
    putHalves (putFree lists ⟨start + 2 ^ (order + splits), order + splits⟩) start order splits

/-- The block that a block becomes by its free buddies, and the lists without these. The block has
an order that is `steps` below the top. -/
def grow (lists : Nat → List Nat) (start : Nat) : (steps : Nat) → FrameBlock × (Nat → List Nat)
  | 0 => (⟨start, topOrder⟩, lists)
  | steps + 1 =>
    let order := topOrder - (steps + 1)
    let buddy := buddyOf start order
    if nodeOf buddy ∈ lists order then
      grow (dropFree lists ⟨buddy, order⟩) (min start buddy) steps
    else
      (⟨start, order⟩, lists)

theorem grow_of_mem {start steps : Nat}
    (hbuddy : nodeOf (buddyOf start (topOrder - (steps + 1))) ∈ lists (topOrder - (steps + 1))) :
    grow lists start (steps + 1) =
      grow (dropFree lists ⟨buddyOf start (topOrder - (steps + 1)), topOrder - (steps + 1)⟩)
        (min start (buddyOf start (topOrder - (steps + 1)))) steps :=
  if_pos hbuddy

theorem grow_of_notMem {start steps : Nat}
    (hbuddy : nodeOf (buddyOf start (topOrder - (steps + 1))) ∉ lists (topOrder - (steps + 1))) :
    grow lists start (steps + 1) = (⟨start, topOrder - (steps + 1)⟩, lists) :=
  if_neg hbuddy

namespace InHand

variable {start order : Nat}

/-- The lower half of the block in hand can be held while the upper one stays in hand. -/
theorem split (hframes : frames.InHand lists allocated held ⟨start, order + 1⟩) :
    frames.InHand lists allocated (insert ⟨start, order⟩ held) ⟨start + 2 ^ order, order⟩ := by
  have hpaving := hframes.paving.split (Set.mem_insert _ _)
  rw [Set.insert_sdiff_self_of_notMem hframes.notMem] at hpaving
  have hpos := Nat.two_pow_pos order
  have hcovers : FrameBlock.Covers ⟨start, order + 1⟩ (start + 2 ^ order) := by
    simp only [FrameBlock.Covers, FrameBlock.size, pow_succ]
    omega
  refine ⟨hframes.indexed, ?_, ?_, hframes.merged⟩
  · convert hpaving using 1
    ext block
    simp only [halves, Set.mem_insert_iff, Set.mem_union, Set.mem_singleton_iff]
    tauto
  · rintro (hmem | heq | hmem)
    · exact hframes.not_covers (Or.inl hmem) hcovers (FrameBlock.covers_start _)
    · rw [FrameBlock.mk.injEq] at heq
      omega
    · exact hframes.not_covers (Or.inr hmem) hcovers (FrameBlock.covers_start _)

/-- The block in hand is split a number of times: the lower half stays in hand, the upper one is
free. -/
theorem splitDown {splits : Nat}
    (hframes : frames.InHand lists allocated held ⟨start, order + splits⟩)
    (hallocated : ∀ block ∈ allocated, block.start = start ∨ block ∈ held) :
    ∃ after, frames.splitDown start order splits = .ok after ∧ after.base = frames.base ∧
      after.frameCount = frames.frameCount ∧
      after.InHand (putHalves lists start order splits) allocated held ⟨start, order⟩ := by
  induction splits generalizing frames lists with
  | zero => exact ⟨frames, rfl, rfl, rfl, hframes⟩
  | succ splits ih =>
    have hdvd : 2 ^ (order + splits + 1) ∣ start := hframes.paving.size_dvd _ (Set.mem_insert _ _)
    have hbuddy := buddyOf_of_dvd hdvd
    have hupper : frames.InHand lists allocated (insert ⟨start, order + splits⟩ held)
        ⟨start + 2 ^ (order + splits), order + splits⟩ := hframes.split
    obtain ⟨after, hafter, hbase, hcount, hindexed, hmore, hmerged⟩ := by
      refine hupper.pushFree (fun number hmem ↦ ?_) fun _ hmem ↦ ?_
      · rcases hallocated _ hmem with heq | hheld
        · have hpos := Nat.two_pow_pos (order + splits)
          simp only at heq
          omega
        · exact hupper.start_notMem number (Or.inr (Set.mem_insert_of_mem _ hheld))
      · simp only [← hbuddy, buddyOf_buddyOf] at hmem
        exact hframes.start_notMem _ (Or.inl hmem)
    have hlower : after.InHand (putFree lists ⟨start + 2 ^ (order + splits), order + splits⟩)
        allocated held ⟨start, order + splits⟩ := by
      refine ⟨hindexed, ?_, ?_, hmerged⟩
      · rw [hcount, hmore]
        convert hupper.paving using 1
        ext block
        simp only [Set.mem_insert_iff, Set.mem_union]
        tauto
      · rw [hmore]
        rintro ((heq | hmem) | hmem)
        · exact hupper.notMem (heq ▸ Or.inr (Set.mem_insert _ _))
        · exact hframes.start_notMem _ (Or.inl hmem)
        · exact hframes.start_notMem _ (Or.inr hmem)
    obtain ⟨final, hfinal, hbaseFinal, hcountFinal, hin⟩ := ih hlower
    refine ⟨final, ?_, hbaseFinal.trans hbase, hcountFinal.trans hcount, hin⟩
    simp only at hafter
    simp only [FrameAllocator.splitDown, hbuddy, hafter, ok_bind, hfinal]

/-- The block in hand and its free buddy can be joined in hand. -/
theorem join (hframes : frames.InHand lists allocated held ⟨start, order⟩)
    (hheld : held ⊆ allocated) (horder : order < topOrder)
    (hbuddy : ⟨buddyOf start order, order⟩ ∈ listed lists) :
    ∃ after, frames.takeFree (buddyOf start order) order = .ok after ∧
      after.base = frames.base ∧ after.frameCount = frames.frameCount ∧
      after.InHand (dropFree lists ⟨buddyOf start order, order⟩) allocated held
        ⟨min start (buddyOf start order), order + 1⟩ := by
  obtain ⟨after, hafter, hbase, hrecords, hindexed⟩ := hframes.indexed.takeFree hbuddy
  have hfewer : listed (dropFree lists ⟨buddyOf start order, order⟩) =
      listed lists \ {⟨buddyOf start order, order⟩} :=
    listed_erase (hframes.indexed.listed_nodup hbuddy.1) _
  have hcount : after.frameCount = frames.frameCount := congrArg Array.size hrecords
  have hdvd : 2 ^ order ∣ start := hframes.paving.size_dvd _ (Set.mem_insert _ _)
  obtain ⟨hpair, hhalves⟩ := halves_min hdvd
  have hpaving := hframes.paving.join hpair horder (by
    rw [hhalves]
    rintro block (rfl | rfl)
    · exact Set.mem_insert _ _
    · exact Set.mem_insert_of_mem _ (Or.inl hbuddy))
  have hnotHeld : (⟨buddyOf start order, order⟩ : FrameBlock) ∉ held := fun hmem ↦
    hframes.indexed.notMem_allocated hbuddy (hheld hmem)
  refine ⟨after, hafter, hbase, hcount, hindexed, ?_, ?_, hframes.merged.mono ?_⟩
  · have hhand := hframes.notMem
    rw [hcount, hfewer]
    convert hpaving using 1
    rw [hhalves]
    ext block
    simp only [Set.mem_insert_iff, Set.mem_union, Set.mem_sdiff, Set.mem_singleton_iff] at hhand ⊢
    grind
  · rw [hfewer]
    intro hmem
    have hjoined : FrameBlock.Covers ⟨min start (buddyOf start order), order + 1⟩ start := by
      rw [← covers_halves_iff, hhalves]
      exact ⟨_, Or.inl rfl, FrameBlock.covers_start ⟨start, order⟩⟩
    exact hframes.not_covers (hmem.imp_left fun hfree ↦ hfree.1)
      (FrameBlock.covers_start ⟨start, order⟩) hjoined
  · rw [hfewer]
    exact Set.sdiff_subset

/-- The block in hand grows by its buddies as long as they are free. -/
theorem mergeUp {steps : Nat} (hsteps : steps ≤ topOrder)
    (hframes : frames.InHand lists allocated held ⟨start, topOrder - steps⟩)
    (hheld : held ⊆ allocated) :
    ∃ after, frames.mergeUp start steps = .ok ((grow lists start steps).1, after) ∧
      after.base = frames.base ∧ after.frameCount = frames.frameCount ∧
      after.InHand (grow lists start steps).2 allocated held (grow lists start steps).1 ∧
      ((grow lists start steps).1.order < topOrder →
        ⟨buddyOf (grow lists start steps).1.start (grow lists start steps).1.order,
          (grow lists start steps).1.order⟩ ∉ listed (grow lists start steps).2) := by
  induction steps generalizing frames lists start with
  | zero => exact ⟨frames, rfl, rfl, rfl, hframes, fun hlt ↦ absurd hlt (Nat.lt_irrefl _)⟩
  | succ steps ih =>
    have hunion : insert ⟨start, topOrder - (steps + 1)⟩ (listed lists ∪ held) =
        listed lists ∪ insert ⟨start, topOrder - (steps + 1)⟩ held := Set.union_insert.symm
    have hfree := isFreeBlock_iff hframes.indexed (hunion ▸ hframes.paving)
      (Or.inr (Set.mem_insert _ _)) fun other hother hne ↦ hheld (hother.resolve_left hne)
    have horder : topOrder - (steps + 1) < topOrder := by omega
    by_cases hbuddy :
        nodeOf (buddyOf start (topOrder - (steps + 1))) ∈ lists (topOrder - (steps + 1))
    · have hlisted :
          (⟨buddyOf start (topOrder - (steps + 1)), topOrder - (steps + 1)⟩ : FrameBlock) ∈
            listed lists := ⟨Nat.lt_succ_of_lt horder, hbuddy⟩
      obtain ⟨after, hafter, hbase, hcount, hin⟩ := hframes.join hheld horder hlisted
      have hsucc : topOrder - (steps + 1) + 1 = topOrder - steps := by omega
      rw [hsucc] at hin
      obtain ⟨final, hfinal, hbaseFinal, hcountFinal, hinFinal, hmerged⟩ := ih (by omega) hin
      rw [grow_of_mem hbuddy]
      refine ⟨final, ?_, hbaseFinal.trans hbase, hcountFinal.trans hcount, hinFinal, hmerged⟩
      simp only [FrameAllocator.mergeUp, if_pos (hfree.mpr hlisted), hafter, ok_bind, hfinal]
    · rw [grow_of_notMem hbuddy]
      refine ⟨frames, ?_, rfl, rfl, hframes, fun _ hmem ↦ hbuddy hmem.2⟩
      simp only [FrameAllocator.mergeUp, if_neg fun hmem ↦ hbuddy (hfree.mp hmem).2]

end InHand

/-! ### Requests -/

/-- The free and the live blocks pave the pool, lists, counts and records tell which they are, and
no free block has a free buddy of its order. -/
structure Partitioned (frames : FrameAllocator) (lists : Nat → List Nat)
    (live : Set FrameBlock) : Prop where
  indexed : frames.Indexed lists live
  paving : Paving frames.frameCount (listed lists ∪ live)
  merged : Merged lists

/-- A block in hand that is marked as allocated belongs to a user. -/
theorem InHand.partitioned {hand : FrameBlock}
    (hframes : frames.InHand lists (insert hand held) held hand) :
    frames.Partitioned lists (insert hand held) :=
  ⟨hframes.indexed, Set.union_insert ▸ hframes.paving, hframes.merged⟩

namespace Partitioned

variable {live : Set FrameBlock} (hframes : frames.Partitioned lists live)

include hframes

/-- A free block can be taken in hand. -/
theorem takeFree {block : FrameBlock} (hblock : block ∈ listed lists) :
    ∃ after, frames.takeFree block.start block.order = .ok after ∧
      after.base = frames.base ∧ after.frameCount = frames.frameCount ∧
      after.InHand (dropFree lists block) live live block := by
  obtain ⟨after, hafter, hbase, hrecords, hindexed⟩ := hframes.indexed.takeFree hblock
  have hfewer : listed (dropFree lists block) = listed lists \ {block} :=
    listed_erase (hframes.indexed.listed_nodup hblock.1) _
  have hcount : after.frameCount = frames.frameCount := congrArg Array.size hrecords
  refine ⟨after, hafter, hbase, hcount, hindexed, ?_, ?_, hframes.merged.mono ?_⟩
  · rw [hcount, hfewer, ← Set.insert_union, Set.insert_sdiff_singleton, Set.insert_eq_of_mem hblock]
    exact hframes.paving
  · rw [hfewer]
    rintro (hmem | hmem)
    · exact hmem.2 rfl
    · exact hframes.indexed.notMem_allocated hblock hmem
  · rw [hfewer]
    exact Set.sdiff_subset

/-- A live block can be taken in hand. -/
theorem markFree {frame order : Nat} (hblock : ⟨frame, order⟩ ∈ live) :
    ∃ after, frames.setRecord frame { order, status := .free } = .ok after ∧
      after.base = frames.base ∧ after.frameCount = frames.frameCount ∧
      after.InHand lists (live \ {⟨frame, order⟩}) (live \ {⟨frame, order⟩}) ⟨frame, order⟩ := by
  have hlisted : ∀ other, ⟨frame, other⟩ ∉ listed lists := by
    intro other hmem
    have hsame := hframes.paving.eq_of_start_eq (Or.inr hblock) (Or.inl hmem) rfl
    exact hframes.indexed.notMem_allocated hmem (hsame ▸ hblock)
  obtain ⟨after, hafter, hbase, hcount, hindexed⟩ :=
    hframes.indexed.markFree hblock (hframes.paving.start_lt (Or.inr hblock)) hlisted
  refine ⟨after, hafter, hbase, hcount, hindexed, ?_, ?_, hframes.merged⟩
  · rw [hcount, ← Set.union_insert, Set.insert_sdiff_singleton, Set.insert_eq_of_mem hblock]
    exact hframes.paving
  · rintro (hmem | hmem)
    · exact hlisted order hmem
    · exact hmem.2 rfl

end Partitioned

end FrameAllocator

end KernelMemory
