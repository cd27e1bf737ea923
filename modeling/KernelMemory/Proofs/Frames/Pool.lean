import KernelMemory.Frames.Pool
import KernelMemory.Proofs.Act
import KernelMemory.Proofs.Frames.Canonical

/-!
# What a pool has lent

Several users share a pool, and each of them only knows its own blocks. Together they hold all
that the pool has lent (`FrameAllocator.Lends`): a request adds a block to that or is refused
(`FramePool.ensures_allocate`), and a block that is lent can be given back
(`FramePool.gives_free`). The order of the blocks does not count, so each user may be looked at
apart from the others.
-/

set_option autoImplicit false
set_option relaxedAutoImplicit false

namespace KernelMemory

/-- An element that is erased by a condition comes first in another order of the list. -/
theorem exists_perm_eraseP {α : Type} (condition : α → Bool) {values : List α} {value : α}
    (hvalue : value ∈ values) (hcondition : condition value = true) :
    ∃ first, condition first = true ∧ values.Perm (first :: values.eraseP condition) := by
  obtain ⟨first, before, after, -, hfirst, hvalues, hrest⟩ :=
    List.exists_of_eraseP hvalue hcondition
  refine ⟨first, hfirst, ?_⟩
  rw [hrest, hvalues]
  exact List.perm_middle

/-- The number of bytes of a block. -/
def FrameBlock.bytes (block : FrameBlock) : Nat := block.size * frameSize

namespace FrameAllocator

/-- The pool starts at an address and has so many frames, and just the blocks are lent. -/
structure Lends (frames : FrameAllocator) (base count : Nat) (blocks : List FrameBlock) : Prop where
  base_eq : frames.base = base
  count_eq : frames.frameCount = count
  held : ∃ lists, (⟨frames, blocks⟩ : FramesInUse).Held lists

theorem lends_ofFrames {base count : Nat} {frames : FrameAllocator}
    (hframes : ofFrames base count = .ok frames) : frames.Lends base count [] := by
  obtain ⟨lists, hheld, hbase, hcount⟩ := FramesInUse.held_ofFrames hframes
  exact ⟨hbase, hcount, lists, hheld⟩

namespace Lends

variable {frames : FrameAllocator} {base count : Nat} {blocks : List FrameBlock}
  (hlends : frames.Lends base count blocks)

include hlends

theorem perm {other : List FrameBlock} (hperm : blocks.Perm other) :
    frames.Lends base count other := by
  obtain ⟨hbase, hcount, lists, hheld⟩ := hlends
  refine ⟨hbase, hcount, lists, ?_, hperm.nodup hheld.nodup⟩
  convert hheld.partitioned using 1
  ext block
  exact hperm.mem_iff.symm

theorem nodup : blocks.Nodup := by
  obtain ⟨-, -, lists, hheld⟩ := hlends
  exact hheld.nodup

theorem start_lt {block : FrameBlock} (hblock : block ∈ blocks) : block.start < count := by
  obtain ⟨-, rfl, lists, hheld⟩ := hlends
  exact hheld.partitioned.paving.start_lt (Or.inr hblock)

theorem order_le {block : FrameBlock} (hblock : block ∈ blocks) : block.order ≤ topOrder := by
  obtain ⟨-, -, lists, hheld⟩ := hlends
  exact hheld.partitioned.paving.order_le block (Or.inr hblock)

/-- No frame is lent twice. -/
theorem eq_of_covers {first second : FrameBlock} (hfirst : first ∈ blocks)
    (hsecond : second ∈ blocks) {frame : Nat} (hcoverFirst : first.Covers frame)
    (hcoverSecond : second.Covers frame) : first = second := by
  obtain ⟨-, -, lists, hheld⟩ := hlends
  exact hheld.partitioned.paving.unique first (Or.inr hfirst) second (Or.inr hsecond) frame
    hcoverFirst hcoverSecond

/-- The bytes that are allocated are those of the blocks that are lent. -/
theorem allocatedBytes_eq : frames.allocatedBytes = (blocks.map FrameBlock.bytes).sum := by
  obtain ⟨-, -, lists, hheld⟩ := hlends
  have hbytes := hheld.partitioned.freeBytes_add_eq (fun _ ↦ Iff.rfl) hheld.nodup
  unfold allocatedBytes
  rw [← hbytes, Nat.add_sub_cancel_left]
  rfl

/-- A frame is free just if it is not lent. -/
theorem exists_free_iff {frame : Nat} (hframe : frame < count) :
    (∃ block, frames.OnFreeList block ∧ block.Covers frame) ↔
      ∀ block ∈ blocks, ¬ block.Covers frame := by
  obtain ⟨-, rfl, lists, hheld⟩ := hlends
  have haccounted := hheld.accounted
  constructor
  · rintro ⟨block, hfree, hcovers⟩ other hother hcoversOther
    have hsame := haccounted.paving.unique block (Or.inl hfree) other (Or.inr hother) frame
      hcovers hcoversOther
    exact haccounted.disjoint other hother (hsame ▸ hfree)
  · intro hnone
    obtain ⟨block, hfree | hlent, hcovers⟩ := haccounted.paving.covered frame hframe
    · exact ⟨block, hfree, hcovers⟩
    · exact absurd hcovers (hnone block hlent)

/-- An allocation is refused or lends one more block. -/
theorem allocate (order : Nat) :
    (∃ error, frames.allocate order = .ok (.error error)) ∨
      ∃ frame after, frames.allocate order = .ok (.ok (frame, after)) ∧
        after.Lends base count (⟨frame, order⟩ :: blocks) := by
  obtain ⟨hbase, hcount, lists, hheld⟩ := hlends
  rcases hheld.partitioned.allocate order with ⟨-, heq⟩ | ⟨-, -, heq⟩ |
    ⟨frame, after, more, heq, hbaseAfter, hcountAfter, hfresh, hafter⟩
  · exact Or.inl ⟨_, heq⟩
  · exact Or.inl ⟨_, heq⟩
  · exact Or.inr ⟨frame, after, heq, hbaseAfter.trans hbase, hcountAfter.trans hcount, more,
      hheld.grant_of_ok hfresh hafter⟩

end Lends

/-- A block that is lent can be freed. -/
theorem Lends.free {frames : FrameAllocator} {base count : Nat} {block : FrameBlock}
    {rest : List FrameBlock} (hlends : frames.Lends base count (block :: rest)) :
    ∃ grown after, frames.free block.start = .ok (.ok (grown, after)) ∧
      after.Lends base count rest := by
  obtain ⟨hbase, hcount, lists, hheld⟩ := hlends
  obtain ⟨hnotMem, hnodup⟩ := List.nodup_cons.mp hheld.nodup
  have hmem : (⟨block.start, block.order⟩ : FrameBlock) ∈ {other | other ∈ block :: rest} :=
    List.mem_cons_self
  obtain ⟨after, heq, hbaseAfter, hcountAfter, hafter⟩ := hheld.partitioned.free_of_mem hmem
  refine ⟨_, after, heq, hbaseAfter.trans hbase, hcountAfter.trans hcount,
    takeBack lists block.start block.order, ?_, hnodup⟩
  convert hafter using 1
  ext other
  simp only [Set.mem_ofPred_eq, Set.mem_sdiff, Set.mem_singleton_iff, List.mem_cons]
  constructor
  · intro hother
    refine ⟨Or.inr hother, ?_⟩
    rintro rfl
    exact hnotMem hother
  · rintro ⟨rfl | hother, hne⟩
    · exact absurd rfl hne
    · exact hother

end FrameAllocator

/-! ### Calls of a pool -/

namespace FramePool

variable {frames after : FrameAllocator} {frame order : Nat} {error : AllocError}

theorem allocate_run_of_ok (hallocate : frames.allocate order = .ok (.ok (frame, after))) :
    allocate order frames = ⟨.ok (.ok frame), after, [.noted (.frameAllocated frame order)]⟩ := by
  unfold allocate
  rw [Act.get_bind_run, Act.bind_run_of_silent (Act.liftM_checked_run hallocate frames)]
  rfl

theorem allocate_run_of_refused (hallocate : frames.allocate order = .ok (.error error)) :
    allocate order frames = ⟨.ok (.error error), frames, []⟩ := by
  unfold allocate
  rw [Act.get_bind_run, Act.bind_run_of_refused (Act.liftM_checked_run hallocate frames)]

theorem free_run_of_ok {block : FrameBlock} (hfree : frames.free frame = .ok (.ok (block, after))) :
    free frame frames = ⟨.ok (.ok ()), after, [.noted (.frameFreed frame block.order)]⟩ := by
  have hrun : Act.ofChecked (frames.free frame) frames = ⟨.ok (.ok (block, after)), frames, []⟩ :=
    Act.liftM_checked_run hfree frames
  unfold free
  rw [Act.get_bind_run, Act.bind_run_of_silent (Act.settle_run hrun)]
  rfl

/-- A refusal to free is noted. -/
theorem free_run_of_refused (hfree : frames.free frame = .ok (.error error)) :
    free frame frames = ⟨.ok (.error error), frames, [.noted (.invalidFrame frame)]⟩ := by
  have hrun : Act.ofChecked (frames.free frame) frames = ⟨.ok (.error error), frames, []⟩ :=
    Act.liftM_checked_run hfree frames
  unfold free
  rw [Act.get_bind_run, Act.bind_run_of_silent (Act.settle_run hrun)]
  rfl

variable {terms : Terms} {base count : Nat} {blocks : List FrameBlock}

/-- A request for a block adds it to what is lent, or changes nothing. -/
theorem ensures_allocate (order : Nat) :
    Act.Ensures terms (fun frames _ ↦ frames.Lends base count blocks) (allocate order)
      fun answer frames _ ↦ match answer with
        | .ok frame => frames.Lends base count (⟨frame, order⟩ :: blocks)
        | .error _ => frames.Lends base count blocks := by
  intro frames log hlends _
  rcases hlends.allocate order with ⟨error, heq⟩ | ⟨frame, after, heq, hafter⟩
  · rw [allocate_run_of_refused heq]
    exact hlends
  · rw [allocate_run_of_ok heq]
    exact hafter

/-- So does a request for a number of frames. -/
theorem ensures_allocatePages {pages : Nat}
    (hfault : ∀ fault, Word.exponentFor pages = .error fault → terms.Forgives fault) :
    Act.Ensures terms (fun frames _ ↦ frames.Lends base count blocks) (allocatePages pages)
      fun answer frames _ ↦ match answer with
        | .ok frame => frames.Lends base count (⟨frame, Word.ceilLog2 pages⟩ :: blocks)
        | .error _ => frames.Lends base count blocks := by
  unfold allocatePages
  split
  · exact Act.ensures_throw_bind fun _ _ hlends ↦ hlends
  · refine (Act.gives_lift fun _ _ fault _ ↦ hfault fault).bind fun order ↦
      Act.ensures_of_fact fun horder ↦ ?_
    obtain rfl := Word.eq_of_exponentFor_eq_ok horder
    exact ensures_allocate _

/-- A block that is lent can be given back. -/
theorem gives_free {block : FrameBlock} :
    Act.Gives terms (fun frames _ ↦ frames.Lends base count (block :: blocks)) (free block.start)
      fun _ frames _ ↦ frames.Lends base count blocks := by
  intro frames log hlends _
  obtain ⟨grown, after, heq, hafter⟩ := hlends.free
  rw [free_run_of_ok heq]
  exact ⟨(), rfl, hafter⟩

end FramePool

end KernelMemory
