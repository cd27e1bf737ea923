import KernelMemory.Proofs.Frames.Paving
import KernelMemory.Proofs.Rings

/-!
# Free lists, counts and records of frames

What the three parts of a frame allocator say about each other. The free lists name the free
blocks (`listed`), the counts are the lengths of the lists, the record of a free block tells that
it is free and its order, and the frames whose records tell that they are allocated are the first
frames of given blocks (`FrameAllocator.Indexed`). The records of all other frames may say
anything but that.

Each small step of the allocator is read off this description: a block is put on a list
(`Indexed.pushFree`) or taken off (`Indexed.takeFree`), or the record of a frame changes
(`Indexed.markAllocated`, `Indexed.markFree`).
-/

set_option autoImplicit false
set_option relaxedAutoImplicit false

namespace KernelMemory

namespace FrameAllocator

theorem nodeOf_inj : Function.Injective nodeOf := fun _ _ heq ↦ Nat.add_left_cancel heq

theorem frameOf_nodeOf (frame : Nat) : frameOf (nodeOf frame) = .ok frame := by
  unfold frameOf nodeOf Word.sub
  rw [if_pos (Nat.le_add_right _ _), Nat.add_sub_cancel_left]

/-- The blocks on the given lists of nodes. -/
def listed (lists : Nat → List Nat) : Set FrameBlock :=
  {block | block.order < orderCount ∧ nodeOf block.start ∈ lists block.order}

theorem mem_listed_iff {lists : Nat → List Nat} {frame order : Nat} :
    ⟨frame, order⟩ ∈ listed lists ↔ order < orderCount ∧ nodeOf frame ∈ lists order :=
  Iff.rfl

/-- The lists with a block put in front of the list of its order. -/
def putFree (lists : Nat → List Nat) (block : FrameBlock) : Nat → List Nat :=
  Function.update lists block.order (nodeOf block.start :: lists block.order)

/-- The lists without a block. -/
def dropFree (lists : Nat → List Nat) (block : FrameBlock) : Nat → List Nat :=
  Function.update lists block.order ((lists block.order).erase (nodeOf block.start))

theorem dropFree_putFree (lists : Nat → List Nat) (block : FrameBlock) :
    dropFree (putFree lists block) block = lists := by
  simp only [dropFree, putFree, Function.update_self, Function.update_idem, List.erase_cons_head,
    Function.update_eq_self]

/-- A block that comes first can be taken off its list and put back. -/
theorem putFree_dropFree {lists : Nat → List Nat} {block : FrameBlock} {rest : List Nat}
    (hlist : lists block.order = nodeOf block.start :: rest) :
    putFree (dropFree lists block) block = lists := by
  rw [putFree, dropFree, Function.update_self, Function.update_idem, hlist, List.erase_cons_head,
    ← hlist, Function.update_eq_self]

theorem listed_insert {lists : Nat → List Nat} {order : Nat} (horder : order < orderCount)
    (frame : Nat) : listed (putFree lists ⟨frame, order⟩) =
      insert ⟨frame, order⟩ (listed lists) := by
  ext ⟨other, number⟩
  rw [Set.mem_insert_iff, mem_listed_iff, mem_listed_iff, FrameBlock.mk.injEq, putFree]
  by_cases heq : number = order
  · subst heq
    rw [Function.update_self, List.mem_cons, nodeOf_inj.eq_iff]
    simp [horder]
  · simp [heq]

theorem listed_erase {lists : Nat → List Nat} {order : Nat} (hnodup : (lists order).Nodup)
    (frame : Nat) :
    listed (dropFree lists ⟨frame, order⟩) = listed lists \ {⟨frame, order⟩} := by
  ext ⟨other, number⟩
  rw [Set.mem_sdiff, Set.mem_singleton_iff, mem_listed_iff, mem_listed_iff, FrameBlock.mk.injEq,
    dropFree]
  by_cases heq : number = order
  · subst heq
    rw [Function.update_self, hnodup.mem_erase_iff, Ne, nodeOf_inj.eq_iff]
    tauto
  · simp [heq]

/-! ### Access -/

variable {frames : FrameAllocator} {frame order : Nat}

theorem setRecord_eq (hframe : frame < frames.frameCount) (record : FrameRecord) :
    frames.setRecord frame record =
      .ok { frames with records := frames.records.setIfInBounds frame record } := by
  rw [setRecord, if_pos hframe]

theorem getElem?_setRecord (hframe : frame < frames.frameCount) (record : FrameRecord)
    (other : Nat) : (frames.records.setIfInBounds frame record)[other]? =
      if other = frame then some record else frames.records[other]? := by
  have hsize : frame < frames.records.size := hframe
  by_cases hother : other = frame
  · subst hother
    simp [hsize]
  · simp [hother, Array.getElem?_setIfInBounds_ne (Ne.symm hother)]

/-- The lists hold the given nodes, the counts are their lengths, the records of the listed blocks
tell what they are, and the allocated records are those of the given blocks. -/
structure Indexed (frames : FrameAllocator) (lists : Nat → List Nat)
    (allocated : Set FrameBlock) : Prop where
  rings : frames.rings.Holds orderCount lists
  rings_size : frames.rings.size = orderCount + frames.frameCount
  counts_size : frames.freeCounts.size = orderCount
  counts : ∀ order < orderCount, frames.freeCounts[order]? = some (lists order).length
  free_record : ∀ block ∈ listed lists,
    frames.records[block.start]? = some { order := block.order, status := .free }
  allocated_record : ∀ frame order,
    frames.records[frame]? = some { order, status := .allocated } ↔ ⟨frame, order⟩ ∈ allocated

namespace Indexed

variable {lists : Nat → List Nat} {allocated : Set FrameBlock}
  (hframes : frames.Indexed lists allocated)

include hframes

theorem listed_nodup (horder : order < orderCount) : (lists order).Nodup :=
  hframes.rings.nodup order horder

theorem freeCount_eq (horder : order < orderCount) :
    frames.freeCount order = .ok (lists order).length := by
  rw [freeCount, hframes.counts order horder]

/-- The nodes of frames are those that are not heads. -/
theorem exists_of_mem (horder : order < orderCount) {node : Nat} (hnode : node ∈ lists order) :
    ∃ frame < frames.frameCount, node = nodeOf frame := by
  obtain ⟨hle, hlt⟩ := hframes.rings.bounds order horder node hnode
  rw [hframes.rings_size] at hlt
  exact ⟨node - orderCount, by omega, by rw [nodeOf]; omega⟩

/-- A block that is free is not allocated. -/
theorem notMem_allocated {block : FrameBlock} (hblock : block ∈ listed lists) :
    block ∉ allocated := by
  intro hmem
  have hrecord := (hframes.allocated_record block.start block.order).mpr hmem
  rw [hframes.free_record block hblock] at hrecord
  exact absurd hrecord (by simp)

theorem setFreeCount_eq (horder : order < orderCount) (count : Nat) (rings : Rings)
    (records : Array FrameRecord) :
    setFreeCount { frames with rings, records } order count =
      .ok { frames with
        rings, records, freeCounts := frames.freeCounts.setIfInBounds order count } := by
  rw [setFreeCount, if_pos (by rw [hframes.counts_size]; exact horder)]

theorem getElem?_counts (horder : order < orderCount) (count other : Nat) :
    (frames.freeCounts.setIfInBounds order count)[other]? =
      if other = order then some count else frames.freeCounts[other]? := by
  have hsize : order < frames.freeCounts.size := by rw [hframes.counts_size]; exact horder
  by_cases hother : other = order
  · subst hother
    simp [hsize]
  · simp [hother, Array.getElem?_setIfInBounds_ne (Ne.symm hother)]

/-- A block that is neither free nor allocated can be put on the list of its order. -/
theorem pushFree (horder : order < orderCount) (hframe : frame < frames.frameCount)
    (hlisted : ∀ other, ⟨frame, other⟩ ∉ listed lists)
    (hallocated : ∀ other, ⟨frame, other⟩ ∉ allocated) :
    ∃ after, frames.pushFree frame order = .ok after ∧ after.base = frames.base ∧
      after.frameCount = frames.frameCount ∧
      after.Indexed (putFree lists ⟨frame, order⟩) allocated := by
  have hnone : ∀ other < orderCount, nodeOf frame ∉ lists other := fun other hother hmem ↦
    hlisted other ⟨hother, hmem⟩
  have hbeyond : orderCount ≤ nodeOf frame := Nat.le_add_right orderCount frame
  have hnode : nodeOf frame < frames.rings.size := by
    rw [hframes.rings_size, nodeOf]
    omega
  obtain ⟨rings, hinsert, hsize, hholds⟩ :=
    hframes.rings.insertAfter horder hbeyond hnode hnone
  refine ⟨{ frames with
    rings
    records := frames.records.setIfInBounds frame { order, status := .free }
    freeCounts := frames.freeCounts.setIfInBounds order ((lists order).length + 1) }, ?_, rfl,
    Array.size_setIfInBounds, hholds, ?_, ?_, fun other hother ↦ ?_, ?_, fun other number ↦ ?_⟩
  · have hcount : FrameAllocator.freeCount { frames with
        records := frames.records.setIfInBounds frame { order, status := .free } } order =
        .ok (lists order).length := hframes.freeCount_eq horder
    simp only [FrameAllocator.pushFree, setRecord_eq hframe, ok_bind, hinsert, hcount]
    exact hframes.setFreeCount_eq horder _ _ _
  · simp only [frameCount, Array.size_setIfInBounds] at *
    rw [hsize, hframes.rings_size, frameCount]
  · simpa only [Array.size_setIfInBounds] using hframes.counts_size
  · rw [hframes.getElem?_counts horder, putFree, Function.update_apply]
    split_ifs with heq
    · rw [List.length_cons]
    · exact hframes.counts other hother
  · rw [listed_insert horder]
    rintro block (rfl | hblock)
    · rw [getElem?_setRecord hframe, if_pos rfl]
    · rw [getElem?_setRecord hframe, if_neg, hframes.free_record block hblock]
      rintro rfl
      exact hlisted block.order hblock
  · rw [getElem?_setRecord hframe]
    split_ifs with heq
    · subst heq
      exact iff_of_false (by simp) (hallocated number)
    · exact hframes.allocated_record other number

/-- A free block can be taken off its list. -/
theorem takeFree (hblock : ⟨frame, order⟩ ∈ listed lists) :
    ∃ after, frames.takeFree frame order = .ok after ∧ after.base = frames.base ∧
      after.records = frames.records ∧ after.Indexed (dropFree lists ⟨frame, order⟩) allocated := by
  obtain ⟨horder, hmem⟩ : order < orderCount ∧ nodeOf frame ∈ lists order := hblock
  obtain ⟨rings, hremove, hsize, hholds⟩ := hframes.rings.remove horder hmem
  have hlength := List.length_pos_of_mem hmem
  have herase := List.length_erase_of_mem hmem
  refine ⟨{ frames with
    rings, freeCounts := frames.freeCounts.setIfInBounds order ((lists order).length - 1) }, ?_,
    rfl, rfl, hholds, ?_, ?_, fun other hother ↦ ?_, ?_, hframes.allocated_record⟩
  · have hsub : Word.sub (lists order).length 1 = .ok ((lists order).length - 1) := by
      rw [Word.sub, if_pos (Nat.succ_le_of_lt hlength)]
    simp only [FrameAllocator.takeFree, hremove, ok_bind, hframes.freeCount_eq horder, hsub]
    exact hframes.setFreeCount_eq horder _ _ _
  · rw [hsize]
    exact hframes.rings_size
  · simpa only [Array.size_setIfInBounds] using hframes.counts_size
  · rw [hframes.getElem?_counts horder, dropFree, Function.update_apply]
    split_ifs with heq
    · rw [herase]
    · exact hframes.counts other hother
  · rw [listed_erase (hframes.listed_nodup horder)]
    exact fun block hblock ↦ hframes.free_record block hblock.1

/-- The record of a frame that starts no free block can become the record of an allocated one. -/
theorem markAllocated (hframe : frame < frames.frameCount)
    (hlisted : ∀ other, ⟨frame, other⟩ ∉ listed lists)
    (hallocated : ∀ other, ⟨frame, other⟩ ∉ allocated) (order : Nat) :
    ∃ after, frames.setRecord frame { order, status := .allocated } = .ok after ∧
      after.base = frames.base ∧ after.frameCount = frames.frameCount ∧
      after.Indexed lists (insert ⟨frame, order⟩ allocated) := by
  refine ⟨_, setRecord_eq hframe _, rfl, Array.size_setIfInBounds, hframes.rings, ?_,
    hframes.counts_size, hframes.counts, fun block hblock ↦ ?_, fun other number ↦ ?_⟩
  · rw [frameCount, Array.size_setIfInBounds]
    exact hframes.rings_size
  · rw [getElem?_setRecord hframe, if_neg, hframes.free_record block hblock]
    rintro rfl
    exact hlisted block.order hblock
  · rw [getElem?_setRecord hframe, Set.mem_insert_iff, FrameBlock.mk.injEq]
    split_ifs with heq
    · subst heq
      simp [hallocated number, eq_comm]
    · simp [heq, hframes.allocated_record other number]

/-- The record of an allocated block can become that of no block. -/
theorem markFree (hblock : ⟨frame, order⟩ ∈ allocated) (hframe : frame < frames.frameCount)
    (hlisted : ∀ other, ⟨frame, other⟩ ∉ listed lists) :
    ∃ after, frames.setRecord frame { order, status := .free } = .ok after ∧
      after.base = frames.base ∧ after.frameCount = frames.frameCount ∧
      after.Indexed lists (allocated \ {⟨frame, order⟩}) := by
  refine ⟨_, setRecord_eq hframe _, rfl, Array.size_setIfInBounds, hframes.rings, ?_,
    hframes.counts_size, hframes.counts, fun other hother ↦ ?_, fun other number ↦ ?_⟩
  · rw [frameCount, Array.size_setIfInBounds]
    exact hframes.rings_size
  · rw [getElem?_setRecord hframe, if_neg, hframes.free_record other hother]
    rintro rfl
    exact hlisted other.order hother
  · have hold := (hframes.allocated_record frame order).mpr hblock
    rw [getElem?_setRecord hframe, Set.mem_sdiff, Set.mem_singleton_iff, FrameBlock.mk.injEq]
    split_ifs with heq
    · subst heq
      refine iff_of_false (by simp) ?_
      rintro ⟨hmem, hne⟩
      have hrecord := (hframes.allocated_record other number).mpr hmem
      rw [hold, Option.some.injEq, FrameRecord.mk.injEq] at hrecord
      exact hne ⟨rfl, hrecord.1.symm⟩
    · simp [heq, hframes.allocated_record other number]

end Indexed

end FrameAllocator

end KernelMemory
