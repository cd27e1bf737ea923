import KernelMemory.Proofs.Heap.Runs
import KernelMemory.Proofs.Supplier.Frames

/-!
# A heap on a shared pool

A heap takes its pages from a pool of frames that others use as well (`SharedPool`). In turn the
heap is made, called and ended, and the others ask the pool for blocks and give back their own ones.
At all times the pool has lent just the pages of the heap and the blocks that the others hold, and
its allocated bytes are theirs (`SharedPool.frames_conserved`).
-/

set_option autoImplicit false
set_option relaxedAutoImplicit false

namespace KernelMemory

/-- A call of a pool that has returned, with its answer. -/
inductive PoolDeed
  | allocate (order : Nat) (answer : Except AllocError Nat)
  | allocatePages (count : Nat) (answer : Except AllocError Nat)
  | free (frame : Nat) (answer : Except AllocError Unit)

namespace PoolDeed

/-- The call leads from one state of the pool to another and shows events. -/
def Happens (before after : FrameAllocator) (events : List Event) : PoolDeed → Prop
  | .allocate order answer => FramePool.allocate order before = ⟨.ok answer, after, events⟩
  | .allocatePages count answer =>
    FramePool.allocatePages count before = ⟨.ok answer, after, events⟩
  | .free frame answer => FramePool.free frame before = ⟨.ok answer, after, events⟩

/-- Nothing is given back that is not held. -/
def IsFair (held : List FrameBlock) : PoolDeed → Prop
  | .free frame _ => ∃ block ∈ held, block.start = frame
  | _ => True

/-- The blocks that are held after the call. -/
def heldAfter (held : List FrameBlock) : PoolDeed → List FrameBlock
  | .allocate order (.ok frame) => ⟨frame, order⟩ :: held
  | .allocatePages count (.ok frame) => ⟨frame, Word.ceilLog2 count⟩ :: held
  | .free frame (.ok ()) => held.eraseP fun block ↦ block.start == frame
  | _ => held

/-- What is lent to others is not touched by a fair call. -/
theorem Happens.lends {frames after : FrameAllocator} {base count : Nat}
    {others held : List FrameBlock} {events : List Event} {deed : PoolDeed}
    (hdeed : deed.Happens frames after events) (hfair : deed.IsFair held)
    (hlends : frames.Lends base count (others ++ held)) :
    after.Lends base count (others ++ deed.heldAfter held) := by
  cases deed with
  | allocate order answer =>
    have hafter := Act.Ensures.of_any (FramePool.ensures_allocate order) hdeed hlends
    cases answer with
    | error error => exact hafter
    | ok frame => exact hafter.perm List.perm_middle.symm
  | allocatePages pages answer =>
    have hafter := Act.Ensures.of_any (FramePool.ensures_allocatePages fun _ _ ↦ trivial) hdeed
      hlends
    cases answer with
    | error error => exact hafter
    | ok frame => exact hafter.perm List.perm_middle.symm
  | free frame answer =>
    obtain ⟨block, hblock, hstart⟩ := hfair
    obtain ⟨first, hfirst, hperm⟩ := exists_perm_eraseP (fun block ↦ block.start == frame) hblock
      (beq_iff_eq.mpr hstart)
    obtain rfl := beq_iff_eq.mp hfirst
    obtain ⟨value, rfl, hafter⟩ := Act.Gives.of_any FramePool.gives_free hdeed
      (hlends.perm ((hperm.append_left others).trans List.perm_middle))
    exact hafter

end PoolDeed

/-- A pool, the blocks that its users hold, and the heap that takes its pages from the pool, if
there is one. -/
structure SharedPool where
  frames : FrameAllocator
  held : List FrameBlock
  heap : Option (Heap FrameSupplier)
  memory : Memory

namespace SharedPool

/-- A heap is made, called or ended, another user calls the pool, or memory is written. -/
inductive Step : SharedPool → SharedPool → Prop
  | created {frames after : FrameAllocator} {held : List FrameBlock} {memory : Memory}
      {supplier : FrameSupplier} {config : HeapConfig} {events : List Event}
      {answer : Except AllocError (Heap FrameSupplier)}
      (hcreate : Heap.create supplier config frames = ⟨.ok answer, after, events⟩) :
      Step ⟨frames, held, none, memory⟩ ⟨after, held, answer.toOption, memory⟩
  | called {frames : FrameAllocator} {held : List FrameBlock} {heap : Heap FrameSupplier}
      {memory : Memory} {after : HeapState FrameSupplier FrameAllocator} {deed : HeapDeed}
      {events : List Event} (hdeed : deed.Happens ⟨heap, memory, frames⟩ after events) :
      Step ⟨frames, held, some heap, memory⟩ ⟨after.world, held, some after.heap, after.memory⟩
  | destructed {frames after : FrameAllocator} {held : List FrameBlock} {heap : Heap FrameSupplier}
      {memory : Memory} {events : List Event} {answer : Except AllocError FrameSupplier}
      (hdestruct : heap.destruct frames = ⟨.ok answer, after, events⟩) :
      Step ⟨frames, held, some heap, memory⟩ ⟨after, held, none, memory⟩
  | shared {frames after : FrameAllocator} {held : List FrameBlock}
      {heap : Option (Heap FrameSupplier)} {memory : Memory} {deed : PoolDeed}
      {events : List Event} (hdeed : deed.Happens frames after events) (hfair : deed.IsFair held) :
      Step ⟨frames, held, heap, memory⟩ ⟨after, deed.heldAfter held, heap, memory⟩
  | wrote {frames : FrameAllocator} {held : List FrameBlock} {heap : Option (Heap FrameSupplier)}
      {memory after : Memory} : Step ⟨frames, held, heap, memory⟩ ⟨frames, held, heap, after⟩

/-! ### What every step keeps -/

/-- The pool has lent what the users hold and, beside that, what backs the heap. -/
def Sound (base count : Nat) (pool : SharedPool) : Prop :=
  match pool.heap with
  | none => pool.frames.Lends base count pool.held
  | some heap => ∃ offset config used log,
    Heap.KeepsUnder (.ofFrames base count offset pool.held) config used (heap, pool.frames) log

variable {base count offset : Nat} {frames : FrameAllocator} {held : List FrameBlock}

/-- If nothing is out, just the held blocks are lent. -/
theorem lends_of_stands {supplier : FrameSupplier} {log : List Event}
    (hstands : (Contract.ofFrames base count offset held).Stands [] (supplier, frames) log) :
    frames.Lends base count held := by
  obtain ⟨-, blocks, hout, hlends⟩ := hstands.holds
  obtain rfl := List.map_eq_nil_iff.mp hout.symm
  exact hlends

theorem Step.sound {pool after : SharedPool} (hstep : Step pool after)
    (hsound : pool.Sound base count) : after.Sound base count := by
  cases hstep with
  | @created frames after held memory supplier config events answer hcreate =>
    have hstands : (Contract.ofFrames base count supplier.offset held).Stands []
        (supplier, frames) [] := ⟨⟨rfl, [], rfl, hsound⟩, rfl, balanced_nil⟩
    have hafter := (Heap.ensures_create supplier fun _ _ ↦ trivial).of_run hcreate hstands trivial
    cases answer with
    | error error =>
      obtain ⟨_, hstands⟩ := hafter
      exact lends_of_stands hstands
    | ok heap => exact ⟨_, _, _, _, hafter⟩
  | called hdeed =>
    obtain ⟨offset, config, used, log, hkeeps⟩ := hsound
    obtain ⟨next, -, hafter⟩ := Heap.KeepsUnder.deed hkeeps trivial (fun _ ↦ trivial) hdeed
    exact ⟨offset, config, next, _, hafter⟩
  | destructed hdestruct =>
    obtain ⟨offset, config, used, log, hkeeps⟩ := hsound
    obtain ⟨_, -, hstands⟩ := (Heap.gives_destruct _).of_run hdestruct hkeeps trivial
    exact lends_of_stands hstands
  | @shared frames after held heap memory deed events hdeed hfair =>
    cases heap with
    | none =>
      have hafter : after.Lends base count ([] ++ deed.heldAfter held) := hdeed.lends hfair hsound
      exact hafter
    | some heap =>
      obtain ⟨offset, config, used, log, hkeeps⟩ := hsound
      obtain ⟨hoffset, blocks, hout, hlends⟩ := hkeeps.holds
      exact ⟨offset, config, used, log, hkeeps.toKeeps.of_world after, hoffset, blocks, hout,
        hdeed.lends hfair hlends⟩
  | wrote => exact hsound

theorem sound_of_run {memory : Memory} {pool : SharedPool}
    (hframes : FrameAllocator.ofFrames base count = .ok frames)
    (hrun : Relation.ReflTransGen Step ⟨frames, [], none, memory⟩ pool) :
    pool.Sound base count := by
  induction hrun with
  | refl => exact FrameAllocator.lends_ofFrames hframes
  | tail _ hstep ih => exact hstep.sound ih

/-! ### How the frames are shared out -/

/-- The blocks lie under the pages of the heap, one under each. -/
def LieUnder (blocks : List FrameBlock) (pool : SharedPool) : Prop :=
  match pool.heap with
  | none => blocks = []
  | some heap => (heap.layout.pages.toList.map fun entry ↦ Region.mk entry.2.base entry.2.size).Perm
    (blocks.map (FrameBlock.region pool.frames.base heap.supplier.offset))

/-- The bytes of all pages of the heap. -/
def heapBytes (pool : SharedPool) : Nat :=
  match pool.heap with
  | none => 0
  | some heap => heap.layout.total

/-- What the pool has lent are the blocks under the pages of the heap and those that the others
hold. No frame belongs to both, all other frames are free, and no byte is lost. -/
structure SharesOut (base count : Nat) (blocks : List FrameBlock) (pool : SharedPool) : Prop where
  base_eq : pool.frames.base = base
  count_eq : pool.frames.frameCount = count
  pages : pool.LieUnder blocks
  accounted : (⟨pool.frames, blocks ++ pool.held⟩ : FramesInUse).Accounted
  apart : ∀ block ∈ blocks, ∀ other ∈ pool.held, ∀ frame,
    block.Covers frame → ¬ other.Covers frame
  free_iff : ∀ frame < count, (∃ block, pool.frames.OnFreeList block ∧ block.Covers frame) ↔
    ∀ block ∈ blocks ++ pool.held, ¬ block.Covers frame
  conserved : pool.frames.allocatedBytes =
    pool.heapBytes + (pool.held.map FrameBlock.bytes).sum

/-- It is enough to know what is lent and what the pages are. -/
theorem sharesOut_of_lends {blocks : List FrameBlock} {pool : SharedPool}
    (hlends : pool.frames.Lends base count (blocks ++ pool.held)) (hpages : pool.LieUnder blocks)
    (hbytes : pool.heapBytes = (blocks.map FrameBlock.bytes).sum) :
    pool.SharesOut base count blocks where
  base_eq := hlends.base_eq
  count_eq := hlends.count_eq
  pages := hpages
  accounted := by
    obtain ⟨lists, hheld⟩ := hlends.held
    exact hheld.accounted
  apart := fun block hblock other hother frame hcovers hcoversOther ↦ by
    have hsame := hlends.eq_of_covers (List.mem_append_left _ hblock)
      (List.mem_append_right _ hother) hcovers hcoversOther
    exact (List.nodup_append.mp hlends.nodup).2.2 block hblock other hother hsame
  free_iff := fun frame hframe ↦ hlends.exists_free_iff hframe
  conserved := by
    rw [hlends.allocatedBytes_eq, List.map_append, List.sum_append, hbytes]

/-- A page on the region of a block has all of its bytes. -/
theorem pageSize_region {block : FrameBlock} (horder : block.order ≤ topOrder) (base offset : Nat) :
    (block.region base offset).pageSize = block.bytes := by
  have hsize : block.size ≤ 2 ^ topOrder := Nat.pow_le_pow_right (by decide) horder
  have htop : 2 ^ topOrder * frameSize ≤ maxBlockSize := by decide
  have hle : block.bytes ≤ maxBlockSize := (Nat.mul_le_mul_right frameSize hsize).trans htop
  have hdvd : blockAlign ∣ block.bytes := Dvd.dvd.mul_left (by decide) _
  unfold Region.pageSize
  rw [FrameBlock.region, Nat.min_eq_left hle, Nat.div_mul_cancel hdvd]

section Heap

variable {config : HeapConfig} {used : Set UsedBlock} {heap : Heap FrameSupplier} {log : List Event}
  {blocks : List FrameBlock}
  (hkeeps : Heap.KeepsUnder (.ofFrames base count offset held) config used (heap, frames) log)
  (hout : outstanding log = blocks.map (FrameBlock.region base offset))
  (hlends : frames.Lends base count (blocks ++ held))

include hkeeps hout hlends

theorem pages_perm :
    (heap.layout.pages.toList.map fun entry ↦ Region.mk entry.2.base entry.2.size).Perm
      (blocks.map (FrameBlock.region base offset)) := by
  have hperm := (hkeeps.perm.map fun span ↦ Region.mk span.1 span.2).symm
  rw [List.map_map, List.map_map, hout, List.map_map] at hperm
  refine hperm.trans (List.Perm.of_eq (List.map_congr_left fun block hblock ↦ ?_))
  have horder := hlends.order_le (List.mem_append_left held hblock)
  rw [Function.comp_apply, Function.comp_apply, pageSize_region horder]
  rfl

theorem sharesOut_of_keeps (memory : Memory) :
    SharesOut base count blocks ⟨frames, held, some heap, memory⟩ := by
  have hperm := pages_perm hkeeps hout hlends
  refine sharesOut_of_lends hlends ?_ ?_
  · obtain ⟨hoffset, -⟩ := hkeeps.holds
    show List.Perm _ (blocks.map (FrameBlock.region frames.base heap.supplier.offset))
    rw [hlends.base_eq, hoffset]
    exact hperm
  · have hsum := (hperm.map Region.size).sum_eq
    rw [List.map_map, List.map_map] at hsum
    show heap.layout.total = _
    exact hkeeps.settled.shaped.total_eq_sum.trans hsum

omit hlends in
/-- A growth that fails leaves the pages and all that is lent as they were. -/
theorem sharesOut_of_refused_growth {size : Nat} {error : AllocError}
    {site : Heap.Site FrameSupplier FrameAllocator} {events : List Event}
    (hsize : size ≤ maxBlockSize)
    (hgrow : Heap.grow size (heap, frames) = ⟨.ok (.error error), site, events⟩) (memory : Memory) :
    site.1.layout = heap.layout ∧
      SharesOut base count blocks ⟨site.2, held, some site.1, memory⟩ := by
  have hat := (Heap.ensures_grow hkeeps.valid hkeeps.settled hkeeps.backed hsize).of_run hgrow
    hkeeps.at trivial
  obtain ⟨-, same, hsame, hlendsAfter⟩ := hat.stands.holds
  obtain rfl : blocks = same :=
    List.map_injective_iff.mpr (FrameBlock.region_injective base offset) (hout.symm.trans hsame)
  refine ⟨hat.layout_eq, ?_⟩
  exact sharesOut_of_keeps (hat.keeps hkeeps.valid hkeeps.settled hkeeps.backed)
    (hat.stands.out_eq.trans hout) hlendsAfter memory

end Heap

/-- Whatever a heap and the other users of a pool do in turn, the blocks that the pool has lent are
those under the pages of the heap and those that the others hold, and all else is free: after the
heap ended, if none could be made, and after a growth that failed. -/
theorem frames_conserved {memory : Memory} {pool : SharedPool}
    (hframes : FrameAllocator.ofFrames base count = .ok frames)
    (hrun : Relation.ReflTransGen Step ⟨frames, [], none, memory⟩ pool) :
    ∃ blocks, pool.SharesOut base count blocks ∧
      ∀ heap size error site events, pool.heap = some heap → size ≤ maxBlockSize →
        Heap.grow size (heap, pool.frames) = ⟨.ok (.error error), site, events⟩ →
        site.1.layout = heap.layout ∧
          { pool with frames := site.2, heap := some site.1 }.SharesOut base count blocks := by
  have hsound := sound_of_run hframes hrun
  obtain ⟨frames, held, heap, memory⟩ := pool
  cases heap with
  | none =>
    refine ⟨[], sharesOut_of_lends hsound rfl rfl, fun heap size error site events heq ↦ ?_⟩
    cases heq
  | some heap =>
    obtain ⟨offset, config, used, log, hkeeps⟩ := hsound
    obtain ⟨-, blocks, hout, hlends⟩ := id hkeeps.holds
    refine ⟨blocks, sharesOut_of_keeps hkeeps hout hlends memory,
      fun other size error site events heq hsize hgrow ↦ ?_⟩
    obtain rfl : heap = other := Option.some.inj heq
    exact sharesOut_of_refused_growth hkeeps hout hsize hgrow memory

/-- A new pool of sixteen frames, the first of which is at address zero. -/
def newPool : FrameAllocator :=
  match FrameAllocator.ofFrames 0 16 with
  | .ok frames => frames
  | .error _ => .unlisted 0 16

/-- The pool after no heap could be made, as its first page would lie at address zero. -/
def zeroRejected : Outcome FrameAllocator (Heap FrameSupplier) := Heap.create ⟨0⟩ {} newPool

/-- The pool when a user has taken its first frame. -/
def firstFrame : Outcome FrameAllocator Nat := FramePool.allocate 0 zeroRejected.state

/-- A heap on its first page. -/
def backedPage : Outcome (Heap.Site FrameSupplier FrameAllocator) Unit :=
  Heap.grow (HeapConfig.pageSize {}) ({ config := {}, supplier := ⟨0⟩ }, firstFrame.state)

/-- The heap with one block in use. -/
def backedTaken : Outcome (HeapState FrameSupplier FrameAllocator) Nat :=
  HeapState.allocate 100 ⟨backedPage.state.1, .blank, backedPage.state.2⟩

/-- No heap can be made at first, and all frames are free again. When the first frame is held by
another user there is a heap on the frames four to seven, which cannot grow beyond the pool. -/
theorem frames_conserved_of_one_page :
    zeroRejected.answer = .ok (.error .misalignedRegion) ∧
    SharesOut 0 16 [] ⟨zeroRejected.state, [], none, .blank⟩ ∧
    ∃ blocks,
      SharesOut 0 16 blocks ⟨backedTaken.state.world, [⟨0, 0⟩], some backedTaken.state.heap,
        backedTaken.state.memory⟩ ∧
      backedTaken.state.world.allocatedBytes = 20480 ∧ backedTaken.state.heap.layout.total = 16384 ∧
      ∃ site events, Heap.grow (2 ^ 22) (backedTaken.state.heap, backedTaken.state.world) =
          ⟨.ok (.error .noMemoryAvailable), site, events⟩ ∧
        SharesOut 0 16 blocks ⟨site.2, [⟨0, 0⟩], some site.1, backedTaken.state.memory⟩ := by
  have hframes : FrameAllocator.ofFrames 0 16 = .ok newPool := by decide +kernel
  have hrejected : zeroRejected.answer = .ok (.error .misalignedRegion) :=
    eq_refused_of_map (by decide +kernel)
  have hvalid : ({} : HeapConfig).validate.run = .ok (.ok ()) := by decide +kernel
  have hfirst : firstFrame.answer = .ok (.ok 0) := by decide +kernel
  have hpage : backedPage.answer = .ok (.ok ()) := by decide +kernel
  have htaken : backedTaken.answer = .ok (.ok 16400) := by decide +kernel
  have hbytes : backedTaken.state.world.allocatedBytes = 20480 := by decide +kernel
  have htotal : backedTaken.state.heap.layout.total = 16384 := by decide +kernel
  have hgrow : (Heap.grow (2 ^ 22) (backedTaken.state.heap, backedTaken.state.world)).answer =
      .ok (.error .noMemoryAvailable) := by decide +kernel
  have hreject : Step ⟨newPool, [], none, .blank⟩ ⟨zeroRejected.state, [], none, .blank⟩ :=
    .created (Outcome.eq_of_answer hrejected rfl)
  have hlends : (PoolDeed.allocate 0 (.ok 0)).Happens zeroRejected.state firstFrame.state _ :=
    Outcome.eq_of_answer hfirst rfl
  have hlend : Step ⟨zeroRejected.state, [], none, .blank⟩
      ⟨firstFrame.state, [⟨0, 0⟩], none, .blank⟩ := .shared hlends trivial
  have hmake : Step ⟨firstFrame.state, [⟨0, 0⟩], none, .blank⟩
      ⟨backedPage.state.2, [⟨0, 0⟩], some backedPage.state.1, .blank⟩ :=
    .created (Heap.create_run hvalid (Outcome.eq_of_answer hpage rfl))
  have htakes : (HeapDeed.allocate 100 (.ok 16400)).Happens
      ⟨backedPage.state.1, .blank, backedPage.state.2⟩ backedTaken.state _ :=
    Outcome.eq_of_answer htaken rfl
  have htake : Step ⟨backedPage.state.2, [⟨0, 0⟩], some backedPage.state.1, .blank⟩
      ⟨backedTaken.state.world, [⟨0, 0⟩], some backedTaken.state.heap,
        backedTaken.state.memory⟩ := .called htakes
  have hrun := ((Relation.ReflTransGen.single hreject).tail hlend).tail hmake
  obtain ⟨rejected, hnone, -⟩ := frames_conserved hframes (Relation.ReflTransGen.single hreject)
  obtain rfl : rejected = [] := hnone.pages
  obtain ⟨blocks, hblocks, hgrows⟩ := frames_conserved hframes (hrun.tail htake)
  have hfails := Outcome.eq_of_answer hgrow rfl
  dsimp only at hgrows
  have hafter :=
    hgrows backedTaken.state.heap (2 ^ 22) .noMemoryAvailable _ _ rfl (by decide) hfails
  exact ⟨hrejected, hnone, blocks, hblocks, hbytes, htotal, _, _, hfails, hafter.2⟩

end SharedPool

end KernelMemory
