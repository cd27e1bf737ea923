import KernelMemory.Proofs.Heap.Lifetime
import KernelMemory.Proofs.Heap.Pointers
import KernelMemory.Supplier.Linear

/-!
# Runs of a heap

A heap is made and then used by calls in any order with any arguments (`HeapDeed`). In between its
clients write to memory and the world that its supplier shares may change (`HeapRun`). The pointers
that were handed out and did not come back (`HeapDeed.live`) are at all times those of the blocks in
use (`HeapRun.exists_points`), whatever was written.

Clients that in the pages of the heap only write behind their own pointers (`HeapState.Honest`)
leave all tags in place.
-/

set_option autoImplicit false
set_option relaxedAutoImplicit false

namespace KernelMemory

/-- A call that has returned, with its answer. -/
inductive HeapDeed
  | allocate (size : Nat) (answer : Except AllocError Nat)
  | allocateAligned (size align : Nat) (answer : Except AllocError Nat)
  | deallocate (pointer : Nat) (answer : Except AllocError Unit)
  | usableSize (pointer : Nat) (answer : Except AllocError Nat)

/-- An allocation that was granted: what was asked for, and the pointer that was given. -/
structure Grant where
  size : Nat
  align : Nat
  pointer : Nat
deriving DecidableEq, Repr

namespace HeapDeed

/-- The call leads from one state to another and shows events. -/
def Happens {κ ω : Type} [PageSupplier κ ω] (before after : HeapState κ ω)
    (events : List Event) : HeapDeed → Prop
  | .allocate size answer => HeapState.allocate size before = ⟨.ok answer, after, events⟩
  | .allocateAligned size align answer =>
    HeapState.allocateAligned size align before = ⟨.ok answer, after, events⟩
  | .deallocate pointer answer =>
    HeapState.deallocate pointer before = ⟨.ok answer, after, events⟩
  | .usableSize pointer answer =>
    HeapState.usableSize pointer before = ⟨.ok answer, after, events⟩

/-- The allocation that the call brought about. -/
def grant? : HeapDeed → Option Grant
  | .allocate size (.ok pointer) => some ⟨size, blockAlign, pointer⟩
  | .allocateAligned size align (.ok pointer) => some ⟨size, align, pointer⟩
  | _ => none

/-- The pointer that the call took back. -/
def freed? : HeapDeed → Option Nat
  | .deallocate pointer (.ok ()) => if pointer = 0 then none else some pointer
  | _ => none

/-- The pointers that are handed out after the call. -/
def liveAfter (pointers : List Nat) (deed : HeapDeed) : List Nat :=
  match deed.grant?, deed.freed? with
  | some grant, _ => grant.pointer :: pointers
  | none, some pointer => pointers.erase pointer
  | none, none => pointers

/-- The pointers that were handed out and did not come back. -/
def live (deeds : List HeapDeed) : List Nat := deeds.foldl liveAfter []

theorem live_snoc (deeds : List HeapDeed) (deed : HeapDeed) :
    live (deeds ++ [deed]) = liveAfter (live deeds) deed :=
  List.foldl_append

/-- What a call does to the blocks in use and to memory. -/
inductive Moves (used : Set UsedBlock) (memory : Memory) :
    HeapDeed → Set UsedBlock → Memory → Prop
  | takes {deed : HeapDeed} {grant : Grant} {block : UsedBlock} (hgrant : deed.grant? = some grant)
      (hnew : block ∉ used) (hpointer : grant.pointer = block.address + headerSize)
      (hsize : grant.size + headerSize ≤ block.size)
      (haligned : grant.pointer % max grant.align blockAlign = 0) :
      Moves used memory deed (insert block used)
        (memory.writeTag block.address (.live block.index))
  | frees {block : UsedBlock} (hused : block ∈ used)
      (htag : memory.tagAt block.address = .live block.index) :
      Moves used memory (.deallocate (block.address + headerSize) (.ok ())) (used \ {block})
        (memory.writeTag block.address .dead)
  | idles {deed : HeapDeed} (hgrant : deed.grant? = none) (hfreed : deed.freed? = none) :
      Moves used memory deed used memory

end HeapDeed

/-! ### Single calls -/

namespace Heap.KeepsUnder

variable {κ ω : Type} [PageSupplier κ ω] {contract : Contract κ ω} {config : HeapConfig}
  {used : Set UsedBlock} {state after : HeapState κ ω} {log events : List Event}
  (hkeeps : KeepsUnder contract config used (state.heap, state.world) log)
  (hadmits : contract.terms.Admits (log ++ events))

include hkeeps hadmits

theorem allocateAligned {size align : Nat} {answer : Except AllocError Nat} {deed : HeapDeed}
    (hforgives : ∀ fault, contract.terms.Forgives fault)
    (hrun : HeapState.allocateAligned size align state = ⟨.ok answer, after, events⟩)
    (hgrant : deed.grant? = answer.toOption.map fun pointer ↦ ⟨size, align, pointer⟩)
    (hfreed : deed.freed? = none) : ∃ next, deed.Moves used state.memory next after.memory ∧
      KeepsUnder contract config next (after.heap, after.world) (log ++ events) := by
  have hpost := (HeapState.ensures_allocateAligned align (Or.inr hforgives)).of_run hrun
    ⟨rfl, hkeeps⟩ hadmits
  cases answer with
  | error error =>
    obtain ⟨hmemory, hafter⟩ := hpost
    rw [hmemory]
    exact ⟨used, .idles hgrant hfreed, hafter⟩
  | ok pointer =>
    obtain ⟨⟨block, hnew, hpointer, hsize, hmemory, hafter⟩, haligned⟩ := hpost
    rw [hmemory]
    exact ⟨_, .takes hgrant hnew hpointer hsize haligned, hafter⟩

theorem deallocate {pointer : Nat} {answer : Except AllocError Unit}
    (hrun : HeapState.deallocate pointer state = ⟨.ok answer, after, events⟩) :
    ∃ next, (HeapDeed.deallocate pointer answer).Moves used state.memory next after.memory ∧
      KeepsUnder contract config next (after.heap, after.world) (log ++ events) := by
  have hpost := (HeapState.ensures_deallocate pointer).of_run hrun ⟨rfl, hkeeps⟩ hadmits
  cases answer with
  | error error =>
    obtain ⟨hmemory, hafter⟩ := hpost
    rw [hmemory]
    exact ⟨used, .idles rfl rfl, hafter⟩
  | ok value =>
    rcases hpost with ⟨rfl, hmemory, hafter⟩ | ⟨block, hblock, rfl, htag, hmemory, hafter⟩
    · rw [hmemory]
      exact ⟨used, .idles rfl rfl, hafter⟩
    · rw [hmemory]
      exact ⟨_, .frees hblock htag, hafter⟩

/-- A call that returns does one of three things. -/
theorem deed {deed : HeapDeed} (hforgives : ∀ fault, contract.terms.Forgives fault)
    (hdeed : deed.Happens state after events) :
    ∃ next, deed.Moves used state.memory next after.memory ∧
      KeepsUnder contract config next (after.heap, after.world) (log ++ events) := by
  cases deed with
  | allocate size answer =>
    refine hkeeps.allocateAligned hadmits hforgives hdeed ?_ rfl
    cases answer <;> rfl
  | allocateAligned size align answer =>
    refine hkeeps.allocateAligned hadmits hforgives hdeed ?_ rfl
    cases answer <;> rfl
  | deallocate pointer answer => exact hkeeps.deallocate hadmits hdeed
  | usableSize pointer answer =>
    obtain ⟨hmemory, hafter⟩ := (HeapState.ensures_usableSize pointer).of_run hdeed
      ⟨rfl, hkeeps⟩ hadmits
    rw [hmemory]
    exact ⟨used, .idles rfl rfl, hafter⟩

end Heap.KeepsUnder

namespace Heap.Keeps

variable {κ ω : Type} [PageSupplier κ ω] {config : HeapConfig} {used : Set UsedBlock}
  {state after : HeapState κ ω} {log events : List Event}

/-- Suppliers that keep order need nothing else. -/
theorem underOrderly {site : Heap.Site κ ω} (hkeeps : Keeps config used site log) :
    KeepsUnder Contract.orderly config used site log :=
  ⟨hkeeps, trivial⟩

/-- A call that returns does one of three things as long as the suppliers keep order. -/
theorem deed (hkeeps : Heap.Keeps config used (state.heap, state.world) log)
    (horderly : Orderly (log ++ events)) {deed : HeapDeed}
    (hdeed : deed.Happens state after events) :
    ∃ next, deed.Moves used state.memory next after.memory ∧
      Heap.Keeps config next (after.heap, after.world) (log ++ events) := by
  obtain ⟨next, hmoves, hafter⟩ := hkeeps.underOrderly.deed horderly (fun _ ↦ trivial) hdeed
  exact ⟨next, hmoves, hafter.toKeeps⟩

end Heap.Keeps

/-! ### Blocks, pointers and tags -/

/-- Blocks in use start and end at whole alignment steps, and no two of them overlap. -/
structure Scattered (used : Set UsedBlock) : Prop where
  address_dvd : ∀ block ∈ used, blockAlign ∣ block.address
  size_dvd : ∀ block ∈ used, blockAlign ∣ block.size
  min_le : ∀ block ∈ used, minBlockSize ≤ block.size
  apart : ∀ first ∈ used, ∀ second ∈ used, first ≠ second →
    first.address + first.size ≤ second.address ∨ second.address + second.size ≤ first.address

namespace Scattered

variable {used : Set UsedBlock} (hscattered : Scattered used) {first second : UsedBlock}
  (hfirst : first ∈ used) (hsecond : second ∈ used)

include hscattered hfirst hsecond

/-- The tags of two blocks do not overlap, for no block is shorter than a tag. -/
theorem headers_apart (hne : first ≠ second) :
    first.address + headerSize ≤ second.address ∨ second.address + headerSize ≤ first.address := by
  have hapart := hscattered.apart first hfirst second hsecond hne
  have hminFirst := hscattered.min_le first hfirst
  have hminSecond := hscattered.min_le second hsecond
  rw [minBlockSize_eq] at hminFirst hminSecond
  rw [headerSize_eq]
  omega

theorem eq_of_address_eq (haddress : first.address = second.address) : first = second := by
  by_contra hne
  have hapart := hscattered.headers_apart hfirst hsecond hne
  rw [headerSize_eq] at hapart
  omega

end Scattered

namespace Layout.Settled

variable {layout : Layout} (hsettled : layout.Settled)

include hsettled

theorem scattered : Scattered (usedBlocks layout.blocks.get?) := by
  have htiled := hsettled.shaped.tiled
  refine ⟨?_, ?_, ?_, ?_⟩
  · rintro block ⟨record, hrecord, -, -, haddress, -⟩
    rw [← haddress]
    exact (htiled.start hrecord).1
  · rintro block ⟨record, hrecord, -, -, -, hsize⟩
    rw [← hsize]
    exact htiled.size_dvd hrecord
  · rintro block ⟨record, hrecord, -, hne, -, hsize⟩
    obtain ⟨next, hnext⟩ := htiled.exists_next hrecord hne
    rw [← hsize]
    exact (htiled.inner _ _ _ hrecord hnext).1
  · rintro ⟨number, address, size⟩ ⟨record, hrecord, -, -, rfl, rfl⟩
      ⟨otherNumber, otherAddress, otherSize⟩ ⟨other, hother, -, -, rfl, rfl⟩ hne
    refine htiled.blocks_apart hrecord hother ?_
    rintro rfl
    obtain rfl : record = other := Option.some.inj (hrecord.symm.trans hother)
    exact hne rfl

/-- A block in use lies in a page. -/
theorem exists_page {block : UsedBlock} (hused : block ∈ usedBlocks layout.blocks.get?) :
    ∃ number page, layout.pages.get? number = some page ∧ page.base ≤ block.address ∧
      block.address + block.size ≤ page.base + page.size := by
  obtain ⟨record, hrecord, -, -, haddress, hsize⟩ := hused
  obtain ⟨page, hpage, -⟩ := hsettled.shaped.tiled.end_le _ _ hrecord
  rw [← haddress, ← hsize]
  exact ⟨record.page, page, hpage, hsettled.shaped.tiled.within hrecord hpage⟩

end Layout.Settled

/-- The pointers are those of the blocks in use. -/
structure Points (used : Set UsedBlock) (pointers : List Nat) : Prop where
  nodup : pointers.Nodup
  mem_iff : ∀ pointer, pointer ∈ pointers ↔ ∃ block ∈ used, pointer = block.address + headerSize

/-- The tags of all blocks in use are in place. -/
def Tagged (used : Set UsedBlock) (memory : Memory) : Prop :=
  ∀ block ∈ used, memory.tagAt block.address = .live block.index

theorem points_empty : Points ∅ [] where
  nodup := List.nodup_nil
  mem_iff := fun pointer ↦ by simp

theorem Memory.tagAt_writeTag (memory : Memory) (address : Nat) (tag : Tag) :
    (memory.writeTag address tag).tagAt address = tag := by
  obtain ⟨block, mark⟩ := tag
  simp [tagAt, writeTag, write]

/-- A tag that is written elsewhere does not show. -/
theorem Memory.tagAt_writeTag_of_apart {memory : Memory} {address other : Nat} {tag : Tag}
    (hapart : address + headerSize ≤ other ∨ other + headerSize ≤ address) :
    (memory.writeTag address tag).tagAt other = memory.tagAt other := by
  rw [headerSize_eq] at hapart
  simp only [tagAt, writeTag, write, Tag.mk.injEq]
  refine ⟨?_, ?_⟩
  · rw [if_neg (by omega), if_neg (by omega)]
  · rw [if_neg (by omega), if_neg (by omega)]

namespace HeapDeed.Moves

variable {used next : Set UsedBlock} {memory after : Memory} {deed : HeapDeed}
  (hmoves : deed.Moves used memory next after) (hused : Scattered used) (hnext : Scattered next)

include hmoves hused hnext

theorem points {pointers : List Nat} (hpoints : Points used pointers) :
    Points next (liveAfter pointers deed) := by
  cases hmoves with
  | @takes _ grant block hgrant hnew hpointer _ _ =>
    have hlive : liveAfter pointers deed = grant.pointer :: pointers := by
      simp only [liveAfter, hgrant]
    rw [hlive]
    refine ⟨List.nodup_cons.mpr ⟨fun hmem ↦ ?_, hpoints.nodup⟩, fun pointer ↦ ?_⟩
    · obtain ⟨other, hother, hsame⟩ := (hpoints.mem_iff _).mp hmem
      have heq : other = block := hnext.eq_of_address_eq (Set.mem_insert_of_mem _ hother)
        (Set.mem_insert _ _) (Nat.add_right_cancel (hsame.symm.trans hpointer))
      exact hnew (heq ▸ hother)
    · rw [List.mem_cons, hpoints.mem_iff, hpointer]
      simp only [Set.mem_insert_iff, exists_eq_or_imp]
  | @frees block hblock _ =>
    have hlive : liveAfter pointers (.deallocate (block.address + headerSize) (.ok ())) =
        pointers.erase (block.address + headerSize) := by
      simp [liveAfter, grant?, freed?, headerSize_eq]
    rw [hlive]
    refine ⟨hpoints.nodup.erase _, fun pointer ↦ ?_⟩
    rw [hpoints.nodup.mem_erase_iff, hpoints.mem_iff]
    constructor
    · rintro ⟨hne, other, hother, rfl⟩
      exact ⟨other, ⟨hother, fun heq ↦ hne (congrArg (·.address + headerSize) heq)⟩, rfl⟩
    · rintro ⟨other, ⟨hother, hne⟩, rfl⟩
      refine ⟨fun heq ↦ hne ?_, other, hother, rfl⟩
      exact hused.eq_of_address_eq hother hblock (Nat.add_right_cancel heq)
  | idles hgrant hfreed =>
    have hlive : liveAfter pointers deed = pointers := by
      simp only [liveAfter, hgrant, hfreed]
    rw [hlive]
    exact hpoints

theorem tagged (htagged : Tagged used memory) : Tagged next after := by
  cases hmoves with
  | @takes _ _ block _ hnew _ _ _ =>
    rintro other (rfl | hother)
    · exact Memory.tagAt_writeTag _ _ _
    · have hne : block ≠ other := fun heq ↦ hnew (heq ▸ hother)
      rw [Memory.tagAt_writeTag_of_apart (hnext.headers_apart (Set.mem_insert _ _)
        (Set.mem_insert_of_mem _ hother) hne)]
      exact htagged other hother
  | @frees block hblock _ =>
    rintro other ⟨hother, hne⟩
    rw [Memory.tagAt_writeTag_of_apart (hused.headers_apart hblock hother (Ne.symm hne))]
    exact htagged other hother
  | idles _ _ => exact htagged

end HeapDeed.Moves

/-! ### Writes of clients -/

/-- All words but those with a byte at one of the places are as they were. Words lie at multiples
of eight. -/
def Memory.AgreesOutside (places : Set Nat) (before after : Memory) : Prop :=
  ∀ address, 8 ∣ address → (∀ offset < 8, address + offset ∉ places) →
    after.word address = before.word address

namespace HeapState

variable {κ ω : Type}

/-- The places behind a pointer that a client may use. -/
def payload (state : HeapState κ ω) (pointer : Nat) : Set Nat :=
  {address | ∃ size, (usableSize pointer state).answer = .ok (.ok size) ∧
    pointer ≤ address ∧ address < pointer + size}

/-- The places in the pages of the heap. -/
def pagePlaces (state : HeapState κ ω) : Set Nat :=
  {address | ∃ number page, state.heap.layout.pages.get? number = some page ∧
    page.base ≤ address ∧ address < page.base + page.size}

/-- In the pages of the heap, memory comes about by writes behind the pointers alone. All other
memory may be written in any way. -/
def Honest (state : HeapState κ ω) (pointers : List Nat) (memory : Memory) : Prop :=
  state.memory.AgreesOutside
    ({address | ∃ pointer ∈ pointers, address ∈ state.payload pointer} ∪ state.pagePlacesᶜ) memory

variable {state : HeapState κ ω} {used : Set UsedBlock} {pointers : List Nat} {memory : Memory}

/-- Behind the pointer of a block in use lies the rest of the block. -/
theorem payload_of_used (hsettled : state.heap.layout.Settled) {block : UsedBlock}
    (hused : block ∈ usedBlocks state.heap.layout.blocks.get?) (htag : state.IsTagged block) :
    state.payload (block.address + headerSize) =
      Set.Ico (block.address + headerSize) (block.address + block.size) := by
  have hmin := hsettled.scattered.min_le block hused
  rw [minBlockSize_eq] at hmin
  have hend : block.address + headerSize + (block.size - headerSize) =
      block.address + block.size := by
    rw [headerSize_eq]
    omega
  ext address
  simp only [payload, usableSize_of_used hsettled hused htag, Set.mem_ofPred_eq, Except.ok.injEq,
    exists_eq_left', hend, Set.mem_Ico]

/-- Honest writes leave the tags in place. -/
theorem Honest.tagged (hhonest : state.Honest pointers memory)
    (hsettled : state.heap.layout.Settled)
    (hpoints : Points (usedBlocks state.heap.layout.blocks.get?) pointers)
    (htagged : Tagged (usedBlocks state.heap.layout.blocks.get?) state.memory) :
    Tagged (usedBlocks state.heap.layout.blocks.get?) memory := by
  intro block hblock
  have hscattered := hsettled.scattered
  have hword : ∀ address, 8 ∣ address → block.address ≤ address →
      address + 8 ≤ block.address + headerSize →
      memory.word address = state.memory.word address := by
    intro address hdvd hle hend
    have hmin := hscattered.min_le block hblock
    rw [minBlockSize_eq] at hmin
    rw [headerSize_eq] at hend
    refine hhonest address hdvd fun offset hoffset hmem ↦ ?_
    rcases hmem with ⟨pointer, hpointer, hplace⟩ | houtside
    · obtain ⟨other, hother, rfl⟩ := (hpoints.mem_iff _).mp hpointer
      rw [payload_of_used hsettled hother (htagged other hother), Set.mem_Ico] at hplace
      rw [headerSize_eq] at hplace
      by_cases hsame : block = other
      · subst hsame
        omega
      · have hapart := hscattered.apart block hblock other hother hsame
        omega
    · obtain ⟨number, page, hpage, hbase, hpageEnd⟩ := hsettled.exists_page hblock
      exact houtside ⟨number, page, hpage, by omega, by omega⟩
  have hdvd := hscattered.address_dvd block hblock
  rw [blockAlign_eq] at hdvd
  rw [← htagged block hblock]
  simp only [Memory.tagAt, Tag.mk.injEq]
  refine ⟨hword _ (by omega) (Nat.le_refl _) ?_, hword _ (by omega) (Nat.le_add_right _ _) ?_⟩
  · rw [headerSize_eq]
    omega
  · rw [headerSize_eq]

end HeapState

/-! ### Runs -/

/-- A heap is made, and calls that return follow. In between memory changes as it may, and the world
that the supplier shares changes in any way. -/
inductive HeapRun {κ ω : Type} [PageSupplier κ ω]
    (mayWrite : HeapState κ ω → List Nat → Memory → Prop) :
    HeapState κ ω → List HeapDeed → List Event → Prop
  | created {supplier : κ} {config : HeapConfig} {world after : ω} {heap : Heap κ}
      {events : List Event}
      (hcreate : Heap.create supplier config world = ⟨.ok (.ok heap), after, events⟩)
      (memory : Memory) : HeapRun mayWrite ⟨heap, memory, after⟩ [] events
  | called {state after : HeapState κ ω} {deeds : List HeapDeed} {deed : HeapDeed}
      {log events : List Event} (hrun : HeapRun mayWrite state deeds log)
      (hdeed : deed.Happens state after events) :
      HeapRun mayWrite after (deeds ++ [deed]) (log ++ events)
  | wrote {state : HeapState κ ω} {deeds : List HeapDeed} {log : List Event} {memory : Memory}
      (hrun : HeapRun mayWrite state deeds log)
      (hwrite : mayWrite state (HeapDeed.live deeds) memory) :
      HeapRun mayWrite { state with memory } deeds log
  | shared {state : HeapState κ ω} {deeds : List HeapDeed} {log : List Event}
      (hrun : HeapRun mayWrite state deeds log) (world : ω) :
      HeapRun mayWrite { state with world } deeds log

/-- Memory may be written in any way. -/
def AnyWrite {κ ω : Type} (_ : HeapState κ ω) (_ : List Nat) (_ : Memory) : Prop := True

namespace HeapRun

variable {κ ω : Type} [PageSupplier κ ω] {state : HeapState κ ω} {deeds : List HeapDeed}
  {log : List Event} {mayWrite : HeapState κ ω → List Nat → Memory → Prop}

/-- What calls and writes keep holds after a run. -/
theorem exists_points_and {kept : Set UsedBlock → Memory → Prop}
    (hrun : HeapRun mayWrite state deeds log) (horderly : Orderly log)
    (hnew : ∀ memory, kept ∅ memory)
    (hmoves : ∀ used next memory after deed, Scattered used → Scattered next →
      HeapDeed.Moves used memory deed next after → kept used memory → kept next after)
    (hwrite : ∀ (state : HeapState κ ω) pointers memory, state.heap.layout.Settled →
      Points (usedBlocks state.heap.layout.blocks.get?) pointers →
      mayWrite state pointers memory →
      kept (usedBlocks state.heap.layout.blocks.get?) state.memory →
      kept (usedBlocks state.heap.layout.blocks.get?) memory) :
    ∃ config used, Heap.Keeps config used (state.heap, state.world) log ∧
      Points used (HeapDeed.live deeds) ∧ kept used state.memory := by
  induction hrun with
  | @created supplier config world after heap events hcreate memory =>
    have hcreated := (@Heap.ensures_create κ ω _ .orderly config supplier fun _ _ ↦ trivial).of_run
      hcreate ⟨trivial, rfl, balanced_nil⟩ horderly
    exact ⟨config, ∅, hcreated.toKeeps, points_empty, hnew memory⟩
  | @called state after deeds deed log events hrun hdeed ih =>
    obtain ⟨config, used, hkeeps, hpoints, hkept⟩ := ih horderly.of_append
    obtain ⟨next, hmove, hafter⟩ := hkeeps.deed horderly hdeed
    have hused : Scattered used := hkeeps.used_eq ▸ hkeeps.settled.scattered
    have hnext : Scattered next := hafter.used_eq ▸ hafter.settled.scattered
    rw [HeapDeed.live_snoc]
    exact ⟨config, next, hafter, hmove.points hused hnext hpoints,
      hmoves _ _ _ _ _ hused hnext hmove hkept⟩
  | @wrote state deeds log memory hrun hmay ih =>
    obtain ⟨config, used, hkeeps, hpoints, hkept⟩ := ih horderly
    obtain rfl := hkeeps.used_eq
    exact ⟨config, _, hkeeps, hpoints, hwrite state _ memory hkeeps.settled hpoints hmay hkept⟩
  | @shared state deeds log hrun world ih =>
    obtain ⟨config, used, hkeeps, hpoints, hkept⟩ := ih horderly
    exact ⟨config, used, hkeeps.of_world world, hpoints, hkept⟩

/-- Whatever is written, the pointers that are out are those of the blocks in use. -/
theorem exists_points (hrun : HeapRun mayWrite state deeds log) (horderly : Orderly log) :
    ∃ config used, Heap.Keeps config used (state.heap, state.world) log ∧
      Points used (HeapDeed.live deeds) := by
  obtain ⟨config, used, hkeeps, hpoints, -⟩ := @exists_points_and κ ω _ state deeds log mayWrite
    (fun _ _ ↦ True) hrun horderly (fun _ ↦ trivial) (fun _ _ _ _ _ _ _ _ _ ↦ trivial)
    fun _ _ _ _ _ _ _ ↦ trivial
  exact ⟨config, used, hkeeps, hpoints⟩

/-- With honest clients the tags of the blocks in use are in place. -/
theorem exists_tagged (hrun : HeapRun HeapState.Honest state deeds log) (horderly : Orderly log) :
    ∃ config used, Heap.Keeps config used (state.heap, state.world) log ∧
      Points used (HeapDeed.live deeds) ∧ Tagged used state.memory := by
  refine exists_points_and hrun horderly (fun memory block hblock ↦ ?_)
    (fun used next memory after deed hused hnext hmove htagged ↦ hmove.tagged hused hnext htagged)
    fun state pointers memory hsettled hpoints hhonest htagged ↦
      hhonest.tagged hsettled hpoints htagged
  exact absurd hblock (Set.notMem_empty block)

/-- A supplier that hands out one region after the other takes all of them back. -/
theorem linear_takesBack (site : LinearSupplier × Unit) (out : List Region) :
    PageSupplier.TakesBack site out :=
  fun _ _ ↦ ⟨_, rfl⟩

theorem linear_upholds : PageSupplier.Upholds fun (_ : LinearSupplier × Unit) _ ↦ True where
  supply := fun _ _ _ _ answer _ _ _ _ ↦ by cases answer <;> trivial
  release := fun _ _ _ _ _ _ _ _ _ ↦ trivial

/-- A heap on its first page. -/
def firstPage : Outcome (Heap.Site LinearSupplier Unit) Unit :=
  Heap.grow (HeapConfig.pageSize {})
    ({ config := {}, supplier := { next := 4096, stop := 2 ^ 32 } }, ())

/-- The heap with one block in use. -/
def oneTaken : Outcome (HeapState LinearSupplier Unit) Nat :=
  HeapState.allocate 100 ⟨firstPage.state.1, .blank, firstPage.state.2⟩

/-- What is seen of that. -/
def firstLog : List Event := [.supplied 16384 ⟨4096, 16384⟩, .noted (.pageAdded 4096 16384)]

theorem orderly_firstLog : Orderly firstLog :=
  (orderly_of_one (by decide) 16384).append (by decide)

theorem oneTaken_run (mayWrite : HeapState LinearSupplier Unit → List Nat → Memory → Prop) :
    HeapRun mayWrite oneTaken.state [.allocate 100 (.ok 4112)] firstLog := by
  have hvalid : ({} : HeapConfig).validate.run = .ok (.ok ()) := by decide +kernel
  have hpage : firstPage.answer = .ok (.ok ()) := by decide +kernel
  have hlog : firstPage.events = firstLog := by decide +kernel
  have htake : oneTaken.answer = .ok (.ok 4112) := by decide +kernel
  have htakeLog : oneTaken.events = [] := by decide +kernel
  have hnew : HeapRun mayWrite ⟨firstPage.state.1, .blank, firstPage.state.2⟩ [] firstLog :=
    .created (Heap.create_run hvalid (Outcome.eq_of_answer hpage hlog)) .blank
  have htakes : (HeapDeed.allocate 100 (.ok 4112)).Happens
      ⟨firstPage.state.1, .blank, firstPage.state.2⟩ oneTaken.state [] :=
    Outcome.eq_of_answer htake htakeLog
  exact .called hnew htakes

/-- On a heap with a single page a block is taken and freed again. -/
theorem exists_run_of_one_allocation :
    ∃ (taken freed : HeapState LinearSupplier Unit) (log : List Event),
      (∀ mayWrite, HeapRun mayWrite taken [.allocate 100 (.ok 4112)] log) ∧
      (∀ mayWrite, HeapRun mayWrite freed
        [.allocate 100 (.ok 4112), .deallocate 4112 (.ok ())] log) ∧ Orderly log := by
  have hfree : (HeapState.deallocate 4112 oneTaken.state).answer = .ok (.ok ()) := by decide +kernel
  have hfreeLog : (HeapState.deallocate 4112 oneTaken.state).events = [] := by decide +kernel
  have hfrees : (HeapDeed.deallocate 4112 (.ok ())).Happens oneTaken.state
      (HeapState.deallocate 4112 oneTaken.state).state [] := Outcome.eq_of_answer hfree hfreeLog
  exact ⟨_, _, _, oneTaken_run, fun mayWrite ↦ .called (oneTaken_run mayWrite) hfrees,
    orderly_firstLog⟩

end HeapRun

end KernelMemory
