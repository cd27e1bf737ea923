import KernelMemory.Proofs.Heap.Runs

/-!
# Allocations apart

Allocations that are live at the same time share no byte (`HeapState.Separated`), and a call writes
no more than the tag of the block it takes or frees (`HeapState.Spares`). So what a client has
written behind a pointer stays there until it frees it (`HeapRun.separated`).
-/

set_option autoImplicit false
set_option relaxedAutoImplicit false

namespace KernelMemory

namespace Memory

/-- The byte at an address. It is part of the word at the multiple of eight before it, where the
lowest byte comes first. -/
def byteAt (memory : Memory) (address : Nat) : Nat :=
  memory.word (address / 8 * 8) / 2 ^ (8 * (address % 8)) % 2 ^ 8

variable {before after memory middle : Memory} {places more : Set Nat} {address : Nat}

theorem agreesOutside_refl (memory : Memory) (places : Set Nat) :
    memory.AgreesOutside places memory := fun _ _ _ ↦ rfl

theorem AgreesOutside.mono (hagrees : before.AgreesOutside places after) (hsub : places ⊆ more) :
    before.AgreesOutside more after := fun address hdvd hplaces ↦
  hagrees address hdvd fun offset hoffset hmem ↦ hplaces offset hoffset (hsub hmem)

theorem AgreesOutside.trans (hfirst : before.AgreesOutside places middle)
    (hsecond : middle.AgreesOutside more after) : before.AgreesOutside (places ∪ more) after := by
  intro address hdvd hplaces
  rw [hsecond address hdvd fun offset hoffset hmem ↦ hplaces offset hoffset (.inr hmem)]
  exact hfirst address hdvd fun offset hoffset hmem ↦ hplaces offset hoffset (.inl hmem)

theorem AgreesOutside.byteAt_eq (hagrees : before.AgreesOutside places after)
    (hplaces : ∀ offset < 8, address / 8 * 8 + offset ∉ places) :
    after.byteAt address = before.byteAt address := by
  unfold byteAt
  rw [hagrees _ (Nat.dvd_mul_left 8 _) hplaces]

/-- Only the tag is written. -/
theorem agreesOutside_writeTag (memory : Memory) (address : Nat) (tag : Tag) :
    memory.AgreesOutside (Set.Ico address (address + headerSize))
      (memory.writeTag address tag) := by
  intro other _ hplaces
  have hplace := hplaces 0 (by decide)
  rw [headerSize_eq, Set.mem_Ico] at hplace
  simp only [writeTag, write]
  rw [if_neg (by omega), if_neg (by omega)]

end Memory

namespace HeapDeed

/-- The places of the tag in front of a pointer. -/
def headerOf (pointer : Nat) : Set Nat := Set.Ico (pointer - headerSize) pointer

/-- The places of the tag of the block that the call takes or frees. -/
def header (deed : HeapDeed) : Set Nat :=
  match deed.grant?, deed.freed? with
  | some grant, _ => headerOf grant.pointer
  | none, some pointer => headerOf pointer
  | none, none => ∅

theorem headerOf_add (address : Nat) :
    headerOf (address + headerSize) = Set.Ico address (address + headerSize) := by
  unfold headerOf
  rw [Nat.add_sub_cancel]

end HeapDeed

namespace HeapState

variable {κ ω : Type}

/-- The places of an allocation: its payload and the tag in front of it. -/
def extent (state : HeapState κ ω) (pointer : Nat) : Set Nat :=
  HeapDeed.headerOf pointer ∪ state.payload pointer

/-- The allocations behind the pointers are known to the heap. Each lies in a page of its own region
that is not given back, and no two of them share a byte. -/
structure Separated (state : HeapState κ ω) (pointers : List Nat) (log : List Event) : Prop where
  nodup : pointers.Nodup
  usable : ∀ pointer ∈ pointers, headerSize ≤ pointer ∧
    ∃ size, usableSize pointer state = ⟨.ok (.ok size), state, []⟩
  inside : ∀ pointer ∈ pointers, ∃ number page region,
    state.heap.layout.pages.get? number = some page ∧ region ∈ outstanding log ∧
    page.base = region.base ∧ page.size ≤ region.size ∧
    state.extent pointer ⊆ Set.Ico page.base (page.base + page.size)
  apart : ∀ first ∈ pointers, ∀ second ∈ pointers, first ≠ second →
    Disjoint (state.extent first) (state.extent second)

/-- An allocation has the place that was asked for, and nothing is written but one tag. The
allocations that stay keep their places and their bytes. -/
structure Spares [PageSupplier κ ω] (before after : HeapState κ ω) (pointers : List Nat)
    (deed : HeapDeed) : Prop where
  granted : ∀ grant, deed.grant? = some grant → grant.pointer % max grant.align blockAlign = 0 ∧
    ∃ size, usableSize grant.pointer after = ⟨.ok (.ok size), after, []⟩ ∧ grant.size ≤ size
  written : before.memory.AgreesOutside deed.header after.memory
  payload : ∀ pointer ∈ pointers, pointer ∈ HeapDeed.liveAfter pointers deed →
    after.payload pointer = before.payload pointer ∧
    ∀ address ∈ before.payload pointer, after.memory.byteAt address = before.memory.byteAt address

variable {state : HeapState κ ω} {used : Set UsedBlock} {pointers : List Nat} {log : List Event}

/-- The places of an allocation are those of its block. -/
theorem extent_of_used (hsettled : state.heap.layout.Settled) {block : UsedBlock}
    (hused : block ∈ usedBlocks state.heap.layout.blocks.get?) (htag : state.IsTagged block) :
    state.extent (block.address + headerSize) =
      Set.Ico block.address (block.address + block.size) := by
  have hmin := hsettled.scattered.min_le block hused
  rw [minBlockSize_eq] at hmin
  unfold extent
  rw [HeapDeed.headerOf_add, payload_of_used hsettled hused htag]
  apply Set.Ico_union_Ico_eq_Ico (Nat.le_add_right _ _)
  rw [headerSize_eq]
  omega

theorem separated_of_tagged {config : HeapConfig}
    (hkeeps : Heap.Keeps config used (state.heap, state.world) log)
    (hpoints : Points used pointers) (htagged : Tagged used state.memory) :
    state.Separated pointers log := by
  obtain rfl := hkeeps.used_eq
  have hsettled := hkeeps.settled
  have hextent : ∀ block ∈ usedBlocks state.heap.layout.blocks.get?,
      state.extent (block.address + headerSize) =
        Set.Ico block.address (block.address + block.size) := fun block hblock ↦
    extent_of_used hsettled hblock (htagged block hblock)
  refine ⟨hpoints.nodup, fun pointer hpointer ↦ ?_, fun pointer hpointer ↦ ?_,
    fun first hfirst second hsecond hne ↦ ?_⟩
  · obtain ⟨block, hblock, rfl⟩ := (hpoints.mem_iff pointer).mp hpointer
    exact ⟨Nat.le_add_left _ _, _, usableSize_of_used hsettled hblock (htagged block hblock)⟩
  · obtain ⟨block, hblock, rfl⟩ := (hpoints.mem_iff pointer).mp hpointer
    obtain ⟨number, page, hpage, hbase, hend⟩ := hsettled.exists_page hblock
    obtain ⟨region, hregion, hsame, hsize⟩ := hkeeps.backed.region number page hpage
    refine ⟨number, page, region, hpage, hregion, hsame.symm, hsize ▸ region.pageSize_le, ?_⟩
    rw [hextent block hblock]
    exact Set.Ico_subset_Ico hbase hend
  · obtain ⟨block, hblock, rfl⟩ := (hpoints.mem_iff first).mp hfirst
    obtain ⟨other, hother, rfl⟩ := (hpoints.mem_iff second).mp hsecond
    have hapart := hsettled.scattered.apart block hblock other hother fun heq ↦ hne (heq ▸ rfl)
    rw [hextent block hblock, hextent other hother, Set.Ico_disjoint_Ico]
    omega

end HeapState

/-- A block that is in use before and after lies apart from all that are so at one of the times. -/
theorem Scattered.apart_of_mem {used next : Set UsedBlock} (hused : Scattered used)
    (hnext : Scattered next) {first second : UsedBlock} (hfirst : first ∈ used ∪ next)
    (hsecond : second ∈ used ∩ next) (hne : first ≠ second) :
    first.address + first.size ≤ second.address ∨
      second.address + second.size ≤ first.address := by
  rcases hfirst with hfirst | hfirst
  · exact hused.apart first hfirst second hsecond.1 hne
  · exact hnext.apart first hfirst second hsecond.2 hne

namespace HeapDeed.Moves

variable {used next : Set UsedBlock} {memory after : Memory} {deed : HeapDeed}
  (hmoves : deed.Moves used memory next after)

include hmoves

/-- The tag that is written is that of a block which is not in use both before and after. -/
theorem header_eq : (deed.header = ∅ ∧ after = memory) ∨
    ∃ block tag, block ∈ used ∪ next ∧ (block ∉ used ∨ block ∉ next) ∧
      deed.header = Set.Ico block.address (block.address + headerSize) ∧
      after = memory.writeTag block.address tag := by
  cases hmoves with
  | @takes _ grant block hgrant hnew hpointer _ _ =>
    refine Or.inr ⟨block, _, Or.inr (Set.mem_insert _ _), Or.inl hnew, ?_, rfl⟩
    simp only [header, hgrant, hpointer, headerOf_add]
  | @frees block hblock _ =>
    refine Or.inr ⟨block, _, Or.inl hblock, Or.inr fun hmem ↦ hmem.2 rfl, ?_, rfl⟩
    simp [header, grant?, freed?, headerSize_eq, headerOf]
  | idles hgrant hfreed =>
    refine Or.inl ⟨?_, rfl⟩
    simp only [header, hgrant, hfreed]

/-- A call writes the tag of the block that it takes or frees and nothing else. -/
theorem agreesOutside : memory.AgreesOutside deed.header after := by
  rcases hmoves.header_eq with ⟨-, rfl⟩ | ⟨block, tag, -, -, hheader, rfl⟩
  · exact after.agreesOutside_refl _
  · rw [hheader]
    exact memory.agreesOutside_writeTag _ _

/-- What is granted is the payload of a new block. -/
theorem exists_of_grant {grant : Grant} (hgrant : deed.grant? = some grant) :
    grant.pointer % max grant.align blockAlign = 0 ∧
      ∃ block ∈ next, grant.pointer = block.address + headerSize ∧
        grant.size + headerSize ≤ block.size := by
  cases hmoves with
  | @takes _ other block hother hnew hpointer hsize haligned =>
    obtain rfl : other = grant := Option.some.inj (hother.symm.trans hgrant)
    exact ⟨haligned, block, Set.mem_insert _ _, hpointer, hsize⟩
  | frees _ _ => exact absurd hgrant (by simp [grant?])
  | idles hnone _ => exact absurd (hnone.symm.trans hgrant) (by simp)

variable (hused : Scattered used) (hnext : Scattered next)

include hused hnext

/-- The bytes behind the pointer of a block that stays in use are not written. -/
theorem byteAt_eq {block : UsedBlock} (hblock : block ∈ used ∩ next) {address : Nat}
    (haddress : address ∈ Set.Ico (block.address + headerSize) (block.address + block.size)) :
    after.byteAt address = memory.byteAt address := by
  refine hmoves.agreesOutside.byteAt_eq fun offset hoffset hmem ↦ ?_
  rcases hmoves.header_eq with ⟨hnone, -⟩ | ⟨other, -, hother, hchanged, hheader, -⟩
  · rw [hnone] at hmem
    exact hmem
  · have hne : other ≠ block := by
      rintro rfl
      exact hchanged.elim (fun hnot ↦ hnot hblock.1) fun hnot ↦ hnot hblock.2
    have hapart := hused.apart_of_mem hnext hother hblock hne
    have hmin : minBlockSize ≤ other.size :=
      hother.elim (hused.min_le other) (hnext.min_le other)
    have hdvd := hused.address_dvd block hblock.1
    have hsize := hused.size_dvd block hblock.1
    rw [hheader, Set.mem_Ico] at hmem
    rw [Set.mem_Ico] at haddress
    rw [minBlockSize_eq] at hmin
    rw [blockAlign_eq] at hdvd hsize
    rw [headerSize_eq] at hmem haddress
    omega

/-- A pointer that is out before and after is that of a block that stays in use. -/
theorem exists_of_mem {pointers : List Nat} (hpoints : Points used pointers) {pointer : Nat}
    (hpointer : pointer ∈ pointers) (hstays : pointer ∈ liveAfter pointers deed) :
    ∃ block ∈ used ∩ next, pointer = block.address + headerSize := by
  obtain ⟨block, hblock, rfl⟩ := (hpoints.mem_iff pointer).mp hpointer
  obtain ⟨other, hother, hsame⟩ := ((hmoves.points hused hnext hpoints).mem_iff _).mp hstays
  have haddress : block.address = other.address := Nat.add_right_cancel hsame
  have heq : block = other := by
    cases hmoves with
    | takes _ _ _ _ _ =>
      exact hnext.eq_of_address_eq (Set.mem_insert_of_mem _ hblock) hother haddress
    | frees _ _ => exact hused.eq_of_address_eq hblock hother.1 haddress
    | idles _ _ => exact hused.eq_of_address_eq hblock hother haddress
  exact ⟨block, ⟨hblock, heq ▸ hother⟩, rfl⟩

end HeapDeed.Moves

namespace HeapRun

variable {κ ω : Type} [PageSupplier κ ω] {state : HeapState κ ω} {deeds : List HeapDeed}
  {log : List Event}

/-- If clients write only behind their own pointers, then after every run the allocations that are
live lie apart in pages of the heap, and whatever call comes next grants what it is asked for and
leaves the bytes of the others alone. -/
theorem separated (hrun : HeapRun HeapState.Honest state deeds log) (horderly : Orderly log) :
    state.Separated (HeapDeed.live deeds) log ∧
    ∀ deed after events, deed.Happens state after events → Orderly (log ++ events) →
      state.Spares after (HeapDeed.live deeds) deed := by
  obtain ⟨config, used, hkeeps, hpoints, htagged⟩ := hrun.exists_tagged horderly
  refine ⟨HeapState.separated_of_tagged hkeeps hpoints htagged,
    fun deed after events hdeed hmore ↦ ?_⟩
  obtain ⟨next, hmoves, hafter⟩ := hkeeps.deed hmore hdeed
  have hused : Scattered used := hkeeps.used_eq ▸ hkeeps.settled.scattered
  have hnext : Scattered next := hafter.used_eq ▸ hafter.settled.scattered
  have htaggedNext := hmoves.tagged hused hnext htagged
  refine ⟨fun grant hgrant ↦ ?_, hmoves.agreesOutside, fun pointer hpointer hstays ↦ ?_⟩
  · obtain ⟨haligned, block, hblock, hpointer, hsize⟩ := hmoves.exists_of_grant hgrant
    refine ⟨haligned, block.size - headerSize, ?_, by omega⟩
    rw [hpointer]
    exact HeapState.usableSize_of_used hafter.settled (hafter.used_eq ▸ hblock)
      (htaggedNext block hblock)
  · obtain ⟨block, hblock, rfl⟩ := hmoves.exists_of_mem hused hnext hpoints hpointer hstays
    have hbefore : state.payload (block.address + headerSize) = _ :=
      HeapState.payload_of_used hkeeps.settled (hkeeps.used_eq ▸ hblock.1) (htagged block hblock.1)
    have hlater : after.payload (block.address + headerSize) = _ :=
      HeapState.payload_of_used hafter.settled (hafter.used_eq ▸ hblock.2)
        (htaggedNext block hblock.2)
    rw [hbefore]
    exact ⟨hlater, fun address haddress ↦ hmoves.byteAt_eq hused hnext hblock haddress⟩

/-- A single allocation is live, and whatever call comes next leaves it alone. -/
theorem separated_of_one_allocation :
    ∃ (state : HeapState LinearSupplier Unit) (log : List Event),
      HeapRun HeapState.Honest state [.allocate 100 (.ok 4112)] log ∧ Orderly log ∧
      state.Separated [4112] log ∧
      ∀ deed after events, deed.Happens state after events → Orderly (log ++ events) →
        state.Spares after [4112] deed := by
  obtain ⟨taken, -, log, htaken, -, horderly⟩ := exists_run_of_one_allocation
  exact ⟨taken, log, htaken _, horderly, separated (htaken _) horderly⟩

end HeapRun

end KernelMemory
