import KernelMemory.Proofs.Heap.AtOnce

/-!
# No byte is lost

Every byte of a page belongs to a free block or to a block in use. So the free bytes and the blocks
behind the pointers that are out, each with its tag, make up the pages at all times, although the
free bytes are only counted up and down. An allocation takes a block of the size that it needs or
one alignment step larger, since a rest of that size makes no block of its own, and what it needs is
at most a sixteenth more than the payload with its tag (`HeapRun.bytes_conserved`).
-/

set_option autoImplicit false
set_option relaxedAutoImplicit false

namespace KernelMemory

/-! ### How much is rounded up -/

/-- A size in whole alignment steps grows by at most a sixteenth. -/
theorem rounded_le {size rounded : Nat} (hdvd : blockAlign ∣ size)
    (hround : roundUp size = .ok rounded) : 16 * rounded ≤ 17 * size := by
  obtain rfl := roundUp_eq hround
  rcases Nat.lt_or_ge size smallSize with hsmall | hlarge
  · have hwidth : SizeClass.width size = blockAlign := if_pos hsmall
    have hle := (SizeClass.isLeast_ceiling size).2 ⟨hwidth ▸ hdvd, Nat.le_refl size⟩
    omega
  · have hlt := SizeClass.ceiling_lt size
    have hwidth := SizeClass.width_mul_le hlarge
    omega

namespace HeapRequest

variable {size need : Nat}

/-- Of a block at most a sixteenth is there because of its class. -/
theorem blockSize_le (hblock : blockSize size = .ok (.ok need)) : 16 * need ≤ 17 * (size + 31) := by
  obtain ⟨hround, -⟩ := roundUp_of_blockSize hblock
  have hsteps := Nat.div_mul_le_self (size + (blockAlign - 1)) blockAlign
  have hdvd := Nat.dvd_mul_left blockAlign ((size + (blockAlign - 1)) / blockAlign)
  have hle := rounded_le (Nat.dvd_add hdvd (by decide : blockAlign ∣ headerSize)) hround
  rw [blockAlign_eq] at hsteps hle
  rw [headerSize_eq] at hle
  omega

end HeapRequest

/-! ### The bytes of the blocks in use -/

/-- The sizes of some blocks in use, taken together. -/
noncomputable def bytesOf (used : Set UsedBlock) : Nat := ∑ᶠ block ∈ used, block.size

/-- What a block weighs that is in use. -/
def Block.usedSize (block : Block) : Nat := if block.isFree then 0 else block.size

theorem Block.freeSize_add_usedSize (block : Block) :
    block.freeSize + block.usedSize = block.size := by
  unfold freeSize usedSize
  split_ifs
  · exact Nat.add_zero _
  · exact Nat.zero_add _

theorem usedBlocks_eq_image (blocks : Nat → Option Block) : usedBlocks blocks =
    (fun index ↦ (⟨index, (blocks index).elim 0 Block.address,
      (blocks index).elim 0 Block.size⟩ : UsedBlock)) ''
      {index | (blocks index).elim 0 Block.usedSize ≠ 0} := by
  ext ⟨index, address, size⟩
  simp only [usedBlocks, Set.mem_ofPred_eq, Set.mem_image, UsedBlock.mk.injEq]
  constructor
  · rintro ⟨block, hblock, hused, hsize, rfl, rfl⟩
    refine ⟨index, ?_, rfl, ?_, ?_⟩
    · rw [hblock]
      simpa [Block.usedSize, hused] using hsize
    · rw [hblock]
      rfl
    · rw [hblock]
      rfl
  · rintro ⟨other, hweight, rfl, rfl, rfl⟩
    cases hblock : blocks other with
    | none => simp [hblock] at hweight
    | some block =>
      cases hfree : block.isFree with
      | true => simp [hblock, Block.usedSize, hfree] at hweight
      | false => exact ⟨block, rfl, hfree, by simpa [hblock, Block.usedSize, hfree] using hweight,
          rfl, rfl⟩

theorem finite_usedBlocks (blocks : Arena Block) : (usedBlocks blocks.get?).Finite := by
  rw [usedBlocks_eq_image]
  refine ((Arena.indices_finite blocks).subset fun index hweight hnone ↦ ?_).image _
  rw [Set.mem_ofPred_eq, hnone] at hweight
  exact hweight rfl

theorem bytesOf_usedBlocks (blocks : Nat → Option Block) :
    bytesOf (usedBlocks blocks) = sumOf Block.usedSize blocks := by
  have hinj : Function.Injective fun index ↦ (⟨index, (blocks index).elim 0 Block.address,
      (blocks index).elim 0 Block.size⟩ : UsedBlock) :=
    fun first second heq ↦ congrArg UsedBlock.index heq
  unfold bytesOf sumOf
  rw [usedBlocks_eq_image, finsum_mem_image hinj.injOn, finsum_mem_def]
  refine finsum_congr fun index ↦ ?_
  by_cases hweight : (blocks index).elim 0 Block.usedSize = 0
  · rw [Set.indicator_of_notMem (not_not.mpr hweight), hweight]
  · rw [Set.indicator_of_mem hweight]
    cases hblock : blocks index with
    | none => rfl
    | some block =>
      simp only [hblock, Option.elim_some, Block.usedSize] at hweight ⊢
      split_ifs at hweight ⊢
      · exact absurd rfl hweight
      · rfl

/-- A block that is taken adds its bytes. -/
theorem bytesOf_insert {used : Set UsedBlock} (hfinite : used.Finite) {block : UsedBlock}
    (hnew : block ∉ used) : bytesOf (insert block used) = bytesOf used + block.size := by
  unfold bytesOf
  rw [finsum_mem_insert _ hnew hfinite, Nat.add_comm]

/-- The bytes in use are those behind the pointers, with a tag for each. -/
theorem Points.bytesOf_eq {used : Set UsedBlock} {pointers : List Nat}
    (hpoints : Points used pointers) (hscattered : Scattered used) {usable : Nat → Nat}
    (husable : ∀ block ∈ used, block.size = usable (block.address + headerSize) + headerSize) :
    bytesOf used = (pointers.map fun pointer ↦ usable pointer + headerSize).sum := by
  have hinj : Set.InjOn (fun block : UsedBlock ↦ block.address + headerSize) used :=
    fun first hfirst second hsecond heq ↦
      hscattered.eq_of_address_eq hfirst hsecond (Nat.add_right_cancel heq)
  have himage : (fun block : UsedBlock ↦ block.address + headerSize) '' used =
      ↑pointers.toFinset := by
    ext pointer
    rw [List.coe_toFinset, Set.mem_ofPred_eq, hpoints.mem_iff]
    simp only [Set.mem_image, eq_comm]
  calc bytesOf used
      = ∑ᶠ block ∈ used, (usable (block.address + headerSize) + headerSize) :=
        finsum_mem_congr rfl husable
    _ = ∑ᶠ pointer ∈ (fun block : UsedBlock ↦ block.address + headerSize) '' used,
          (usable pointer + headerSize) :=
        (finsum_mem_image (f := fun pointer ↦ usable pointer + headerSize) hinj).symm
    _ = (pointers.map fun pointer ↦ usable pointer + headerSize).sum := by
        rw [himage, finsum_mem_coe_finset, List.sum_toFinset _ hpoints.nodup]

namespace Layout.Settled

variable {layout after : Layout} (hsettled : layout.Settled)

include hsettled

/-- Free bytes and bytes in use make up the pages. -/
theorem free_add_bytesOf :
    layout.free + bytesOf (usedBlocks layout.blocks.get?) = layout.total := by
  have hfinite := Arena.indices_finite layout.blocks
  rw [bytesOf_usedBlocks, ← hsettled.shaped.free, ← hsettled.shaped.total, sumOf_eq_sum hfinite,
    sumOf_eq_sum hfinite, sumOf_eq_sum hfinite, ← Finset.sum_add_distrib]
  refine Finset.sum_congr rfl fun index _ ↦ ?_
  cases layout.blocks.get? index with
  | none => rfl
  | some block => exact block.freeSize_add_usedSize

/-- What is taken out of a free block is as large as needed or one alignment step larger, and these
are the bytes that are no longer free. -/
theorem free_take {index need align used : Nat} {block part : Block}
    (hblock : layout.blocks.get? index = some block) (hfree : block.isFree = true)
    (hneed : BlockNeed need align) (hroom : need ≤ block.size)
    (halign : align = blockAlign ∨ need + align + minBlockSize ≤ block.size)
    (htake : layout.take index need align = .ok (used, after))
    (hpart : after.blocks.get? used = some part) :
    after.Settled ∧ after.total = layout.total ∧ ∃ taken ∈ usedBlocks after.blocks.get?,
      taken.index = used ∧ taken.address = part.address ∧
      (taken.size = need ∨ taken.size = need + blockAlign) ∧
      after.free + taken.size = layout.free := by
  obtain ⟨_, _, _, heq, hsettledAfter, hsame, hnew, hused, hpages, hle, hlt, -⟩ :=
    hsettled.take hblock hfree hneed hroom halign
  obtain ⟨rfl, rfl⟩ := Prod.mk.inj (Except.ok.inj (htake.symm.trans heq))
  obtain rfl := Option.some.inj (hpart.symm.trans hsame)
  have htotal : after.total = layout.total := by
    rw [← hsettledAfter.shaped.page_total, hpages, hsettled.shaped.page_total]
  have hbefore := hsettled.free_add_bytesOf
  have hafter := hsettledAfter.free_add_bytesOf
  rw [hused, bytesOf_insert (finite_usedBlocks layout.blocks) hnew, htotal] at hafter
  have hdvd := hsettledAfter.shaped.tiled.size_dvd hpart
  have hneedDvd := hneed.dvd
  dsimp only at hafter
  rw [blockAlign_eq] at hdvd hneedDvd ⊢
  rw [minBlockSize_eq] at hlt
  refine ⟨hsettledAfter, htotal, _, hused ▸ Set.mem_insert _ _, rfl, rfl, ?_, ?_⟩
  · show part.size = need ∨ part.size = need + 16
    omega
  · show after.free + part.size = layout.free
    omega

end Layout.Settled

/-! ### Allocations -/

namespace HeapState

variable {κ ω : Type} {state taken : HeapState κ ω} {size align pointer : Nat} {events : List Event}

/-- Behind every pointer lies a block in use, all of which can be used but for its tag. These blocks
and the free bytes make up the pages. -/
structure Accounts (state : HeapState κ ω) (pointers : List Nat) (usable : Nat → Nat) : Prop where
  block : ∀ pointer ∈ pointers, ∃ index block, state.heap.layout.blocks.get? index = some block ∧
    block.isFree = false ∧ pointer = block.address + headerSize ∧
    block.size = usable pointer + headerSize
  answer : ∀ pointer ∈ pointers, ∀ size after events,
    usableSize pointer state = ⟨.ok (.ok size), after, events⟩ → size = usable pointer
  conserved : state.heap.layout.free +
    (pointers.map fun pointer ↦ usable pointer + headerSize).sum = state.heap.layout.total

/-- The allocation took a block of the size that it needs, or one alignment step larger, and nothing
else, out of the free bytes of a layout. -/
structure Fits (before : Layout) (size need usable pointer : Nat) (taken : HeapState κ ω) :
    Prop where
  need_eq : roundUp ((size + (blockAlign - 1)) / blockAlign * blockAlign + headerSize) = .ok need
  usable_eq : usableSize pointer taken = ⟨.ok (.ok usable), taken, []⟩
  block_eq : usable + headerSize = need ∨ usable + headerSize = need + blockAlign
  size_le : size ≤ usable
  le_need : usable ≤ need
  waste_le : 16 * usable ≤ 17 * (size + 31)
  free_eq : taken.heap.layout.free + (usable + headerSize) = before.free
  total_eq : taken.heap.layout.total = before.total

theorem accounts_of_points (hsettled : state.heap.layout.Settled) {pointers : List Nat}
    (hpoints : Points (usedBlocks state.heap.layout.blocks.get?) pointers) :
    ∃ usable, state.Accounts pointers usable ∧
      (Tagged (usedBlocks state.heap.layout.blocks.get?) state.memory → ∀ pointer ∈ pointers,
        usableSize pointer state = ⟨.ok (.ok (usable pointer)), state, []⟩) := by
  have hscattered := hsettled.scattered
  have hsizes : ∀ pointer, ∃ size, ∀ block ∈ usedBlocks state.heap.layout.blocks.get?,
      pointer = block.address + headerSize → block.size = size + headerSize := by
    intro pointer
    by_cases hmem : pointer ∈ pointers
    · obtain ⟨block, hblock, rfl⟩ := (hpoints.mem_iff pointer).mp hmem
      have hmin := hscattered.min_le block hblock
      refine ⟨block.size - headerSize, fun other hother haddress ↦ ?_⟩
      obtain rfl := hscattered.eq_of_address_eq hblock hother (Nat.add_right_cancel haddress)
      exact (Nat.sub_add_cancel ((by decide : headerSize ≤ minBlockSize).trans hmin)).symm
    · refine ⟨0, fun block hblock haddress ↦ ?_⟩
      exact absurd ((hpoints.mem_iff pointer).mpr ⟨block, hblock, haddress⟩) hmem
  choose usable husable using hsizes
  have hanswer : ∀ block ∈ usedBlocks state.heap.layout.blocks.get?, state.IsTagged block →
      usableSize (block.address + headerSize) state =
        ⟨.ok (.ok (usable (block.address + headerSize))), state, []⟩ := by
    intro block hblock htag
    rw [usableSize_of_used hsettled hblock htag, husable _ block hblock rfl, Nat.add_sub_cancel]
  refine ⟨usable, ⟨fun pointer hpointer ↦ ?_, fun pointer hpointer size after events hrun ↦ ?_, ?_⟩,
    fun htagged pointer hpointer ↦ ?_⟩
  · obtain ⟨block, hblock, rfl⟩ := (hpoints.mem_iff pointer).mp hpointer
    have hsize := husable _ block hblock rfl
    obtain ⟨record, hrecord, hused, -, haddress, hsame⟩ := hblock
    exact ⟨_, record, hrecord, hused, by rw [haddress], hsame.trans hsize⟩
  · cases hlocate : state.heap.locate? state.memory pointer with
    | none =>
      rw [usableSize_of_none hlocate] at hrun
      cases hrun
    | some index =>
      obtain ⟨block, hblock, rfl, rfl, htag⟩ := (Heap.locate?_eq_some_iff hsettled).mp hlocate
      have heq := (Outcome.mk.inj ((hanswer block hblock htag).symm.trans hrun)).1
      exact (Except.ok.inj (Except.ok.inj heq)).symm
  · rw [← hpoints.bytesOf_eq hscattered fun block hblock ↦ husable _ block hblock rfl]
    exact hsettled.free_add_bytesOf
  · obtain ⟨block, hblock, rfl⟩ := (hpoints.mem_iff pointer).mp hpointer
    exact hanswer block hblock (htagged block hblock)

/-- What is taken for a request fits it. -/
theorem fits_of_used {request : HeapRequest} {before : Layout} {block : UsedBlock}
    (hserves : request.Serves size align)
    (hneed : HeapRequest.blockSize size = .ok (.ok request.need))
    (hsettled : taken.heap.layout.Settled)
    (hused : block ∈ usedBlocks taken.heap.layout.blocks.get?) (htag : taken.IsTagged block)
    (hsize : block.size = request.need ∨ block.size = request.need + blockAlign)
    (hfree : taken.heap.layout.free + block.size = before.free)
    (htotal : taken.heap.layout.total = before.total) :
    Fits before size request.need (block.size - headerSize) (block.address + headerSize) taken := by
  have hmin := hsettled.scattered.min_le block hused
  have hle := hserves.size_le
  have hwaste := HeapRequest.blockSize_le hneed
  have husable := usableSize_of_used hsettled hused htag
  have hround := (HeapRequest.roundUp_of_blockSize hneed).1
  have htagged : block.size - headerSize + headerSize = block.size :=
    Nat.sub_add_cancel ((by decide : headerSize ≤ minBlockSize).trans hmin)
  refine ⟨hround, husable, htagged.symm ▸ hsize, ?_, ?_, ?_, htagged.symm ▸ hfree, htotal⟩
  all_goals
    rw [headerSize_eq] at *
    rw [blockAlign_eq] at hsize
    omega

variable [PageSupplier κ ω]

/-- An allocation that is granted has found a large free block, if need be once the heap had grown,
and takes its own out of that one. -/
theorem of_granted_allocation {config : HeapConfig} {used : Set UsedBlock} {log : List Event}
    (hkeeps : Heap.Keeps config used (state.heap, state.world) log)
    (halloc : allocateAligned size align state = ⟨.ok (.ok pointer), taken, events⟩)
    (horderly : Orderly (log ++ events)) :
    ∃ request grown index need usable,
      HeapRequest.check state.heap.config size align = .ok (.ok request) ∧
      (do Heap.growIfLow; Heap.findOrGrow request.search : Act (Heap.Site κ ω) Nat)
        (state.heap, state.world) = ⟨.ok (.ok index), grown, events⟩ ∧
      Heap.Keeps config used grown (log ++ events) ∧
      Fits grown.1.layout size need usable pointer taken := by
  obtain ⟨request, middle, grown, index, first, second, last, hcheck, hgrow, hsearch, htake, rfl⟩ :=
    of_allocateAligned_run halloc
  have hserves := HeapRequest.check_spec hcheck
  rw [← List.append_assoc] at horderly
  have hmiddle : Heap.Keeps config used middle (log ++ first) :=
    (Heap.ensures_growIfLow.of_run hgrow hkeeps.underOrderly horderly.of_append).toKeeps
  rw [← List.append_assoc] at horderly
  obtain ⟨hgrown, hfound⟩ := (Heap.ensures_findOrGrow hserves.search_le).of_run hsearch
    hmiddle.underOrderly horderly.of_append
  obtain ⟨source, hsource, hfree, hroom⟩ := hfound index rfl
  obtain ⟨number, part, layout, htakeEq, hpart, hrun⟩ :=
    @take_run κ ω { state with heap := grown.1, world := grown.2 } _ _ _ _ _ hserves
      hgrown.settled hsource hfree hroom
  obtain ⟨hpointer, htaken, rfl⟩ := Outcome.mk.inj (htake.symm.trans hrun)
  obtain rfl := Except.ok.inj (Except.ok.inj hpointer)
  obtain ⟨hsettled, htotal, block, hblock, rfl, haddress, hsize, hfreeBytes⟩ :=
    hgrown.settled.free_take hsource hfree hserves.need (hserves.need_le.trans hroom)
      (hserves.room.imp_right fun hle ↦ hle.trans hroom) htakeEq hpart
  rw [← haddress] at htaken ⊢
  obtain rfl : taken.heap.layout = layout := by rw [htaken]
  have htag : taken.IsTagged block := by
    rw [htaken]
    exact Memory.tagAt_writeTag _ _ _
  have hkept := hgrown.toKeeps
  rw [List.append_assoc] at hkept
  rw [List.append_nil]
  obtain ⟨-, -, hneed, -⟩ := HeapRequest.of_check hcheck
  refine ⟨request, grown, index, request.need, block.size - headerSize, hcheck, ?_, hkept,
    fits_of_used hserves hneed hsettled hblock htag hsize hfreeBytes htotal⟩
  rw [Act.bind_run_of_value hgrow, hsearch]

end HeapState

/-! ### Runs -/

namespace HeapRun

variable {κ ω : Type} [PageSupplier κ ω] {state : HeapState κ ω} {deeds : List HeapDeed}
  {log : List Event} {mayWrite : HeapState κ ω → List Nat → Memory → Prop}

/-- A run stays one if more may be written. -/
theorem mono {more : HeapState κ ω → List Nat → Memory → Prop}
    (hmore : ∀ state pointers memory, mayWrite state pointers memory → more state pointers memory)
    (hrun : HeapRun mayWrite state deeds log) : HeapRun more state deeds log := by
  induction hrun with
  | created hcreate memory => exact .created hcreate memory
  | called _ hdeed ih => exact .called ih hdeed
  | wrote _ hwrite ih => exact .wrote ih (hmore _ _ _ hwrite)
  | shared _ world ih => exact .shared ih world

/-- After every run the free bytes and, for every pointer that is out, its usable bytes and those of
its tag make up the bytes of the pages; and if clients write only behind their own pointers, these
are the bytes that a heap tells when asked. Every allocation that is granted, whatever its
alignment, takes as many bytes as it needs or one alignment step more, of which at most a sixteenth
of what was asked for and some alignment steps are lost, and of the bytes that were free once the
heap had grown it takes these and no others. -/
theorem bytes_conserved (hrun : HeapRun mayWrite state deeds log) (horderly : Orderly log) :
    (∃ usable, state.Accounts (HeapDeed.live deeds) usable ∧
      ((∀ state pointers memory, mayWrite state pointers memory → state.Honest pointers memory) →
        ∀ pointer ∈ HeapDeed.live deeds,
          HeapState.usableSize pointer state = ⟨.ok (.ok (usable pointer)), state, []⟩)) ∧
    ∀ size align pointer taken events,
      HeapState.allocateAligned size align state = ⟨.ok (.ok pointer), taken, events⟩ →
      Orderly (log ++ events) → ∃ request grown index need usable,
        HeapRequest.check state.heap.config size align = .ok (.ok request) ∧
        (do Heap.growIfLow; Heap.findOrGrow request.search : Act (Heap.Site κ ω) Nat)
          (state.heap, state.world) = ⟨.ok (.ok index), grown, events⟩ ∧
        grown.1.layout.free + state.heap.layout.total =
          state.heap.layout.free + grown.1.layout.total ∧
        HeapState.Fits grown.1.layout size need usable pointer taken := by
  obtain ⟨config, used, hkeeps, hpoints⟩ := hrun.exists_points horderly
  refine ⟨?_, fun size align pointer taken events halloc hlater ↦ ?_⟩
  · obtain rfl := hkeeps.used_eq
    obtain ⟨usable, haccounts, hanswers⟩ := HeapState.accounts_of_points hkeeps.settled hpoints
    refine ⟨usable, haccounts, fun hhonest ↦ hanswers ?_⟩
    obtain ⟨_, _, hkept, -, htagged⟩ := (hrun.mono hhonest).exists_tagged horderly
    rwa [hkept.used_eq]
  · obtain ⟨request, grown, index, need, usable, hcheck, hgrown, hkept, hfits⟩ :=
      HeapState.of_granted_allocation hkeeps halloc hlater
    have hbefore : state.heap.layout.free + bytesOf used = state.heap.layout.total :=
      hkeeps.used_eq ▸ hkeeps.settled.free_add_bytesOf
    have hafter : grown.1.layout.free + bytesOf used = grown.1.layout.total :=
      hkept.used_eq ▸ hkept.settled.free_add_bytesOf
    refine ⟨request, grown, index, need, usable, hcheck, hgrown, ?_, hfits⟩
    omega

/-- A heap with a free block between two in use that is one alignment step larger than they are. -/
def gapLeft : HeapState LinearSupplier Unit :=
  (HeapState.deallocate 4240
    (HeapState.allocate 100 (HeapState.allocate 116 oneTaken.state).state).state).state

theorem gapLeft_run (mayWrite : HeapState LinearSupplier Unit → List Nat → Memory → Prop) :
    HeapRun mayWrite gapLeft [.allocate 100 (.ok 4112), .allocate 116 (.ok 4240),
      .allocate 100 (.ok 4384), .deallocate 4240 (.ok ())] firstLog := by
  let second := HeapState.allocate 116 oneTaken.state
  let third := HeapState.allocate 100 second.state
  let fourth := HeapState.deallocate 4240 third.state
  have hshown : ((second.answer, second.events), (third.answer, third.events),
      (fourth.answer, fourth.events)) =
      ((.ok (.ok 4240), []), (.ok (.ok 4384), []), (.ok (.ok ()), [])) := by decide +kernel
  obtain ⟨hsecond, hshown⟩ := Prod.mk.inj hshown
  obtain ⟨hthird, hfourth⟩ := Prod.mk.inj hshown
  have htwo := @allocated _ _ _ _ _ _ _ (oneTaken_run mayWrite) 116 (.ok 4240) [] hsecond
  have hthree := @allocated _ _ _ _ _ _ _ htwo 100 (.ok 4384) [] hthird
  have hfrees : (HeapDeed.deallocate 4240 (.ok ())).Happens third.state gapLeft [] :=
    Outcome.eq_of_answer (Prod.mk.inj hfourth).1 (Prod.mk.inj hfourth).2
  exact .called hthree hfrees

/-- The block between the two is taken as a whole, as the alignment step that is left of it makes no
block. -/
theorem bytes_conserved_of_gap :
    HeapRun HeapState.Honest gapLeft [.allocate 100 (.ok 4112), .allocate 116 (.ok 4240),
      .allocate 100 (.ok 4384), .deallocate 4240 (.ok ())] firstLog ∧ Orderly firstLog ∧
    (∃ usable, gapLeft.Accounts [4384, 4112] usable ∧
      HeapState.usableSize 4384 gapLeft = ⟨.ok (.ok (usable 4384)), gapLeft, []⟩) ∧
    ∃ taken before, HeapState.allocateAligned 100 16 gapLeft = ⟨.ok (.ok 4240), taken, []⟩ ∧
      HeapState.Fits before 100 128 128 4240 taken := by
  have hrun := gapLeft_run HeapState.Honest
  have hlive : HeapDeed.live [.allocate 100 (.ok 4112), .allocate 116 (.ok 4240),
      .allocate 100 (.ok 4384), .deallocate 4240 (.ok ())] = [4384, 4112] := by decide
  have hshown : ((HeapState.allocateAligned 100 16 gapLeft).answer,
      (HeapState.allocateAligned 100 16 gapLeft).events,
      (HeapState.usableSize 4240 (HeapState.allocateAligned 100 16 gapLeft).state).answer) =
      (.ok (.ok 4240), [], .ok (.ok 128)) := by decide +kernel
  have hround : roundUp ((100 + (blockAlign - 1)) / blockAlign * blockAlign + headerSize) =
      .ok 128 := by decide +kernel
  obtain ⟨hanswer, hshown⟩ := Prod.mk.inj hshown
  obtain ⟨hevents, husable⟩ := Prod.mk.inj hshown
  have halloc := Outcome.eq_of_answer hanswer hevents
  generalize (HeapState.allocateAligned 100 16 gapLeft).state = taken at halloc husable
  obtain ⟨⟨usable, haccounts, hanswers⟩, hallocations⟩ := bytes_conserved hrun orderly_firstLog
  obtain ⟨request, grown, index, need, size, -, -, -, hfits⟩ :=
    hallocations 100 16 4240 taken [] halloc (by rw [List.append_nil]; exact orderly_firstLog)
  rw [hlive] at haccounts hanswers
  obtain rfl := Except.ok.inj (hround.symm.trans hfits.need_eq)
  rw [hfits.usable_eq] at husable
  obtain rfl := Except.ok.inj (Except.ok.inj husable)
  exact ⟨hrun, orderly_firstLog,
    ⟨usable, haccounts, hanswers (fun _ _ _ hhonest ↦ hhonest) 4384 (by decide)⟩,
    taken, grown.1.layout, halloc, hfits⟩

end HeapRun

end KernelMemory
