import KernelMemory.Proofs.Heap.AtOnce
import KernelMemory.Proofs.Heap.Refusals

/-!
# Freed blocks that are taken again

A block that is freed beside blocks in use only keeps its size and goes in front of the list of its
class. An allocation that needs just this size searches from this class on, so that it finds the
block again, takes all of it and makes it what it was (`Layout.Settled.shows_take_of_reclaim`). If
no page went back and the free blocks still reach the watermark, neither call calls the supplier,
and the heap and the memory are what they were before both (`HeapRun.freed_block_reused`).
-/

set_option autoImplicit false
set_option relaxedAutoImplicit false

namespace KernelMemory

/-- A tag that was written over is written again. -/
theorem Memory.writeTag_writeTag_tagAt (memory : Memory) (address : Nat) (tag : Tag) :
    (memory.writeTag address tag).writeTag address (memory.tagAt address) = memory := by
  obtain ⟨word⟩ := memory
  simp only [writeTag, write, tagAt, Memory.mk.injEq]
  funext other
  split_ifs with hmark hblock
  · rw [hmark]
  · rw [hblock]
  · rfl

/-- The size of the block for a payload starts a class. -/
theorem HeapRequest.roundUp_need {size need : Nat} (hneed : blockSize size = .ok (.ok need)) :
    roundUp need = .ok need := by
  obtain ⟨hround, hmax⟩ := roundUp_of_blockSize hneed
  exact roundUp_roundUp ((roundUp_spec hround).1.trans hmax) hround

/-- An allocation without an alignment of its own looks for the size that its block gets. -/
theorem HeapRequest.check_of_blockSize {config : HeapConfig} {size need : Nat} (hpos : size ≠ 0)
    (hneed : blockSize size = .ok (.ok need)) (hmax : blockAlign ≤ config.maxAlign) :
    check config size blockAlign = .ok (.ok ⟨need, need, blockAlign⟩) := by
  obtain ⟨-, hle⟩ := roundUp_of_blockSize hneed
  have hpower : ∃ exponent, blockAlign = 2 ^ exponent := ⟨4, rfl⟩
  rw [check_eq_of_aligned hpos hpower hmax, hneed, Checked.ok_bind, Nat.max_self,
    if_neg (Nat.lt_irrefl blockAlign), pure_bind]
  dsimp only
  rw [if_neg (Nat.not_lt.mpr hle)]
  rfl

namespace Layout

/-- Neither of the blocks beside the given one is free. -/
def Alone (layout : Layout) (block : Block) : Prop :=
  ∀ neighbour other, block.prev = some neighbour ∨ block.next = some neighbour →
    layout.blocks.get? neighbour = some other → other.isFree = false

variable {layout freed taken : Layout} {picture : Picture} {index used : Nat} {block : Block}
  {spare : Option Nat}

namespace Settled

variable (hsettled : layout.Settled) (hblock : layout.blocks.get? index = some block)

include hsettled hblock

/-- The flag for a free block before it is not set at a block that is alone. -/
theorem isPrevFree_of_alone (halone : layout.Alone block) : block.isPrevFree = false := by
  have htiled := hsettled.shaped.tiled
  cases hprev : block.prev with
  | none => exact (htiled.first index block hblock hprev).1
  | some prev =>
    obtain ⟨before, hbefore, -, -, -, hfree, -⟩ := htiled.before hblock hprev
    exact hfree.symm.trans (halone prev before (.inl hprev) hbefore)

/-- A block in use that is alone is made free and goes in front of the list for its size. -/
theorem shows_reclaim (hused : block.isFree = false) (hsize : block.size ≠ 0)
    (halone : layout.Alone block) (hshows : layout.Shows picture)
    (hreclaim : layout.reclaim index = .ok (spare, freed)) :
    freed.Shows ((picture.freed index block true).listed index block.size) := by
  obtain ⟨free, middle, forward, first, both, listed, freePages, hset, hforward, hboth, henlist,
    rfl⟩ := of_reclaim hreclaim
  have htiled := hsettled.shaped.tiled
  obtain ⟨next, after, hpair⟩ := htiled.neighbours hblock hsize
  have hnextUsed := halone next after (.inr hpair.next_eq) hpair.after_eq
  have hprevFree := hsettled.isPrevFree_of_alone hblock halone
  have hsizeLe := hsettled.shaped.size_le hblock
  -- a block in use is on no list
  have hnotMem : ∀ number < classCount, FreeLists.nodeOf index ∉ picture.members number := by
    refine fun number ↦ hsettled.shaped.notMem_members hshows ?_
    rintro size ⟨-, record, hrecord, hfree, -⟩
    obtain rfl : block = record := Option.some.inj (hblock.symm.trans hrecord)
    exact absurd (hused.symm.trans hfree) (by decide)
  rw [hshows.blocks_eq] at htiled hpair
  have hmiddle := (hshows.with_counts free layout.freePages).setFree htiled hpair hset
  have hblocks : middle.blocks.get? = freeAt picture.blocks index block true := hmiddle.blocks_eq
  have hpairFreed := hpair.freeAt htiled true
  have hblockFreed := hpairFreed.block_eq
  rw [← hblocks] at hpairFreed
  rw [mergeNext_eq_self hpairFreed hnextUsed] at hforward
  obtain rfl := Except.ok.inj hforward
  rw [mergePrev_eq_self hpairFreed.block_eq hprevFree] at hboth
  obtain ⟨rfl, rfl⟩ := Prod.mk.inj (Except.ok.inj hboth)
  exact (hmiddle.enlist hblockFreed hsizeLe hnotMem henlist).with_counts listed.free freePages

/-- A free block of which all is needed goes off its list and is in use then. -/
theorem shows_take (hfree : block.isFree = true) (hshows : layout.Shows picture)
    (htake : layout.take index block.size blockAlign = .ok (used, taken)) :
    used = index ∧ taken.Shows ((picture.unlisted index block.size).freed index block false) := by
  obtain ⟨off, freePages, front, back, inUse, free, hdelist, hfront, hback, hset, rfl⟩ :=
    of_take htake
  have htiled := hsettled.shaped.tiled
  have hsizeLe := hsettled.shaped.size_le hblock
  obtain ⟨next, after, hpair⟩ := htiled.neighbours hblock (htiled.size_of_isFree hblock hfree)
  have hmin := (htiled.inner index block next hblock hpair.next_eq).1
  have hstart := (htiled.start hblock).1
  have hfits := hsettled.payload_lt hblock hmin
  have hmem : FreeLists.nodeOf index ∈ picture.members (SizeClass.ofSize block.size).number :=
    (hsettled.shaped.sorted.nodeOf_mem_iff hshows.marked (SizeClass.ofSize_inRange hsizeLe)).mpr
      ⟨block.size, ⟨Set.notMem_empty _, block, hblock, hfree, rfl⟩, rfl⟩
  rw [hshows.blocks_eq] at htiled hpair hblock
  have hoff := (hshows.delist hblock hsizeLe hmem hdelist).with_counts off.free freePages
  have hblockOff : ({ off with freePages } : Layout).blocks.get? index = some block :=
    hoff.blocks_eq ▸ hblock
  have haligned : (block.address + headerSize) % blockAlign = 0 :=
    Nat.mod_eq_zero_of_dvd (Nat.dvd_add hstart (by decide))
  rw [carveFront_eq_self hblockOff hfits haligned] at hfront
  obtain ⟨rfl, rfl⟩ := Prod.mk.inj (Except.ok.inj hfront)
  rw [carveBack_eq_self hblockOff] at hback
  obtain rfl := Except.ok.inj hback
  exact ⟨rfl, (hoff.setFree htiled hpair hset).with_counts free inUse.freePages⟩

/-- The block that was freed comes first for its size. -/
theorem findFree?_of_reclaim (hused : block.isFree = false) (hsize : block.size ≠ 0)
    (halone : layout.Alone block) (hreclaim : layout.reclaim index = .ok (spare, freed))
    (hround : roundUp block.size = .ok block.size) :
    freed.findFree? block.size = .ok (some index) := by
  obtain ⟨picture, hshows⟩ := hsettled.shaped.exists_shows
  have hfreed := hsettled.shows_reclaim hblock hused hsize halone hshows hreclaim
  refine hfreed.marked.find?_of_head (SizeClass.ofSize_inRange (hsettled.shaped.size_le hblock))
    (SizeClass.searchFrom_of_roundUp hround) ?_
  show (Function.update picture.members _ _ _).head? = _
  rw [Function.update_self, List.head?_cons]

/-- A block in use that is alone is reclaimed and taken again, and the layout shows what it showed
before. -/
theorem shows_take_of_reclaim (hused : block.isFree = false) (hsize : block.size ≠ 0)
    (halone : layout.Alone block) (hshows : layout.Shows picture)
    (hreclaim : layout.reclaim index = .ok (spare, freed)) (hsettledFreed : freed.Settled)
    (htake : freed.take index block.size blockAlign = .ok (used, taken)) :
    used = index ∧ taken.Shows picture := by
  have htiled := hsettled.shaped.tiled
  obtain ⟨next, after, hpair⟩ := htiled.neighbours hblock hsize
  have hfreed := hsettled.shows_reclaim hblock hused hsize halone hshows hreclaim
  rw [hshows.blocks_eq] at htiled hpair
  have hblockFreed : freed.blocks.get? index = some { block with isFree := true } := by
    rw [hfreed.blocks_eq]
    exact (hpair.freeAt htiled true).block_eq
  obtain ⟨rfl, htaken⟩ := hsettledFreed.shows_take hblockFreed rfl hfreed htake
  rw [Picture.unlisted_listed, Picture.freed_freed htiled hpair hused true] at htaken
  exact ⟨rfl, htaken⟩

/-- A block in use at the place of a block that is no sentinel is that block. -/
theorem eq_of_mem_usedBlocks (hsize : block.size ≠ 0) {other : UsedBlock}
    (hother : other ∈ usedBlocks layout.blocks.get?) (haddress : other.address = block.address) :
    other = ⟨index, block.address, block.size⟩ := by
  obtain ⟨number, address, size⟩ := other
  obtain ⟨record, hrecord, -, hne, rfl, rfl⟩ := hother
  dsimp only at hrecord haddress
  obtain rfl : number = index := by
    by_contra hindex
    have hapart := hsettled.shaped.tiled.blocks_apart hrecord hblock hindex
    omega
  obtain rfl : record = block := Option.some.inj (hrecord.symm.trans hblock)
  rfl

end Settled

end Layout

variable {κ ω : Type} [PageSupplier κ ω] {state : HeapState κ ω} {size : Nat}

/-- An allocation is served from what a search finds, without a call of the supplier, if the free
blocks reach the watermark. -/
theorem HeapState.exists_servedBy {request : HeapRequest} {align index reserve : Nat}
    (hsettled : state.heap.layout.Settled)
    (hcheck : HeapRequest.check state.heap.config size align = .ok (.ok request))
    (hreserve : state.heap.layout.findFree? state.heap.config.growWatermark = .ok (some reserve))
    (hfound : state.heap.layout.findFree? request.search = .ok (some index)) :
    ∃ block used taken, state.ServedBy request index block used taken ∧
      allocateAligned size align state = ⟨.ok (.ok (used.address + headerSize)), taken, []⟩ := by
  have hserves := HeapRequest.check_spec hcheck
  obtain ⟨block, hblock, hfree, hroom⟩ := hsettled.findFree? hserves.search_le hfound
  obtain ⟨used, taken, hserved, htake⟩ :=
    servedBy_of_take hserves hsettled hfound hblock hfree hroom
  refine ⟨block, used, taken, hserved, ?_⟩
  unfold allocateAligned
  rw [Act.get_bind_run, Act.bind_run_of_silent (Act.liftM_checked_run hcheck state),
    Act.bind_run_of_silent (onSite_run (Heap.growIfLow_run hreserve state.world)),
    Act.bind_run_of_silent (onSite_run (Heap.findOrGrow_run hfound state.world))]
  exact htake

/-- An allocation that needs just the size of the block that was reclaimed takes it again, and the
state is what it was before both. -/
theorem HeapState.allocate_reclaimed {index reserve : Nat} {block : Block} {spare : Option Nat}
    {merged : Layout} (hsettled : state.heap.layout.Settled)
    (hblock : state.heap.layout.blocks.get? index = some block) (hused : block.isFree = false)
    (hsize : block.size ≠ 0) (hheader : state.memory.tagAt block.address = .live index)
    (halone : state.heap.layout.Alone block)
    (hreclaim : state.heap.layout.reclaim index = .ok (spare, merged)) (hmerged : merged.Settled)
    (hpages : merged.pages = state.heap.layout.pages)
    (hneed : HeapRequest.blockSize size = .ok (.ok block.size))
    (hmax : blockAlign ≤ state.heap.config.maxAlign)
    (hreserve : merged.findFree? state.heap.config.growWatermark = .ok (some reserve)) :
    ∃ layout, allocate size (state.reclaimed ⟨index, block.address, block.size⟩ merged) =
        ⟨.ok (.ok (block.address + headerSize)),
          { state with heap := { state.heap with layout } }, []⟩ ∧
      state.heap.layout.Restored layout := by
  -- the block of an allocation of no bytes would be smaller than any block
  have hpos : size ≠ 0 := by
    rintro rfl
    obtain ⟨next, hnext⟩ := hsettled.shaped.tiled.exists_next hblock hsize
    have hmin := (hsettled.shaped.tiled.inner _ _ _ hblock hnext).1
    have hsmall : HeapRequest.blockSize 0 = .ok (.ok 16) := rfl
    obtain heq := Except.ok.inj (Except.ok.inj (hsmall.symm.trans hneed))
    rw [← heq] at hmin
    exact absurd hmin (by decide)
  have hfound := hsettled.findFree?_of_reclaim hblock hused hsize halone hreclaim
    (HeapRequest.roundUp_need hneed)
  obtain ⟨_, ⟨number, address, length⟩, taken, hserved, hrun⟩ :=
    @exists_servedBy κ ω _ (state.reclaimed ⟨index, block.address, block.size⟩ merged) size _ _ _ _
      hmerged (HeapRequest.check_of_blockSize hpos hneed hmax) hreserve hfound
  obtain ⟨picture, hshows⟩ := hsettled.shaped.exists_shows
  obtain ⟨rfl, hshowsTaken⟩ := hsettled.shows_take_of_reclaim hblock hused hsize halone hshows
    hreclaim hmerged hserved.take_eq
  have hrestored :=
    hsettled.restored hserved.settled (hserved.pages.trans hpages) hshows hshowsTaken
  obtain ⟨record, hrecord, -, -, rfl, -⟩ := hserved.used_mem
  rw [hrestored.blocks, hblock] at hrecord
  obtain rfl := Option.some.inj hrecord
  refine ⟨taken.heap.layout, hrun.trans ?_, hrestored⟩
  have hmemory := state.memory.writeTag_writeTag_tagAt block.address .dead
  rw [hheader] at hmemory
  rw [hserved.state_eq]
  dsimp only [reclaimed]
  rw [hmemory]

namespace HeapRun

variable {deeds : List HeapDeed} {log : List Event}
  {mayWrite : HeapState κ ω → List Nat → Memory → Prop} {pointer index watermark : Nat}
  {block : Block}

/-- After every run, if a pointer that is out is freed, with the tag in front of it in place and no
free block beside its own, no page goes back and a free block still reaches the watermark, then an
allocation that needs a block of just the same size gives the same pointer. Neither call shows any
events, so that the supplier is not called, and the state is what it was before both: memory, the
supplier and its world are the same, and so are all pages and blocks and the order of all free
lists. -/
theorem freed_block_reused (hrun : HeapRun mayWrite state deeds log) (horderly : Orderly log)
    (hlive : pointer ∈ HeapDeed.live deeds)
    (hblock : state.heap.layout.blocks.get? index = some block)
    (hpointer : pointer = block.address + headerSize)
    (hheader : state.memory.tagAt block.address = .live index)
    (hneed : HeapRequest.blockSize size = .ok (.ok block.size))
    (hmax : blockAlign ≤ state.heap.config.maxAlign) (halone : state.heap.layout.Alone block)
    (hkept : (HeapState.deallocate pointer state).state.heap.pageCount = state.heap.pageCount)
    (hround : roundUp state.heap.config.growWatermark = .ok watermark)
    (hfree : (HeapState.deallocate pointer state).state.heap.layout.HasFree watermark) :
    ∃ freed layout, HeapState.deallocate pointer state = ⟨.ok (.ok ()), freed, []⟩ ∧
      HeapState.allocate size freed =
        ⟨.ok (.ok pointer), { state with heap := { state.heap with layout } }, []⟩ ∧
      state.heap.layout.Restored layout := by
  obtain ⟨config, live, hkeeps, hpoints⟩ := hrun.exists_points horderly
  have hsettled := hkeeps.settled
  have hvalid := hkeeps.config_eq ▸ hkeeps.valid
  obtain rfl := hkeeps.used_eq
  have hsize : block.size ≠ 0 := by
    have hle := HeapRequest.le_blockSize hneed
    rw [headerSize_eq] at hle
    omega
  obtain ⟨other, hmem, heq⟩ := (hpoints.mem_iff pointer).mp hlive
  obtain rfl := hsettled.eq_of_mem_usedBlocks hblock hsize hmem
    (Nat.add_right_cancel (heq.symm.trans hpointer))
  obtain ⟨record, hrecord, hused, -⟩ := id hmem
  obtain rfl : block = record := Option.some.inj (hblock.symm.trans hrecord)
  subst hpointer
  obtain ⟨spare, merged, hreclaim, hmerged, hpages, hfrees⟩ :=
    HeapState.deallocate_of_pageCount hsettled hmem hheader hkept
  rw [hfrees] at hfree
  obtain ⟨reserve, hreserve⟩ :=
    hmerged.exists_findFree?_of_hasFree hvalid.growWatermark_le hround hfree
  obtain ⟨layout, hallocates, hrestored⟩ := HeapState.allocate_reclaimed hsettled hblock hused hsize
    hheader halone hreclaim hmerged hpages hneed hmax hreserve
  exact ⟨_, layout, hfrees, hallocates, hrestored⟩

/-- Three small blocks in a row at the start of a page. -/
def rowTaken : HeapState LinearSupplier Unit :=
  (HeapState.allocate 100 (HeapState.allocate 100 oneTaken.state).state).state

theorem rowTaken_run : HeapRun AnyWrite rowTaken
    [.allocate 100 (.ok 4112), .allocate 100 (.ok 4240), .allocate 100 (.ok 4368)] firstLog := by
  have hsecond := @allocated _ _ _ _ _ _ _ (oneTaken_run AnyWrite) 100 (.ok 4240) []
    (by decide +kernel)
  exact @allocated _ _ _ _ _ _ _ hsecond 100 (.ok 4368) [] (by decide +kernel)

/-- The block in the middle is freed, and an allocation of another size that needs as much gets it
again. -/
theorem freed_block_reused_of_row :
    HeapRun AnyWrite rowTaken
      [.allocate 100 (.ok 4112), .allocate 100 (.ok 4240), .allocate 100 (.ok 4368)] firstLog ∧
    Orderly firstLog ∧
    rowTaken.heap.layout.Alone ⟨4224, 128, false, false, some 0, some 3, 0⟩ ∧
    HeapRequest.blockSize 105 = .ok (.ok 128) ∧
    ∃ freed layout, HeapState.deallocate 4240 rowTaken = ⟨.ok (.ok ()), freed, []⟩ ∧
      HeapState.allocate 105 freed =
        ⟨.ok (.ok 4240), { rowTaken with heap := { rowTaken.heap with layout } }, []⟩ ∧
      rowTaken.heap.layout.Restored layout := by
  have hshown : ((rowTaken.heap.layout.blocks.get? 2, rowTaken.memory.tagAt 4224,
      rowTaken.heap.layout.blocks.get? 0, rowTaken.heap.layout.blocks.get? 3),
      rowTaken.heap.pageCount, rowTaken.heap.config.maxAlign, rowTaken.heap.config.growWatermark) =
      ((some ⟨4224, 128, false, false, some 0, some 3, 0⟩, .live 2,
        some ⟨4096, 128, false, false, none, some 2, 0⟩,
        some ⟨4352, 128, false, false, some 2, some 4, 0⟩), 1, 4096, 4096) := by
    decide +kernel
  have hfreed : ((HeapState.deallocate 4240 rowTaken).state.heap.layout.blocks.get? 4,
      (HeapState.deallocate 4240 rowTaken).state.heap.pageCount) =
      (some ⟨4480, 16000, true, false, some 3, some 1, 0⟩, 1) := by decide +kernel
  obtain ⟨hblocks, hshown⟩ := Prod.mk.inj hshown
  obtain ⟨hblock, hblocks⟩ := Prod.mk.inj hblocks
  obtain ⟨hheader, hbeside⟩ := Prod.mk.inj hblocks
  obtain ⟨hbefore, hafter⟩ := Prod.mk.inj hbeside
  obtain ⟨hpages, hbounds⟩ := Prod.mk.inj hshown
  obtain ⟨hmax, hwatermark⟩ := Prod.mk.inj hbounds
  obtain ⟨hroom, hpagesFreed⟩ := Prod.mk.inj hfreed
  have halone : rowTaken.heap.layout.Alone ⟨4224, 128, false, false, some 0, some 3, 0⟩ := by
    rintro neighbour other (hprev | hnext) hother
    · obtain rfl := Option.some.inj hprev
      obtain rfl := Option.some.inj (hbefore.symm.trans hother)
      rfl
    · obtain rfl := Option.some.inj hnext
      obtain rfl := Option.some.inj (hafter.symm.trans hother)
      rfl
  have hneed : HeapRequest.blockSize 105 = .ok (.ok 128) := rfl
  have hround : roundUp rowTaken.heap.config.growWatermark = .ok 4096 := by
    rw [hwatermark]
    rfl
  exact ⟨rowTaken_run, orderly_firstLog, halone, hneed,
    freed_block_reused rowTaken_run orderly_firstLog (by decide) hblock rfl hheader hneed
      (hmax.symm ▸ (by decide : blockAlign ≤ 4096)) halone (hpagesFreed.trans hpages.symm) hround
      ⟨4, _, hroom, rfl, by decide⟩⟩

end HeapRun

end KernelMemory
