import KernelMemory.Proofs.Heap.WellFormed

/-!
# Gaps between the blocks in use

Between two requests the free blocks of a page are just the gaps between its blocks in use (`Gap`),
each as large as it can be. So the blocks in use tell all about a page: whether it is one free block
(`Layout.Settled.mem_pagesFree_iff`), and which blocks it is divided into
(`Layout.Settled.mem_extents_iff`).
-/

set_option autoImplicit false
set_option relaxedAutoImplicit false

namespace KernelMemory

/-- The bytes from one place of a page to another are in no block in use, and on both sides there is
one, or the page ends. -/
structure Gap (used : Set UsedBlock) (page : Page) (first last : Nat) : Prop where
  nonempty : first < last
  base_le : page.base ≤ first
  le_end : last ≤ page.base + page.size
  vacant : ∀ block ∈ used, block.address + block.size ≤ first ∨ last ≤ block.address
  before : first = page.base ∨ ∃ block ∈ used, block.address + block.size = first
  after : last = page.base + page.size ∨ ∃ block ∈ used, block.address = last

/-- Two gaps with a common byte are the same. -/
theorem Gap.unique {used : Set UsedBlock} {page : Page} {first last otherFirst otherLast : Nat}
    (hgap : Gap used page first last) (hother : Gap used page otherFirst otherLast)
    (hmeets : first < otherLast) (hmet : otherFirst < last) :
    first = otherFirst ∧ last = otherLast := by
  have hstart : ∀ {first last otherFirst otherLast : Nat}, Gap used page first last →
      Gap used page otherFirst otherLast → otherFirst < last → otherFirst ≤ first := by
    intro first last otherFirst otherLast hgap hother hmet
    have hbase := hgap.base_le
    rcases hother.before with heq | ⟨block, hblock, hend⟩
    · omega
    · have hvacant := hgap.vacant block hblock
      omega
  have hfinish : ∀ {first last otherFirst otherLast : Nat}, Gap used page first last →
      Gap used page otherFirst otherLast → first < otherLast → last ≤ otherLast := by
    intro first last otherFirst otherLast hgap hother hmet
    have hend := hgap.le_end
    rcases hother.after with heq | ⟨block, hblock, hstart⟩
    · omega
    · have hvacant := hgap.vacant block hblock
      omega
  exact ⟨Nat.le_antisymm (hstart hother hgap hmeets) (hstart hgap hother hmet),
    Nat.le_antisymm (hfinish hgap hother hmeets) (hfinish hother hgap hmet)⟩

/-- No block in use starts in the bytes. -/
def Vacant (used : Set UsedBlock) (base size : Nat) : Prop :=
  ∀ block ∈ used, block.address ∉ Set.Ico base (base + size)

theorem Vacant.mono {used fewer : Set UsedBlock} {base size : Nat}
    (hvacant : Vacant used base size) (hsub : fewer ⊆ used) : Vacant fewer base size :=
  fun block hblock ↦ hvacant block (hsub hblock)

/-- Every byte of a page is in one of its blocks. -/
theorem Tiled.exists_block_at {blocks : Nat → Option Block} {pages : Nat → Option Page}
    (htiled : Tiled blocks pages) {number place : Nat} {page : Page}
    (hpage : pages number = some page) (hbase : page.base ≤ place)
    (hend : place < page.base + page.size) :
    ∃ index block, blocks index = some block ∧ block.page = number ∧ block.address ≤ place ∧
      place < block.address + block.size := by
  obtain ⟨first, block, hblock, hnumber, hprev⟩ := htiled.exists_first hpage
  obtain ⟨-, other, hother, hfirst⟩ := htiled.first first block hblock hprev
  obtain rfl : other = page := Option.some.inj (hother.symm.trans (hnumber ▸ hpage))
  have hle : block.address ≤ place := hfirst ▸ hbase
  clear hprev hfirst
  -- from a block before the byte the links lead on to the one that has it
  induction first, block, hblock using htiled.induction_from_sentinel with
  | sentinel index block hblock hnext =>
    obtain ⟨-, -, last, hlast, -, haddress⟩ := htiled.last index block hblock hnext
    obtain rfl : last = other := Option.some.inj (hlast.symm.trans hother)
    omega
  | step index block next after hblock hafter _ hsame haddress ih =>
    by_cases hlt : place < block.address + block.size
    · exact ⟨index, block, hblock, hnumber, hle, hlt⟩
    · exact ih (hsame.trans hnumber) (hsame ▸ hother) (by omega)

namespace Layout.Settled

variable {layout : Layout} (hsettled : layout.Settled) {number index : Nat} {block : Block}
  {page : Page}

include hsettled

/-! ### Free blocks and gaps -/

/-- A free block is a gap. -/
theorem gap_of_free (hblock : layout.blocks.get? index = some block) (hfree : block.isFree = true)
    (hpage : layout.pages.get? block.page = some page) :
    Gap (usedBlocks layout.blocks.get?) page block.address (block.address + block.size) := by
  have htiled := hsettled.shaped.tiled
  have hpos : block.size ≠ 0 := htiled.size_of_isFree hblock hfree
  have hwithin := htiled.within hblock hpage
  refine ⟨by omega, hwithin.1, hwithin.2, fun used hused ↦ ?_, ?_, ?_⟩
  · obtain ⟨record, hrecord, hinUse, -, haddress, hsize⟩ := hused
    rw [← haddress, ← hsize]
    refine htiled.blocks_apart hrecord hblock ?_
    rintro rfl
    obtain rfl : record = block := Option.some.inj (hrecord.symm.trans hblock)
    exact absurd (hinUse.symm.trans hfree) (by decide)
  · cases hprev : block.prev with
    | none =>
      obtain ⟨-, other, hother, hbase⟩ := htiled.first index block hblock hprev
      obtain rfl : other = page := Option.some.inj (hother.symm.trans hpage)
      exact Or.inl hbase
    | some prev =>
      obtain ⟨before, hbefore, -, -, hend, hbeforeFree, hmin⟩ := htiled.before hblock hprev
      rw [minBlockSize_eq] at hmin
      refine Or.inr ⟨⟨prev, before.address, before.size⟩,
        ⟨before, hbefore, ?_, by omega, rfl, rfl⟩, hend⟩
      rw [hbeforeFree, ← Bool.not_eq_true]
      intro hprevFree
      obtain hmem | ⟨other, hmem, -⟩ := hsettled.apart index block hblock hfree hprevFree
      · exact hmem
      · exact hmem
  · obtain ⟨next, hnext⟩ := htiled.exists_next hblock hpos
    obtain ⟨after, hafter, -, hsame, haddress, hprevFree⟩ :=
      htiled.follows index block next hblock hnext
    cases hafterNext : after.next with
    | none =>
      obtain ⟨-, -, other, hother, -, hend⟩ := htiled.last next after hafter hafterNext
      obtain rfl : other = page := Option.some.inj (hother.symm.trans (hsame ▸ hpage))
      exact Or.inl (haddress.symm.trans hend)
    | some last =>
      have hmin := (htiled.inner next after last hafter hafterNext).1
      rw [minBlockSize_eq] at hmin
      refine Or.inr ⟨⟨next, after.address, after.size⟩,
        ⟨after, hafter, ?_, by omega, rfl, rfl⟩, haddress⟩
      rw [← Bool.not_eq_true]
      intro hafterFree
      obtain hmem | ⟨other, hmem, -⟩ :=
        hsettled.apart next after hafter hafterFree (hprevFree.trans hfree)
      · exact hmem
      · exact hmem

/-- Every gap is a free block. -/
theorem exists_free_of_gap (hpage : layout.pages.get? number = some page) {first last : Nat}
    (hgap : Gap (usedBlocks layout.blocks.get?) page first last) :
    ∃ index block, layout.blocks.get? index = some block ∧ block.page = number ∧
      block.isFree = true ∧ block.address = first ∧ block.address + block.size = last := by
  have hnonempty := hgap.nonempty
  have hend := hgap.le_end
  obtain ⟨index, block, hblock, rfl, hle, hlt⟩ :=
    hsettled.shaped.tiled.exists_block_at hpage hgap.base_le (by omega)
  have hfree : block.isFree = true := by
    rw [← Bool.not_eq_false]
    intro hused
    have hvacant := hgap.vacant ⟨index, block.address, block.size⟩
      ⟨block, hblock, hused, by omega, rfl, rfl⟩
    dsimp only at hvacant
    omega
  obtain ⟨hfirst, hlast⟩ := (hsettled.gap_of_free hblock hfree hpage).unique hgap (by omega) hlt
  exact ⟨index, block, hblock, rfl, hfree, hfirst, hlast⟩

/-- A page is one free block if no block in use is on it. -/
theorem gap_of_vacant (hpage : layout.pages.get? number = some page)
    (hvacant : Vacant (usedBlocks layout.blocks.get?) page.base page.size) :
    Gap (usedBlocks layout.blocks.get?) page page.base (page.base + page.size) := by
  have hmin := (hsettled.shaped.tiled.usable number page hpage).min_le
  rw [minBlockSize_eq] at hmin
  refine ⟨by omega, Nat.le_refl _, Nat.le_refl _, fun used hused ↦ ?_, Or.inl rfl, Or.inl rfl⟩
  have hnotMem := hvacant used hused
  obtain ⟨other, otherPage, hother, hbase, hend⟩ := hsettled.exists_page hused
  have husedMin := hsettled.scattered.min_le used hused
  rw [minBlockSize_eq] at husedMin
  rw [Set.mem_Ico] at hnotMem
  by_cases hsame : number = other
  · subst hsame
    obtain rfl : otherPage = page := Option.some.inj (hother.symm.trans hpage)
    omega
  · have hapart := hsettled.shaped.tiled.pages_apart _ _ _ _ hpage hother hsame
    omega

theorem mem_pagesFree_iff : number ∈ layout.pagesFree ↔ ∃ page,
    layout.pages.get? number = some page ∧
      Vacant (usedBlocks layout.blocks.get?) page.base page.size := by
  constructor
  · rintro ⟨page, index, block, hpage, hblock, rfl, hfree, hsize⟩
    refine ⟨page, hpage, fun used hused hmem ↦ ?_⟩
    have hwithin := hsettled.shaped.tiled.within hblock hpage
    have hvacant := (hsettled.gap_of_free hblock hfree hpage).vacant used hused
    have hmin := hsettled.scattered.min_le used hused
    rw [minBlockSize_eq] at hmin
    rw [Set.mem_Ico] at hmem
    omega
  · rintro ⟨page, hpage, hvacant⟩
    obtain ⟨index, block, hblock, hnumber, hfree, hbase, hend⟩ :=
      hsettled.exists_free_of_gap hpage (hsettled.gap_of_vacant hpage hvacant)
    exact ⟨page, index, block, hpage, hblock, hnumber, hfree, by omega⟩

end Layout.Settled

/-! ### The blocks of a page in order -/

/-- A block as it is seen from outside. -/
structure Extent where
  address : Nat
  size : Nat
  isFree : Bool
deriving DecidableEq, Repr

def Block.extent (block : Block) : Extent := ⟨block.address, block.size, block.isFree⟩

/-- The extents are those of the blocks of a page, from its base to its sentinel. -/
def Layout.Extents (layout : Layout) (number : Nat) (extents : List Extent) : Prop :=
  ∃ page first walk, layout.pages.get? number = some page ∧ layout.firstBlock number = .ok first ∧
    PageWalk layout.blocks.get? number page ⟨none, false, page.base⟩ (some first) walk ∧
    extents = walk.map fun entry ↦ entry.2.extent

/-- A page is divided into its blocks in use, the gaps between them, and the sentinel. -/
def Extent.Divides (used : Set UsedBlock) (page : Page) (extent : Extent) : Prop :=
  (extent.isFree = true ∧ Gap used page extent.address (extent.address + extent.size)) ∨
  (extent.isFree = false ∧ ∃ block ∈ used, block.address = extent.address ∧
    block.size = extent.size ∧ block.address ∈ Set.Ico page.base (page.base + page.size)) ∨
  extent = ⟨page.base + page.size, 0, false⟩

namespace PageWalk

variable {blocks : Nat → Option Block} {pages : Nat → Option Page} {number : Nat} {page : Page}
  {place : LayoutPlace} {walk : List (Nat × Block)}

theorem exists_first {first : Nat} (hwalk : PageWalk blocks number page place (some first) walk) :
    ∃ block, blocks first = some block ∧ block.page = number ∧ block.prev = place.prev := by
  cases hwalk with
  | step hblock hpage _ => exact ⟨_, hblock, hpage, rfl⟩

/-- A walk goes from lower to higher addresses. -/
theorem sorted (htiled : Tiled blocks pages) {current : Option Nat}
    (hwalk : PageWalk blocks number page place current walk) :
    (walk.map fun entry ↦ entry.2.extent).Pairwise fun first second ↦
      first.address < second.address := by
  induction hwalk with
  | finish isPrevFree => exact List.Pairwise.nil
  | @step index block walk hblock hpage hrest ih =>
    rw [List.map_cons, List.pairwise_cons]
    refine ⟨fun extent hextent ↦ ?_, ih⟩
    obtain ⟨⟨other, otherBlock⟩, hmem, rfl⟩ := List.mem_map.mp hextent
    cases hnext : block.next with
    | none =>
      rw [hnext] at hrest
      exact absurd (hrest.eq_nil ▸ hmem) List.not_mem_nil
    | some next =>
      have hmin := (htiled.inner index block next hblock hnext).1
      have hle : block.address + block.size ≤ otherBlock.address := hrest.address_le hmem
      rw [minBlockSize_eq] at hmin
      show block.address < otherBlock.address
      omega

end PageWalk

namespace Layout.Settled

variable {layout : Layout} (hsettled : layout.Settled) {number : Nat} {page : Page}
  {extents : List Extent}

include hsettled

theorem exists_extents (hpage : layout.pages.get? number = some page) :
    ∃ extents, layout.Extents number extents := by
  obtain ⟨-, first, walk, hfirst, hwalk, -⟩ := hsettled.wellFormed.pages number page hpage
  exact ⟨_, page, first, walk, hpage, hfirst, hwalk, rfl⟩

/-- The extents of a page are those of all blocks that name it. -/
theorem mem_extents (hextents : layout.Extents number extents) {extent : Extent} :
    extent ∈ extents ↔ ∃ index block, layout.blocks.get? index = some block ∧
      block.page = number ∧ block.extent = extent := by
  obtain ⟨page, first, walk, hpage, -, hwalk, rfl⟩ := hextents
  obtain ⟨block, hblock, hnumber, hprev⟩ := hwalk.exists_first
  rw [List.mem_map]
  constructor
  · rintro ⟨⟨index, other⟩, hmem, rfl⟩
    obtain ⟨hother, hsame⟩ := hwalk.of_mem hmem
    exact ⟨index, other, hother, hsame, rfl⟩
  · rintro ⟨index, other, hother, hsame, rfl⟩
    have hreaches := hsettled.shaped.tiled.reaches_of_first hblock hprev hother
      (hsame.trans hnumber.symm)
    exact ⟨(index, other), hwalk.mem_of_reaches hreaches hother, rfl⟩

/-- What a page is divided into is told by the blocks in use. -/
theorem mem_extents_iff (hextents : layout.Extents number extents)
    (hpage : layout.pages.get? number = some page) {extent : Extent} :
    extent ∈ extents ↔ extent.Divides (usedBlocks layout.blocks.get?) page := by
  have htiled := hsettled.shaped.tiled
  rw [hsettled.mem_extents hextents]
  constructor
  · rintro ⟨index, block, hblock, rfl, rfl⟩
    cases hfree : block.isFree with
    | true => exact Or.inl ⟨hfree, hsettled.gap_of_free hblock hfree hpage⟩
    | false =>
      cases hnext : block.next with
      | none =>
        obtain ⟨hsize, -, other, hother, -, haddress⟩ := htiled.last index block hblock hnext
        obtain rfl : other = page := Option.some.inj (hother.symm.trans hpage)
        refine Or.inr (Or.inr ?_)
        rw [Block.extent, hsize, haddress, hfree]
      | some next =>
        have hmin := (htiled.inner index block next hblock hnext).1
        have hwithin := htiled.within hblock hpage
        rw [minBlockSize_eq] at hmin
        refine Or.inr (Or.inl ⟨hfree, ⟨index, block.address, block.size⟩,
          ⟨block, hblock, hfree, by omega, rfl, rfl⟩, rfl, rfl, ?_⟩)
        rw [Set.mem_Ico]
        dsimp only
        omega
  · rintro (⟨hfree, hgap⟩ | ⟨hused, block, hblock, haddress, hsize, hmem⟩ | rfl)
    · obtain ⟨index, block, hblock, hnumber, hblockFree, hfirst, hlast⟩ :=
        hsettled.exists_free_of_gap hpage hgap
      refine ⟨index, block, hblock, hnumber, ?_⟩
      obtain ⟨address, size, isFree⟩ := extent
      dsimp only at hfree hfirst hlast
      rw [Block.extent, hfirst, hfree, hblockFree, show block.size = size by omega]
    · obtain ⟨record, hrecord, hinUse, hpos, hrecordAddress, hrecordSize⟩ := hblock
      refine ⟨block.index, record, hrecord, ?_, ?_⟩
      · obtain ⟨other, hother, -⟩ := htiled.end_le _ _ hrecord
        have hwithin := htiled.within hrecord hother
        by_contra hne
        have hapart := htiled.pages_apart _ _ _ _ hother hpage hne
        rw [← hrecordAddress, Set.mem_Ico] at hmem
        omega
      · obtain ⟨address, size, isFree⟩ := extent
        dsimp only at haddress hsize hused
        rw [Block.extent, hrecordAddress, hrecordSize, haddress, hsize, hinUse, hused]
    · obtain ⟨block, hblock, hnumber, hnone⟩ := htiled.sentinel number page hpage
      obtain ⟨hsize, hused, other, hother, -, haddress⟩ := htiled.last _ block hblock hnone
      obtain rfl : other = page := Option.some.inj (hother.symm.trans (hnumber ▸ hpage))
      refine ⟨_, block, hblock, hnumber, ?_⟩
      rw [Block.extent, haddress, hsize, hused]

end Layout.Settled

/-- A page is divided in the same way by the same blocks in use. -/
theorem Layout.Extents.eq {first second : Layout} (hfirst : first.Settled)
    (hsecond : second.Settled) {number : Nat} {page : Page} {extents others : List Extent}
    (hextents : first.Extents number extents) (hothers : second.Extents number others)
    (hfirstPage : first.pages.get? number = some page)
    (hsecondPage : second.pages.get? number = some page)
    (hused : usedBlocks first.blocks.get? = usedBlocks second.blocks.get?) : extents = others := by
  have hmem : ∀ extent, extent ∈ extents ↔ extent ∈ others := fun extent ↦ by
    rw [hfirst.mem_extents_iff hextents hfirstPage, hused,
      ← hsecond.mem_extents_iff hothers hsecondPage]
  obtain ⟨_, _, _, -, -, hwalk, rfl⟩ := hextents
  obtain ⟨_, _, _, -, -, hotherWalk, rfl⟩ := hothers
  have : Std.Irrefl fun first second : Extent ↦ first.address < second.address :=
    ⟨fun extent ↦ Nat.lt_irrefl extent.address⟩
  have : Std.Antisymm fun first second : Extent ↦ first.address < second.address :=
    ⟨fun _ _ hlt hgt ↦ absurd hgt hlt.asymm⟩
  exact (hwalk.sorted hfirst.shaped.tiled).eq_of_mem_iff
    (hotherWalk.sorted hsecond.shaped.tiled) hmem

end KernelMemory
