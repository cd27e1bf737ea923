import KernelMemory.Proofs.Heap.Walks

/-!
# The survey of a settled layout

The check of a layout walks along all pages and all free lists. On a settled layout it finds no
defect (`Layout.Settled.verify_eq`): the walks along the pages come to every block once, so what is
counted on them are the sums over all blocks, and the free lists have as many members as there are
free blocks.
-/

set_option autoImplicit false
set_option relaxedAutoImplicit false

namespace KernelMemory

/-- Lists whose members tell which list they are on have no member twice in common. -/
theorem nodup_flatMap_of_key {α β γ : Type} {values : List α} {found : α → List β} (key : β → γ)
    (label : α → γ) (hvalues : (values.map label).Nodup)
    (hfound : ∀ value ∈ values, (found value).Nodup)
    (hkey : ∀ value ∈ values, ∀ item ∈ found value, key item = label value) :
    (values.flatMap found).Nodup := by
  refine List.nodup_flatMap.mpr ⟨hfound, (List.pairwise_map.mp hvalues).imp_of_mem ?_⟩
  intro first second hfirst hsecond hne item hitem hother
  exact hne ((hkey first hfirst item hitem).symm.trans (hkey second hsecond item hother))

/-- The block is free and covers its page. -/
def Block.spans (pages : Nat → Option Page) (block : Block) : Bool :=
  block.isFree && block.prev.isNone && (pages block.page).any fun page ↦ block.size == page.size

namespace Layout

variable {layout : Layout}

namespace Settled

variable (hsettled : layout.Settled) {number : Nat} {page : Page} {place : LayoutPlace}
  {current : Option Nat} {walk : List (Nat × Block)}

include hsettled

/-! ### The walk along a page -/

theorem length_le (hwalk : PageWalk layout.blocks.get? number page place current walk) :
    walk.length ≤ layout.blocks.size := by
  obtain ⟨holes, hblocks⟩ := hsettled.shaped.blocks
  have hnodup := PageWalk.nodup hsettled.shaped.tiled hwalk
  have hsub : (↑(walk.map Prod.fst).toFinset : Set Nat) ⊆ indices layout.blocks.get? := by
    intro index hmem
    rw [List.coe_toFinset] at hmem
    obtain ⟨⟨other, block⟩, hentry, rfl⟩ := List.mem_map.mp hmem
    exact Option.ne_none_iff_exists'.mpr ⟨block, (hwalk.of_mem hentry).1⟩
  have hle := Set.ncard_le_ncard hsub (Arena.indices_finite _)
  rwa [Set.ncard_coe_finset, List.toFinset_card_of_nodup hnodup, List.length_map,
    ← hblocks.size_eq] at hle

omit hsettled in
/-- The way back from the end of a walk leads to the block at which it started. -/
theorem firstBefore_of_walk {first : Nat}
    (hwalk : PageWalk layout.blocks.get? number page place current walk) {count : Nat}
    (hplace : place.prev = none ∧ current = some first ∨ ∃ prev, place.prev = some prev ∧
      ∀ steps, count ≤ steps → layout.firstBefore number steps prev = .ok first)
    {steps : Nat} (hsteps : count + walk.length ≤ steps) :
    layout.firstBefore number steps page.sentinel = .ok first := by
  induction hwalk generalizing count with
  | finish isPrevFree =>
    obtain ⟨hnone, -⟩ | ⟨prev, hprev, hback⟩ := hplace
    · exact absurd hnone (by simp)
    · obtain rfl := Option.some.inj hprev
      exact hback steps hsteps
  | @step index block walk hblock hpage hrest ih =>
    rw [List.length_cons, Nat.add_comm walk.length, ← Nat.add_assoc] at hsteps
    refine ih (Or.inr ⟨index, rfl, fun fewer hfewer ↦ ?_⟩) hsteps
    obtain ⟨fewer, rfl⟩ := Nat.exists_eq_add_of_le' (Nat.le_of_add_left_le hfewer)
    simp only [firstBefore, block_eq hblock, ok_bind]
    cases hprev : block.prev with
    | none =>
      obtain ⟨-, hcurrent⟩ | ⟨prev, hsome, -⟩ := hplace
      · rw [← Option.some.inj hcurrent]
        rfl
      · exact absurd (hprev.symm.trans hsome) (by simp)
    | some prev =>
      obtain ⟨hnone, -⟩ | ⟨other, hsome, hback⟩ := hplace
      · exact absurd (hprev.symm.trans hnone) (by simp)
      · obtain rfl := Option.some.inj (hprev.symm.trans hsome)
        exact hback fewer (Nat.le_of_add_le_add_right hfewer)

theorem firstBlock_eq (hpage : layout.pages.get? number = some page) {first : Nat}
    (hwalk : PageWalk layout.blocks.get? number page ⟨none, false, page.base⟩ (some first) walk) :
    layout.firstBlock number = .ok first := by
  have hlength := hsettled.length_le hwalk
  simp only [firstBlock, page_eq hpage, ok_bind]
  exact firstBefore_of_walk hwalk (Or.inl ⟨rfl, rfl⟩) ((Nat.zero_add _).trans_le (hlength.trans
    (Nat.le_succ _)))

theorem isListed_eq {index : Nat} {block : Block} (hblock : layout.blocks.get? index = some block) :
    layout.lists.isListed index = block.isFree := by
  rw [Bool.eq_iff_iff, hsettled.shaped.sorted.isListed_iff]
  simp only [freeBlocks, Set.mem_ofPred_eq, Set.notMem_empty, not_false_eq_true, true_and, hblock,
    Option.some.injEq, exists_eq_left', exists_and_left, exists_eq', and_true]

/-- No block has a defect. -/
theorem checkState_eq {index : Nat} {block : Block} (hblock : layout.blocks.get? index = some block)
    (hpage : layout.pages.get? block.page = some page) :
    layout.checkState page index block = .ok () := by
  have htiled := hsettled.shaped.tiled
  unfold checkState
  cases hnext : block.next with
  | none =>
    obtain ⟨hsize, hfree, other, hother, hsentinel, -⟩ := htiled.last index block hblock hnext
    obtain rfl : other = page := Option.some.inj (hother.symm.trans hpage)
    simp [Block.isSentinel, hsize, hfree, hsentinel]
    rfl
  | some next =>
    obtain ⟨hmin, hdvd⟩ := htiled.inner index block next hblock hnext
    have hsize : block.isSentinel = false := by
      rw [minBlockSize_eq] at hmin
      exact beq_eq_false_iff_ne.mpr (by omega)
    have hmod : block.size % blockAlign = 0 := Nat.mod_eq_zero_of_dvd hdvd
    have hapart := hsettled.apart index block hblock
    cases hfree : block.isFree with
    | false =>
      simp [hsize, hmin, hmod, hfree, hsettled.isListed_eq hblock]
      rfl
    | true =>
      have hprevFree : block.isPrevFree = false := by
        by_contra hprevFree
        obtain hmem | ⟨prev, hmem, -⟩ := hapart hfree (Bool.not_eq_false _ ▸ hprevFree)
        · exact hmem
        · exact hmem
      simp [hsize, hmin, hmod, hfree, hprevFree, hsettled.isListed_eq hblock]
      rfl

/-- The walk along a page comes to its end and counts the blocks on its way. -/
theorem checkBlocks_eq (hpage : layout.pages.get? number = some page)
    (hwalk : PageWalk layout.blocks.get? number page place current walk) {steps : Nat}
    (hsteps : walk.length < steps) (survey : LayoutSurvey) :
    layout.checkBlocks number page steps current place survey =
      .ok (.ok (walk.foldl (fun survey entry ↦ countBlock page entry.2 survey) survey)) := by
  induction hwalk generalizing steps survey with
  | finish isPrevFree =>
    obtain ⟨steps, rfl⟩ := Nat.exists_eq_add_of_lt hsteps
    simp [checkBlocks]
  | @step index block walk hblock hnumber hrest ih =>
    obtain ⟨steps, rfl⟩ := Nat.exists_eq_add_of_le' (Nat.one_le_of_lt hsteps)
    have hlinks : checkLinks number index block ⟨block.prev, block.isPrevFree, block.address⟩ =
        .ok () := by
      simp [checkLinks, hnumber]
      rfl
    have hstate := hsettled.checkState_eq hblock (hnumber ▸ hpage)
    simp only [checkBlocks, hblock, hlinks, hstate, liftExcept, Checked.pure_eq, Checked.ok_bind,
      List.foldl_cons]
    exact ih (Nat.lt_of_succ_lt_succ hsteps) _

end Settled

/-! ### What is counted -/

/-- A survey that goes on with pages of the given size and with the blocks on their walks. -/
def extendSurvey (survey : LayoutSurvey) (pages : Nat → Option Page) (size : Nat)
    (walk : List (Nat × Block)) : LayoutSurvey where
  total := survey.total + size
  free := survey.free + (walk.map fun entry ↦ entry.2.freeSize).sum
  freeBlocks := survey.freeBlocks + (walk.map fun entry ↦ entry.2.isFree.toNat).sum
  freePages := survey.freePages + (walk.map fun entry ↦ (entry.2.spans pages).toNat).sum

theorem extendSurvey_extendSurvey (survey : LayoutSurvey) (pages : Nat → Option Page)
    (size more : Nat) (walk rest : List (Nat × Block)) :
    extendSurvey (extendSurvey survey pages size walk) pages more rest =
      extendSurvey survey pages (size + more) (walk ++ rest) := by
  simp only [extendSurvey, List.map_append, List.sum_append, Nat.add_assoc]

namespace Settled

variable (hsettled : layout.Settled)

include hsettled

theorem countBlock_eq {page : Page} {index : Nat} {block : Block}
    (hblock : layout.blocks.get? index = some block)
    (hpage : layout.pages.get? block.page = some page) (survey : LayoutSurvey) :
    countBlock page block survey =
      extendSurvey survey layout.pages.get? 0 [(index, block)] := by
  unfold countBlock
  cases hfree : block.isFree with
  | false => simp [extendSurvey, Block.freeSize, Block.spans, hfree]
  | true =>
    have hsize : block.isSentinel = false :=
      beq_eq_false_iff_ne.mpr (hsettled.shaped.tiled.size_of_isFree hblock hfree)
    cases hspans : block.prev.isNone && block.size == page.size <;>
      simp [extendSurvey, Block.freeSize, Block.spans, hfree, hsize, hpage, hspans]

/-- What is counted along a walk is what the blocks on it weigh. -/
theorem foldl_countBlock {number : Nat} {page : Page} (hpage : layout.pages.get? number = some page)
    {walk : List (Nat × Block)} (hwalk : ∀ index block, (index, block) ∈ walk →
      layout.blocks.get? index = some block ∧ block.page = number) (survey : LayoutSurvey) :
    walk.foldl (fun survey entry ↦ countBlock page entry.2 survey) survey =
      extendSurvey survey layout.pages.get? 0 walk := by
  induction walk generalizing survey with
  | nil => rfl
  | cons entry walk ih =>
    obtain ⟨hblock, hnumber⟩ := hwalk entry.1 entry.2 List.mem_cons_self
    rw [List.foldl_cons, hsettled.countBlock_eq hblock (hnumber ▸ hpage),
      ih fun index block hmem ↦ hwalk index block (List.mem_cons_of_mem _ hmem),
      extendSurvey_extendSurvey]
    rfl

/-- There is a walk along every page. -/
theorem exists_walks : ∃ walkOf : Nat → List (Nat × Block),
    ∀ number page, layout.pages.get? number = some page →
      (∃ first, PageWalk layout.blocks.get? number page ⟨none, false, page.base⟩ (some first)
        (walkOf number)) ∧
      ∀ index block, (index, block) ∈ walkOf number ↔
        layout.blocks.get? index = some block ∧ block.page = number := by
  have hwalk : ∀ number, ∃ walk, ∀ page, layout.pages.get? number = some page →
      (∃ first, PageWalk layout.blocks.get? number page ⟨none, false, page.base⟩ (some first)
        walk) ∧
      ∀ index block, (index, block) ∈ walk ↔
        layout.blocks.get? index = some block ∧ block.page = number := by
    intro number
    cases hpage : layout.pages.get? number with
    | none => exact ⟨[], fun page hsome ↦ absurd hsome (by simp)⟩
    | some page =>
      obtain ⟨first, walk, hwalk, hmem⟩ := hsettled.shaped.tiled.exists_pageWalk hpage
      refine ⟨walk, fun other hother ↦ ?_⟩
      obtain rfl := Option.some.inj hother
      exact ⟨⟨first, hwalk⟩, hmem⟩
  choose walkOf hwalks using hwalk
  exact ⟨walkOf, hwalks⟩

theorem checkPage_eq {number : Nat} {page : Page} (hpage : layout.pages.get? number = some page)
    {first : Nat} {walk : List (Nat × Block)}
    (hwalk : PageWalk layout.blocks.get? number page ⟨none, false, page.base⟩ (some first) walk)
    (survey : LayoutSurvey) : layout.checkPage survey number page =
      .ok (.ok (extendSurvey survey layout.pages.get? page.size walk)) := by
  have hlength := Nat.lt_succ_of_le (hsettled.length_le hwalk)
  have hstart := extendSurvey_extendSurvey survey layout.pages.get? page.size 0 [] walk
  simp only [checkPage, hsettled.firstBlock_eq hpage hwalk, Checked.lift_ok_bind]
  rw [hsettled.checkBlocks_eq hpage hwalk hlength,
    hsettled.foldl_countBlock hpage fun index block hmem ↦ hwalk.of_mem hmem]
  exact congrArg (fun found ↦ (.ok (.ok found) : Except Fault (Except LayoutDefect LayoutSurvey)))
    hstart

section Walks

variable {walkOf : Nat → List (Nat × Block)}
  (hwalks : ∀ number page, layout.pages.get? number = some page →
    (∃ first, PageWalk layout.blocks.get? number page ⟨none, false, page.base⟩ (some first)
      (walkOf number)) ∧
    ∀ index block, (index, block) ∈ walkOf number ↔
      layout.blocks.get? index = some block ∧ block.page = number)

include hwalks

/-- The survey of some pages adds up their sizes and what is on their walks. -/
theorem checkPages_eq {entries : List (Nat × Page)}
    (hentries : ∀ number page, (number, page) ∈ entries → layout.pages.get? number = some page)
    (survey : LayoutSurvey) :
    entries.foldlM (fun survey (entry : Nat × Page) ↦ layout.checkPage survey entry.1 entry.2)
      survey = .ok (.ok (extendSurvey survey layout.pages.get?
        (entries.map fun entry ↦ entry.2.size).sum
        (entries.flatMap fun entry ↦ walkOf entry.1))) := by
  induction entries generalizing survey with
  | nil => rfl
  | cons entry entries ih =>
    have hpage := hentries entry.1 entry.2 List.mem_cons_self
    obtain ⟨⟨first, hwalk⟩, -⟩ := hwalks entry.1 entry.2 hpage
    have hrest := ih (fun number page hmem ↦ hentries number page (List.mem_cons_of_mem _ hmem))
      (extendSurvey survey layout.pages.get? entry.2.size (walkOf entry.1))
    rw [extendSurvey_extendSurvey] at hrest
    rw [List.foldlM_cons, hsettled.checkPage_eq hpage hwalk, Checked.ok_bind, hrest]
    rfl

/-- The walks along all pages come to every block once. -/
theorem mem_walks {index : Nat} {block : Block} :
    (index, block) ∈ (layout.pages.toList.flatMap fun entry ↦ walkOf entry.1) ↔
      layout.blocks.get? index = some block := by
  rw [List.mem_flatMap]
  constructor
  · rintro ⟨⟨number, page⟩, hpage, hmem⟩
    exact (((hwalks number page (Arena.mem_toList.mp hpage)).2 index block).mp hmem).1
  · intro hblock
    obtain ⟨page, hpage, -⟩ := hsettled.shaped.tiled.end_le index block hblock
    exact ⟨(block.page, page), Arena.mem_toList.mpr hpage,
      ((hwalks _ page hpage).2 index block).mpr ⟨hblock, rfl⟩⟩

theorem nodup_walks :
    ((layout.pages.toList.flatMap fun entry ↦ walkOf entry.1).map Prod.fst).Nodup := by
  rw [List.map_flatMap, List.nodup_flatMap]
  refine ⟨fun entry hentry ↦ ?_, ?_⟩
  · obtain ⟨⟨first, hwalk⟩, -⟩ := hwalks entry.1 entry.2 (Arena.mem_toList.mp hentry)
    exact hwalk.nodup hsettled.shaped.tiled
  · refine (List.pairwise_map.mp (Arena.nodup_toList layout.pages)).imp_of_mem ?_
    intro first second hfirst hsecond hne index hmem hother
    obtain ⟨⟨_, block⟩, hblock, rfl⟩ := List.mem_map.mp hmem
    obtain ⟨⟨_, otherBlock⟩, hotherBlock, heq⟩ := List.mem_map.mp hother
    obtain ⟨hget, hpage⟩ :=
      ((hwalks first.1 first.2 (Arena.mem_toList.mp hfirst)).2 _ _).mp hblock
    obtain ⟨hotherGet, hotherPage⟩ :=
      ((hwalks second.1 second.2 (Arena.mem_toList.mp hsecond)).2 _ _).mp hotherBlock
    obtain rfl : otherBlock = block :=
      Option.some.inj (hotherGet.symm.trans ((congrArg layout.blocks.get? heq).trans hget))
    exact hne (hpage.symm.trans hotherPage)

end Walks

/-! ### The free lists -/

/-- The list of each class has the free blocks of the class, each once, and the slot of the class
has a mark just if there is such a block. -/
theorem exists_members : ∃ members : SizeClass → List Nat, ∀ sizeClass, sizeClass.InRange →
    layout.lists.members sizeClass = .ok (members sizeClass) ∧ (members sizeClass).Nodup ∧
    (∀ index, index ∈ members sizeClass ↔ ∃ block, layout.blocks.get? index = some block ∧
      block.isFree = true ∧ SizeClass.ofSize block.size = sizeClass) ∧
    (layout.lists.slotsAt sizeClass.level).has sizeClass.slot = !(members sizeClass).isEmpty := by
  obtain ⟨members, hmembers⟩ := hsettled.shaped.sorted.exists_members
  refine ⟨members, fun sizeClass hclass ↦ ?_⟩
  obtain ⟨heq, hnodup, hmem, hmark⟩ := hmembers sizeClass hclass
  refine ⟨heq, hnodup, fun index ↦ ?_, hmark⟩
  rw [hmem]
  constructor
  · rintro ⟨size, ⟨-, block, hget, hfree, rfl⟩, hsame⟩
    exact ⟨block, hget, hfree, hsame⟩
  · rintro ⟨block, hget, hfree, hsame⟩
    exact ⟨block.size, ⟨Set.notMem_empty _, block, hget, hfree, rfl⟩, hsame⟩

section Members

variable {members : SizeClass → List Nat}
  (hmembers : ∀ sizeClass, sizeClass.InRange →
    layout.lists.members sizeClass = .ok (members sizeClass) ∧ (members sizeClass).Nodup ∧
    (∀ index, index ∈ members sizeClass ↔ ∃ block, layout.blocks.get? index = some block ∧
      block.isFree = true ∧ SizeClass.ofSize block.size = sizeClass) ∧
    (layout.lists.slotsAt sizeClass.level).has sizeClass.slot = !(members sizeClass).isEmpty)

include hmembers

/-- Every free block is on one list, once. -/
theorem sum_length_members : ((List.range levelCount).map fun level ↦
    ((List.range slotCount).map fun slot ↦ (members ⟨level, slot⟩).length).sum).sum =
      sumOf (fun block ↦ block.isFree.toNat) layout.blocks.get? := by
  let listed := (List.range levelCount).flatMap fun level ↦
    (List.range slotCount).flatMap fun slot ↦ members ⟨level, slot⟩
  let classOf : Nat → SizeClass := fun index ↦
    SizeClass.ofSize ((layout.blocks.get? index).elim 0 Block.size)
  have hfound : ∀ level ∈ List.range levelCount, ∀ slot ∈ List.range slotCount,
      (members ⟨level, slot⟩).Nodup ∧ ∀ index ∈ members ⟨level, slot⟩,
        (∃ block, layout.blocks.get? index = some block ∧ block.isFree = true) ∧
        classOf index = ⟨level, slot⟩ := by
    intro level hlevel slot hslot
    obtain ⟨-, hnodup, hmem, -⟩ :=
      hmembers ⟨level, slot⟩ ⟨List.mem_range.mp hlevel, List.mem_range.mp hslot⟩
    refine ⟨hnodup, fun index hindex ↦ ?_⟩
    obtain ⟨block, hget, hfree, hsame⟩ := (hmem index).mp hindex
    refine ⟨⟨block, hget, hfree⟩, ?_⟩
    simp only [classOf, hget, Option.elim_some, hsame]
  have hnodup : listed.Nodup := by
    refine nodup_flatMap_of_key (fun index ↦ (classOf index).level) id ?_ ?_ ?_
    · rw [List.map_id]
      exact List.nodup_range
    · intro level hlevel
      refine nodup_flatMap_of_key (fun index ↦ (classOf index).slot) id ?_ ?_ ?_
      · rw [List.map_id]
        exact List.nodup_range
      · exact fun slot hslot ↦ (hfound level hlevel slot hslot).1
      · intro slot hslot index hindex
        exact congrArg SizeClass.slot ((hfound level hlevel slot hslot).2 index hindex).2
    · intro level hlevel index hindex
      obtain ⟨slot, hslot, hindex⟩ := List.mem_flatMap.mp hindex
      exact congrArg SizeClass.level ((hfound level hlevel slot hslot).2 index hindex).2
  have hset : {index | ∃ block, layout.blocks.get? index = some block ∧ block.isFree = true} =
      (↑listed.toFinset : Set Nat) := by
    ext index
    rw [List.coe_toFinset]
    simp only [listed, Set.mem_ofPred_eq, List.mem_flatMap]
    constructor
    · rintro ⟨block, hget, hfree⟩
      have hclass := SizeClass.ofSize_inRange (hsettled.shaped.size_le hget)
      exact ⟨_, List.mem_range.mpr hclass.level_lt, _, List.mem_range.mpr hclass.slot_lt,
        ((hmembers _ hclass).2.2.1 index).mpr ⟨block, hget, hfree, rfl⟩⟩
    · rintro ⟨level, hlevel, slot, hslot, hindex⟩
      exact ((hfound level hlevel slot hslot).2 index hindex).1
  rw [sumOf_toNat (Arena.indices_finite layout.blocks), hset, Set.ncard_coe_finset,
    List.toFinset_card_of_nodup hnodup]
  simp only [listed, List.length_flatMap]

omit hsettled in
theorem checkMembers_eq {sizeClass : SizeClass} (hclass : sizeClass.InRange) :
    (members sizeClass).forM (fun index ↦ do
      let block ← layout.block index
      unless block.isFree && SizeClass.ofSize block.size = sizeClass do
        throw (.wrongList index) : Nat → Check Unit) = .ok (.ok ()) := by
  refine Checked.forM_eq fun index hindex ↦ ?_
  obtain ⟨block, hget, hfree, hsame⟩ := ((hmembers sizeClass hclass).2.2.1 index).mp hindex
  simp [block_eq hget, hfree, hsame]

theorem checkList_eq {sizeClass : SizeClass} (hclass : sizeClass.InRange) :
    layout.checkList sizeClass = .ok (.ok (members sizeClass).length) := by
  obtain ⟨heq, -, -, hmark⟩ := hmembers sizeClass hclass
  have hchecked := checkMembers_eq hmembers hclass
  simp only [checkList, heq, Checked.lift_ok_bind,
    hsettled.shaped.sorted.slotsOf_eq hclass.level_lt, hmark, if_true]
  rw [hchecked]
  rfl

theorem checkLevel_eq {level : Nat} (hlevel : level < levelCount) : layout.checkLevel level =
    .ok (.ok ((List.range slotCount).map fun slot ↦ (members ⟨level, slot⟩).length).sum) := by
  have hslots := Checked.mapM_eq fun slot hslot ↦ hsettled.checkList_eq hmembers
    (⟨hlevel, List.mem_range.mp hslot⟩ : SizeClass.InRange ⟨level, slot⟩)
  simp only [checkLevel, hsettled.shaped.sorted.slotsOf_eq hlevel, Checked.lift_ok_bind,
    hsettled.shaped.sorted.levels_has, if_true]
  rw [hslots]
  rfl

end Members

/-- To count the blocks that cover their page is to count the pages that are one free block. -/
theorem sumOf_spans : sumOf (fun block ↦ (block.spans layout.pages.get?).toNat) layout.blocks.get? =
    layout.freePages := by
  have hset : {index | ∃ block, layout.blocks.get? index = some block ∧
      block.spans layout.pages.get? = true} = spanning layout.blocks.get? layout.pages.get? := by
    ext index
    simp only [spanning, Block.spans, Set.mem_ofPred_eq, Bool.and_eq_true,
      Option.isNone_iff_eq_none, Option.any_eq_true, beq_iff_eq]
    grind
  rw [sumOf_toNat (Arena.indices_finite layout.blocks), hset, ← hsettled.shaped.free_pages,
    Set.sdiff_empty]

/-- The check finds no defect. -/
theorem verify_eq : layout.verify = .ok (.ok ()) := by
  obtain ⟨walkOf, hwalks⟩ := hsettled.exists_walks
  obtain ⟨members, hmembers⟩ := hsettled.exists_members
  have hsum : ∀ weight : Block → Nat, ((layout.pages.toList.flatMap fun entry ↦
      walkOf entry.1).map fun entry ↦ weight entry.2).sum = sumOf weight layout.blocks.get? :=
    fun weight ↦ (sumOf_eq_sum_map (hsettled.nodup_walks hwalks) fun _ _ ↦
      hsettled.mem_walks hwalks).symm
  have hsurvey : extendSurvey {} layout.pages.get? (layout.pages.toList.map fun entry ↦
      entry.2.size).sum (layout.pages.toList.flatMap fun entry ↦ walkOf entry.1) =
      { total      := layout.total
        free       := layout.free
        freeBlocks := sumOf (fun block ↦ block.isFree.toNat) layout.blocks.get?
        freePages  := layout.freePages } := by
    simp only [extendSurvey, Nat.zero_add, LayoutSurvey.mk.injEq]
    refine ⟨hsettled.shaped.total_eq_sum.symm, ?_, ?_, ?_⟩
    · exact (hsum Block.freeSize).trans hsettled.shaped.free
    · exact hsum fun block ↦ block.isFree.toNat
    · exact (hsum fun block ↦ (block.spans layout.pages.get?).toNat).trans hsettled.sumOf_spans
  have hpages := @checkPages_eq layout hsettled walkOf hwalks layout.pages.toList
    (fun number page hmem ↦ Arena.mem_toList.mp hmem) {}
  have hlevels := Checked.mapM_eq fun level hlevel ↦
    hsettled.checkLevel_eq hmembers (List.mem_range.mp hlevel)
  unfold verify
  rw [hpages, Checked.ok_bind, hlevels, Checked.ok_bind, hsettled.sum_length_members hmembers,
    hsurvey]
  simp

end Settled

end Layout

end KernelMemory
