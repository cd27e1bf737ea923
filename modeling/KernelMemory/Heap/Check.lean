import KernelMemory.Act
import KernelMemory.Heap.Layout

/-!
# Checking a heap layout

A walk over all pages and all free lists, which finds the first thing about a layout that is not
as it should be.
-/

set_option autoImplicit false
set_option relaxedAutoImplicit false

namespace KernelMemory

-- Sums of numbers mean the same beside a library that has zeros of its own.
attribute [local instance (high)] Zero.ofOfNat0

inductive LayoutDefect
  | noBlock (index : Nat)
  | wrongPage (index : Nat)
  | notContiguous (index : Nat)
  | wrongPrev (index : Nat)
  | wrongPrevFree (index : Nat)
  | wrongSentinel (index : Nat)
  | wrongSize (index : Nat)
  | freeNeighbours (index : Nat)
  | notListed (index : Nat)
  | listedInUse (index : Nat)
  | wrongEnd (page : Nat)
  | wrongLevelMark (level : Nat)
  | wrongSlotMark (sizeClass : SizeClass)
  | wrongList (index : Nat)
  | wrongFreeBlocks
  | wrongBytes
  | wrongFreePages
deriving DecidableEq, Repr

/-- What was counted on a walk. -/
structure LayoutSurvey where
  total : Nat := 0
  free : Nat := 0
  freeBlocks : Nat := 0
  freePages : Nat := 0
deriving DecidableEq, Repr

/-- A place on the walk through a page: the block before it and the address it is at. -/
structure LayoutPlace where
  prev : Option Nat
  isPrevFree : Bool
  address : Nat
deriving DecidableEq, Repr

namespace Layout

/-- A check that finds a defect, or faults on an access. -/
abbrev Check := ExceptT LayoutDefect (Except Fault)

def checkLinks (pageIndex index : Nat) (block : Block) (place : LayoutPlace) :
    Except LayoutDefect Unit := do
  unless block.page = pageIndex do throw (.wrongPage index)
  unless block.address = place.address do throw (.notContiguous index)
  unless block.prev = place.prev do throw (.wrongPrev index)
  unless block.isPrevFree = place.isPrevFree do throw (.wrongPrevFree index)

def checkState (layout : Layout) (page : Page) (index : Nat) (block : Block) :
    Except LayoutDefect Unit := do
  if block.isSentinel then
    unless index = page.sentinel && block.next.isNone && !block.isFree do
      throw (.wrongSentinel index)
  else
    unless minBlockSize ≤ block.size && block.size % blockAlign = 0 do throw (.wrongSize index)
    if block.isFree then
      if block.isPrevFree then throw (.freeNeighbours index)
      unless layout.lists.isListed index do throw (.notListed index)
    else
      if layout.lists.isListed index then throw (.listedInUse index)

def countBlock (page : Page) (block : Block) (survey : LayoutSurvey) : LayoutSurvey :=
  if block.isFree && !block.isSentinel then
    { survey with
      free := survey.free + block.size
      freeBlocks := survey.freeBlocks + 1
      freePages :=
        if block.prev.isNone && block.size == page.size then survey.freePages + 1
        else survey.freePages }
  else survey

/-- Walk along the blocks of a page, at most `steps` of them. -/
def checkBlocks (layout : Layout) (pageIndex : Nat) (page : Page) : (steps : Nat) →
    (current : Option Nat) → LayoutPlace → LayoutSurvey → Check LayoutSurvey
  | 0, _, _, _ => throw (.wrongEnd pageIndex)
  | _ + 1, none, place, survey => do
    unless place.prev = some page.sentinel && place.address = page.base + page.size do
      throw (.wrongEnd pageIndex)
    return survey
  | steps + 1, some index, place, survey => do
    let some block := layout.blocks.get? index | throw (.noBlock index)
    liftExcept (checkLinks pageIndex index block place)
    liftExcept (layout.checkState page index block)
    layout.checkBlocks pageIndex page steps block.next
      ⟨some index, block.isFree, block.address + block.size⟩ (countBlock page block survey)

def checkPage (layout : Layout) (survey : LayoutSurvey) (index : Nat) (page : Page) :
    Check LayoutSurvey := do
  layout.checkBlocks index page (layout.blocks.size + 1) (some (← layout.firstBlock index))
    ⟨none, false, page.base⟩ { survey with total := survey.total + page.size }

/-- Check the list of a class and give the number of its members. -/
def checkList (layout : Layout) (sizeClass : SizeClass) : Check Nat := do
  let members ← layout.lists.members sizeClass
  unless (← layout.lists.slotsOf sizeClass.level).has sizeClass.slot = !members.isEmpty do
    throw (.wrongSlotMark sizeClass)
  members.forM fun index ↦ do
    let block ← layout.block index
    unless block.isFree && SizeClass.ofSize block.size = sizeClass do throw (.wrongList index)
  return members.length

def checkLevel (layout : Layout) (level : Nat) : Check Nat := do
  unless layout.lists.levels.has level = !(← layout.lists.slotsOf level).isEmpty do
    throw (.wrongLevelMark level)
  return ((← (List.range slotCount).mapM fun slot ↦ layout.checkList { level, slot }) : List Nat).sum

def verify (layout : Layout) : Check Unit := do
  let survey ← layout.pages.toList.foldlM
    (fun survey (index, page) ↦ layout.checkPage survey index page) {}
  let listed ← (List.range levelCount).mapM layout.checkLevel
  unless listed.sum = survey.freeBlocks do throw .wrongFreeBlocks
  unless survey.free = layout.free && survey.total = layout.total do throw .wrongBytes
  unless survey.freePages = layout.freePages do throw .wrongFreePages

end Layout

end KernelMemory
