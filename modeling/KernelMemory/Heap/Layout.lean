import KernelMemory.Arena
import KernelMemory.Heap.Config
import KernelMemory.Heap.FreeLists

/-!
# Heap layout

The pages of a heap and the blocks they are divided into. The blocks of a page follow each other
without a gap and end with a sentinel of size zero. Each names the blocks before and after it and
knows whether the one before it is free; free blocks are on the free list for their size, and no
two neighbours are free.

The functions here are the steps between such layouts: a page is added or dropped, a block is cut,
joined with its neighbour, taken for an allocation or reclaimed from one. Every access and every
number is checked, so a step that would break the layout faults.
-/

set_option autoImplicit false
set_option relaxedAutoImplicit false

namespace KernelMemory

structure Block where
  /-- The address of the first byte, where the tag of an allocation lies. -/
  address : Nat
  /-- The size with the tag; zero for a sentinel. -/
  size : Nat
  isFree : Bool
  isPrevFree : Bool
  /-- The block right before this one in memory. -/
  prev : Option Nat
  /-- The block right after this one in memory. -/
  next : Option Nat
  page : Nat
deriving DecidableEq, Repr

def Block.isSentinel (block : Block) : Bool := block.size == 0

structure Page where
  base : Nat
  size : Nat
  sentinel : Nat
deriving DecidableEq, Repr

structure Layout where
  blocks : Arena Block := .empty
  pages : Arena Page := .empty
  lists : FreeLists := .empty
  /-- The bytes of all pages. -/
  total : Nat := 0
  /-- The bytes of all free blocks. -/
  free : Nat := 0
  /-- The number of pages that are one free block. -/
  freePages : Nat := 0
deriving DecidableEq, Repr

namespace Layout

def block (layout : Layout) (index : Nat) : Except Fault Block := layout.blocks.get index

def page (layout : Layout) (index : Nat) : Except Fault Page := layout.pages.get index

def modifyBlock (layout : Layout) (index : Nat) (change : Block → Block) :
    Except Fault Layout := do
  return { layout with blocks := ← layout.blocks.modify index change }

/-- Change a block that a neighbour may have. -/
def modifyNeighbour (layout : Layout) (neighbour : Option Nat) (change : Block → Block) :
    Except Fault Layout :=
  match neighbour with
  | none => .ok layout
  | some index => layout.modifyBlock index change

/-- A node that a free list leads to has to be a head, or that of a block on a list. -/
def reach (layout : Layout) (node : Nat) : Except Fault Unit := do
  if let some block := Word.sub? node classCount then
    let _ ← layout.block block
    let _ ← layout.lists.node block

/-- Put a block on the free list for its size. -/
def enlist (layout : Layout) (index : Nat) : Except Fault Layout := do
  let size := (← layout.block index).size
  layout.reach (← layout.lists.head size).next
  return { layout with lists := ← layout.lists.insert index size }

/-- Take a block off the free list for its size. -/
def delist (layout : Layout) (index : Nat) : Except Fault Layout := do
  let size := (← layout.block index).size
  let node ← layout.lists.node index
  layout.reach node.prev
  layout.reach node.next
  return { layout with lists := ← layout.lists.remove index size }

/-- Make a block free or not, which the block after it gets to know. -/
def setFree (layout : Layout) (index : Nat) (isFree : Bool) : Except Fault Layout := do
  let layout ← layout.modifyBlock index fun block ↦ { block with isFree }
  layout.modifyNeighbour (← layout.block index).next fun next ↦ { next with isPrevFree := isFree }

/-- The block covers its page. -/
def spansPage (layout : Layout) (index : Nat) : Except Fault Bool := do
  let block ← layout.block index
  if block.prev.isSome then return false
  return block.size == (← layout.page block.page).size

/-- A free block of at least the given size. -/
def findFree? (layout : Layout) (size : Nat) : Except Fault (Option Nat) :=
  layout.lists.find? size

/-- The first block of a page before the given one, at most `steps` blocks away. -/
def firstBefore (layout : Layout) (page : Nat) : (steps : Nat) → (index : Nat) →
    Except Fault Nat
  | 0, _ => .error (.endlessChain page)
  | steps + 1, index => do
    match (← layout.block index).prev with
    | none => return index
    | some prev => layout.firstBefore page steps prev

/-- The first block of a page: the only one that no block comes before. -/
def firstBlock (layout : Layout) (page : Nat) : Except Fault Nat := do
  layout.firstBefore page (layout.blocks.size + 1) (← layout.page page).sentinel

/-- Add a page that is one free block. -/
def addPage (layout : Layout) (base size : Nat) : Except Fault Layout := do
  let (page, pages) ← layout.pages.insert { base, size, sentinel := 0 }
  let (first, blocks) ← layout.blocks.insert
    { address := base, size, isFree := true, isPrevFree := false, prev := none, next := none,
      page }
  let (sentinel, blocks) ← blocks.insert
    { address := ← Word.add base size, size := 0, isFree := false, isPrevFree := true,
      prev := some first, next := none, page }
  let blocks ← blocks.modify first fun block ↦ { block with next := some sentinel }
  let pages ← pages.modify page fun page ↦ { page with sentinel }
  { layout with
    blocks
    pages
    total := ← Word.add layout.total size
    free := ← Word.add layout.free size
    freePages := ← Word.add layout.freePages 1 }.enlist first

/-- Drop a page that is one free block, and give what it was. -/
def dropPage (layout : Layout) (index : Nat) : Except Fault (Page × Layout) := do
  let first ← layout.firstBlock index
  let sentinel := (← layout.page index).sentinel
  let layout ← layout.delist first
  let (_, blocks) ← layout.blocks.remove first
  let (_, blocks) ← blocks.remove sentinel
  let (page, pages) ← layout.pages.remove index
  return (page, { layout with
    blocks
    pages
    total := ← Word.sub layout.total page.size
    free := ← Word.sub layout.free page.size
    freePages := ← Word.sub layout.freePages 1 })

/-- Cut a free block that is on no list, and give the new block that starts at the offset. Both
parts are free and on no list. -/
def split (layout : Layout) (index offset : Nat) : Except Fault (Nat × Layout) := do
  let block ← layout.block index
  unless block.isFree do throw (.cutOfUsedBlock index)
  unless minBlockSize ≤ offset do throw (.pieceTooSmall index)
  let size ← Word.sub block.size offset
  unless minBlockSize ≤ size do throw (.pieceTooSmall index)
  let (rest, blocks) ← layout.blocks.insert
    { address := ← Word.add block.address offset, size, isFree := true, isPrevFree := true,
      prev := some index, next := block.next, page := block.page }
  let layout ← { layout with blocks }.modifyBlock index fun block ↦
    { block with size := offset, next := some rest }
  let layout ← layout.modifyNeighbour block.next fun next ↦
    { next with prev := some rest, isPrevFree := true }
  return (rest, layout)

/-- Join a block with the one right after it; neither is on a list. -/
def absorb (layout : Layout) (index next : Nat) : Except Fault Layout := do
  unless (← layout.block index).next = some next do throw (.notNeighbours index next)
  let (gone, blocks) ← layout.blocks.remove next
  let layout := { layout with blocks }
  let size ← Word.add (← layout.block index).size gone.size
  let layout ← layout.modifyBlock index fun block ↦ { block with size, next := gone.next }
  let isPrevFree := (← layout.block index).isFree
  layout.modifyNeighbour gone.next fun after ↦ { after with prev := some index, isPrevFree }

/-- Cut a free block that is on no list so that its payload is aligned, and give the part with the
aligned payload. The payload is taken from the end, and what lies before it is listed. -/
def carveFront (layout : Layout) (index need align : Nat) : Except Fault (Nat × Layout) := do
  let block ← layout.block index
  if (← Word.add block.address headerSize) % align = 0 then return (index, layout)
  let last ← Word.sub (← Word.add block.address block.size) (← Word.sub need headerSize)
  let start ← Word.sub (← Word.alignDown last align) headerSize
  let offset ← Word.sub start block.address
  let (used, layout) ← layout.split index offset
  return (used, ← layout.enlist index)

/-- Cut a free block that is on no list down to the size that is needed if what is left makes a
block, which is listed. -/
def carveBack (layout : Layout) (index need : Nat) : Except Fault Layout := do
  if (← Word.sub (← layout.block index).size need) < minBlockSize then return layout
  let (rest, layout) ← layout.split index need
  layout.enlist rest

/-- Cut a free block that is on no list so that its payload is aligned and no larger than needed,
and give the part that is to be used. -/
def carve (layout : Layout) (index need align : Nat) : Except Fault (Nat × Layout) := do
  let (used, layout) ← layout.carveFront index need align
  return (used, ← layout.carveBack used need)

/-- Take a block with an aligned payload out of a free block, and give it. -/
def take (layout : Layout) (index need align : Nat) : Except Fault (Nat × Layout) := do
  let layout ← layout.delist index
  let layout ←
    if ← layout.spansPage index then
      pure { layout with freePages := ← Word.sub layout.freePages 1 }
    else pure layout
  let (used, layout) ← layout.carve index need align
  let layout ← layout.setFree used false
  return (used, { layout with free := ← Word.sub layout.free (← layout.block used).size })

/-- Join a free block that is on no list with the block after it, if that is free. -/
def mergeNext (layout : Layout) (index : Nat) : Except Fault Layout := do
  let some next := (← layout.block index).next | return layout
  let block ← layout.block next
  if block.isFree && !block.isSentinel then (← layout.delist next).absorb index next
  else return layout

/-- Join a free block that is on no list with the block before it, if that is free, and give what
comes of it. -/
def mergePrev (layout : Layout) (index : Nat) : Except Fault (Nat × Layout) := do
  let block ← layout.block index
  unless block.isPrevFree do return (index, layout)
  let some prev := block.prev | return (index, layout)
  return (prev, ← (← layout.delist prev).absorb prev index)

/-- A neighbour of the block is free. -/
def hasFreeNeighbour (layout : Layout) (block : Block) : Except Fault Bool := do
  if block.isPrevFree then return true
  match block.next with
  | none => return false
  | some next => return (← layout.block next).isFree

/-- Free a block in use and join it with its free neighbours. If it then covers its page, the page
is given. -/
def reclaim (layout : Layout) (index : Nat) : Except Fault (Option Nat × Layout) := do
  let layout := { layout with free := ← Word.add layout.free (← layout.block index).size }
  let layout ← layout.setFree index true
  let layout ← layout.mergeNext index
  let (index, layout) ← layout.mergePrev index
  let block ← layout.block index
  if ← layout.hasFreeNeighbour block then throw (.freeNeighbour block.address)
  let layout ← layout.enlist index
  if ← layout.spansPage index then
    return (some block.page, { layout with freePages := ← Word.add layout.freePages 1 })
  return (none, layout)

end Layout

end KernelMemory
