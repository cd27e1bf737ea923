import KernelMemory.Heap.Layout
import Mathlib.Data.Set.Basic
import Mathlib.Logic.Relation
import Mathlib.Order.Nat
import Mathlib.Tactic.Common

/-!
# Pages tiled by blocks

The blocks and the pages of a heap as two maps, and what they have to say about each other
(`Tiled`). Every condition is about one block and the block after or before it, so a step that
changes a few blocks has to be checked there alone.

The rest follows along the links, by induction from the first block of a page or back from its
sentinel (`Tiled.induction_from_first`, `Tiled.induction_from_sentinel`). From every block they lead
to the sentinel of its page (`Tiled.reaches_sentinel`), so of two blocks of a page one is reached
from the other, and two blocks never overlap (`Tiled.blocks_apart`).
-/

set_option autoImplicit false
set_option relaxedAutoImplicit false

namespace KernelMemory

theorem blockAlign_eq : blockAlign = 16 := rfl

theorem headerSize_eq : headerSize = 16 := rfl

theorem minBlockSize_eq : minBlockSize = 32 := rfl

namespace Page

/-- The page is made of whole alignment steps, has room for a block and ends at an address. -/
structure Usable (page : Page) : Prop where
  base_pos : 0 < page.base
  base_dvd : blockAlign ∣ page.base
  min_le : minBlockSize ≤ page.size
  size_dvd : blockAlign ∣ page.size
  size_le : page.size ≤ maxBlockSize
  end_lt : page.base + page.size < Word.limit

end Page

/-- The blocks of every page follow each other without a gap from its base to its sentinel. -/
structure Tiled (blocks : Nat → Option Block) (pages : Nat → Option Page) : Prop where
  follows : ∀ index block next, blocks index = some block → block.next = some next →
    ∃ after, blocks next = some after ∧ after.prev = some index ∧ after.page = block.page ∧
      after.address = block.address + block.size ∧ after.isPrevFree = block.isFree
  precedes : ∀ index block prev, blocks index = some block → block.prev = some prev →
    ∃ before, blocks prev = some before ∧ before.next = some index
  first : ∀ index block, blocks index = some block → block.prev = none →
    block.isPrevFree = false ∧ ∃ page, pages block.page = some page ∧ block.address = page.base
  last : ∀ index block, blocks index = some block → block.next = none →
    block.size = 0 ∧ block.isFree = false ∧
      ∃ page, pages block.page = some page ∧ page.sentinel = index ∧
        block.address = page.base + page.size
  inner : ∀ index block next, blocks index = some block → block.next = some next →
    minBlockSize ≤ block.size ∧ blockAlign ∣ block.size
  end_le : ∀ index block, blocks index = some block →
    ∃ page, pages block.page = some page ∧ block.address + block.size ≤ page.base + page.size
  sentinel : ∀ number page, pages number = some page →
    ∃ block, blocks page.sentinel = some block ∧ block.page = number ∧ block.next = none
  usable : ∀ number page, pages number = some page → page.Usable
  pages_apart : ∀ first second firstPage secondPage, pages first = some firstPage →
    pages second = some secondPage → first ≠ second →
    firstPage.base + firstPage.size ≤ secondPage.base ∨
      secondPage.base + secondPage.size ≤ firstPage.base

/-- The second block comes right after the first one. -/
def Linked (blocks : Nat → Option Block) (first second : Nat) : Prop :=
  ∃ block, blocks first = some block ∧ block.next = some second

namespace Tiled

variable {blocks : Nat → Option Block} {pages : Nat → Option Page} (htiled : Tiled blocks pages)

include htiled

/-! ### Along the links -/

theorem size_eq_zero_iff {index : Nat} {block : Block} (hblock : blocks index = some block) :
    block.size = 0 ↔ block.next = none := by
  constructor
  · intro hzero
    cases hnext : block.next with
    | none => rfl
    | some next =>
      have hmin := (htiled.inner index block next hblock hnext).1
      rw [hzero, minBlockSize_eq] at hmin
      omega
  · exact fun hnone ↦ (htiled.last index block hblock hnone).1

theorem exists_next {index : Nat} {block : Block} (hblock : blocks index = some block)
    (hsize : block.size ≠ 0) : ∃ next, block.next = some next := by
  rw [Ne, htiled.size_eq_zero_iff hblock] at hsize
  exact Option.ne_none_iff_exists'.mp hsize

theorem size_of_isFree {index : Nat} {block : Block} (hblock : blocks index = some block)
    (hfree : block.isFree = true) : block.size ≠ 0 := by
  rw [Ne, htiled.size_eq_zero_iff hblock]
  intro hnone
  rw [(htiled.last index block hblock hnone).2.1] at hfree
  exact absurd hfree (by decide)

/-- Sizes are whole alignment steps, also that of a sentinel. -/
theorem size_dvd {index : Nat} {block : Block} (hblock : blocks index = some block) :
    blockAlign ∣ block.size := by
  cases hnext : block.next with
  | none =>
    rw [(htiled.last index block hblock hnext).1]
    exact Nat.dvd_zero _
  | some next => exact (htiled.inner index block next hblock hnext).2

/-- The block before another one ends where that starts. -/
theorem before {index : Nat} {block : Block} {prev : Nat} (hblock : blocks index = some block)
    (hprev : block.prev = some prev) :
    ∃ before, blocks prev = some before ∧ before.next = some index ∧ before.page = block.page ∧
      before.address + before.size = block.address ∧ before.isFree = block.isPrevFree ∧
      minBlockSize ≤ before.size := by
  obtain ⟨before, hbefore, hnext⟩ := htiled.precedes index block prev hblock hprev
  obtain ⟨after, hafter, -, hpage, haddress, hfree⟩ :=
    htiled.follows prev before index hbefore hnext
  obtain rfl : after = block := Option.some.inj (hafter.symm.trans hblock)
  exact ⟨before, hbefore, hnext, hpage.symm, haddress.symm, hfree.symm,
    (htiled.inner prev before index hbefore hnext).1⟩

/-- What holds of the first blocks of the pages, and of a block if it does of the one before, holds
of all blocks. -/
theorem induction_from_first {motive : ∀ index block, blocks index = some block → Prop}
    (first : ∀ index block (hblock : blocks index = some block), block.prev = none →
      motive index block hblock)
    (step : ∀ index block prev before (hblock : blocks index = some block)
      (hbefore : blocks prev = some before), before.page = block.page →
      before.address + before.size = block.address → motive prev before hbefore →
      motive index block hblock)
    (index : Nat) (block : Block) (hblock : blocks index = some block) :
    motive index block hblock := by
  induction haddress : block.address using Nat.strong_induction_on generalizing index block with
  | _ address ih =>
    cases hprev : block.prev with
    | none => exact first index block hblock hprev
    | some prev =>
      obtain ⟨before, hbefore, -, hpage, hend, -, hmin⟩ := htiled.before hblock hprev
      rw [minBlockSize_eq] at hmin
      exact step index block prev before hblock hbefore hpage hend
        (ih before.address (by omega) prev before hbefore rfl)

/-- A block starts in its page, at a whole alignment step. -/
theorem start {index : Nat} {block : Block} (hblock : blocks index = some block) :
    blockAlign ∣ block.address ∧
      ∃ page, pages block.page = some page ∧ page.base ≤ block.address := by
  induction index, block, hblock using htiled.induction_from_first with
  | first index block hblock hprev =>
    obtain ⟨-, page, hpage, hbase⟩ := htiled.first index block hblock hprev
    rw [hbase]
    exact ⟨(htiled.usable _ _ hpage).base_dvd, page, hpage, Nat.le_refl _⟩
  | step index block prev before hblock hbefore hpage hend ih =>
    obtain ⟨hdvd, page, hpages, hbase⟩ := ih
    rw [← hend, ← hpage]
    exact ⟨Nat.dvd_add hdvd (htiled.size_dvd hbefore), page, hpages, by omega⟩

/-- A block lies in its page. -/
theorem within {index : Nat} {block : Block} {page : Page} (hblock : blocks index = some block)
    (hpage : pages block.page = some page) :
    page.base ≤ block.address ∧ block.address + block.size ≤ page.base + page.size := by
  obtain ⟨-, first, hfirst, hbase⟩ := htiled.start hblock
  obtain ⟨second, hsecond, hend⟩ := htiled.end_le index block hblock
  obtain rfl : first = page := Option.some.inj (hfirst.symm.trans hpage)
  obtain rfl : second = first := Option.some.inj (hsecond.symm.trans hpage)
  exact ⟨hbase, hend⟩

/-- What holds of the sentinels, and of a block if it does of the one after it, holds of all
blocks. -/
theorem induction_from_sentinel {motive : ∀ index block, blocks index = some block → Prop}
    (sentinel : ∀ index block (hblock : blocks index = some block), block.next = none →
      motive index block hblock)
    (step : ∀ index block next after (hblock : blocks index = some block)
      (hafter : blocks next = some after), block.next = some next → after.page = block.page →
      after.address = block.address + block.size → motive next after hafter →
      motive index block hblock)
    (index : Nat) (block : Block) (hblock : blocks index = some block) :
    motive index block hblock := by
  obtain ⟨page, hpage, -⟩ := htiled.end_le index block hblock
  induction hrest : page.base + page.size - block.address using Nat.strong_induction_on
    generalizing index block with
  | _ rest ih =>
    cases hnext : block.next with
    | none => exact sentinel index block hblock hnext
    | some next =>
      obtain ⟨after, hafter, -, hsame, haddress, -⟩ :=
        htiled.follows index block next hblock hnext
      have hmin := (htiled.inner index block next hblock hnext).1
      have hend := (htiled.within hblock hpage).2
      rw [minBlockSize_eq] at hmin
      exact step index block next after hblock hafter hnext hsame haddress
        (ih (page.base + page.size - after.address) (by omega) next after hafter
          (hsame ▸ hpage) rfl)

theorem reaches_sentinel {index : Nat} {block : Block} {page : Page}
    (hblock : blocks index = some block) (hpage : pages block.page = some page) :
    Relation.ReflTransGen (Linked blocks) index page.sentinel := by
  induction index, block, hblock using htiled.induction_from_sentinel with
  | sentinel index block hblock hnext =>
    obtain ⟨-, -, other, hother, hsentinel, -⟩ := htiled.last index block hblock hnext
    obtain rfl : other = page := Option.some.inj (hother.symm.trans hpage)
    rw [hsentinel]
  | step index block next after hblock hafter hnext hsame _ ih =>
    exact Relation.ReflTransGen.head ⟨block, hblock, hnext⟩ (ih (hsame ▸ hpage))

/-- A block that is reached from another one starts at its end or later. -/
theorem end_le_of_reaches {first second : Nat} {firstBlock secondBlock : Block}
    (hreaches : Relation.ReflTransGen (Linked blocks) first second)
    (hfirst : blocks first = some firstBlock) (hsecond : blocks second = some secondBlock) :
    first = second ∨ firstBlock.address + firstBlock.size ≤ secondBlock.address := by
  induction hreaches using Relation.ReflTransGen.head_induction_on generalizing firstBlock with
  | refl => exact Or.inl rfl
  | @head first middle hlinked hrest ih =>
    obtain ⟨block, hblock, hnext⟩ := hlinked
    obtain rfl : block = firstBlock := Option.some.inj (hblock.symm.trans hfirst)
    obtain ⟨after, hafter, -, -, haddress, -⟩ := htiled.follows first block middle hblock hnext
    right
    rcases ih hafter with rfl | hle
    · obtain rfl : after = secondBlock := Option.some.inj (hafter.symm.trans hsecond)
      exact Nat.le_of_eq haddress.symm
    · omega

/-- Of two blocks of a page one is reached from the other. -/
theorem reaches_total {first second : Nat} {firstBlock secondBlock : Block}
    (hfirst : blocks first = some firstBlock) (hsecond : blocks second = some secondBlock)
    (hpage : firstBlock.page = secondBlock.page) :
    Relation.ReflTransGen (Linked blocks) first second ∨
      Relation.ReflTransGen (Linked blocks) second first := by
  obtain ⟨page, hpages, -⟩ := htiled.end_le first firstBlock hfirst
  have hunique : Relator.RightUnique (Function.swap (Linked blocks)) := by
    rintro node p q ⟨pBlock, hp, hpNext⟩ ⟨qBlock, hq, hqNext⟩
    obtain ⟨after, hafter, hprev, -⟩ := htiled.follows p pBlock node hp hpNext
    obtain ⟨other, hother, hqPrev, -⟩ := htiled.follows q qBlock node hq hqNext
    obtain rfl : other = after := Option.some.inj (hother.symm.trans hafter)
    exact Option.some.inj (hprev.symm.trans hqPrev)
  rcases Relation.ReflTransGen.total_of_right_unique hunique
    (Relation.reflTransGen_swap.mpr (htiled.reaches_sentinel hfirst hpages))
    (Relation.reflTransGen_swap.mpr (htiled.reaches_sentinel hsecond (hpage ▸ hpages)))
    with hback | hback
  · exact Or.inr (Relation.reflTransGen_swap.mp hback)
  · exact Or.inl (Relation.reflTransGen_swap.mp hback)

/-- Two blocks do not overlap. -/
theorem blocks_apart {first second : Nat} {firstBlock secondBlock : Block}
    (hfirst : blocks first = some firstBlock) (hsecond : blocks second = some secondBlock)
    (hne : first ≠ second) :
    firstBlock.address + firstBlock.size ≤ secondBlock.address ∨
      secondBlock.address + secondBlock.size ≤ firstBlock.address := by
  by_cases hpage : firstBlock.page = secondBlock.page
  · rcases htiled.reaches_total hfirst hsecond hpage with hreaches | hreaches
    · exact Or.inl ((htiled.end_le_of_reaches hreaches hfirst hsecond).resolve_left hne)
    · exact Or.inr ((htiled.end_le_of_reaches hreaches hsecond hfirst).resolve_left hne.symm)
  · obtain ⟨page, hpageFirst, -⟩ := htiled.end_le first firstBlock hfirst
    obtain ⟨other, hpageSecond, -⟩ := htiled.end_le second secondBlock hsecond
    have hwithin := htiled.within hfirst hpageFirst
    have hwithinOther := htiled.within hsecond hpageSecond
    have hapart := htiled.pages_apart _ _ page other hpageFirst hpageSecond hpage
    omega

/-- Pages are known by their bases. -/
theorem page_base_ne {first second : Nat} {firstPage secondPage : Page}
    (hfirst : pages first = some firstPage) (hsecond : pages second = some secondPage)
    (hne : first ≠ second) : firstPage.base ≠ secondPage.base := by
  have hapart := htiled.pages_apart first second firstPage secondPage hfirst hsecond hne
  have hmin := (htiled.usable first firstPage hfirst).min_le
  have hminSecond := (htiled.usable second secondPage hsecond).min_le
  rw [minBlockSize_eq] at hmin hminSecond
  omega

/-- A page with a block that spans it has no other block than its sentinel. -/
theorem eq_or_eq_sentinel {index other : Nat} {block otherBlock : Block} {page : Page}
    (hblock : blocks index = some block) (hpage : pages block.page = some page)
    (hsize : block.size = page.size) (hother : blocks other = some otherBlock)
    (hsame : otherBlock.page = block.page) : other = index ∨ other = page.sentinel := by
  by_contra hneither
  obtain ⟨hne, hneSentinel⟩ := not_or.mp hneither
  have hwithin := htiled.within hblock hpage
  have hwithinOther := htiled.within hother (hsame ▸ hpage)
  have hmin := (htiled.usable _ _ hpage).min_le
  rw [minBlockSize_eq] at hmin
  have hzero : otherBlock.size = 0 := by
    have hapart := htiled.blocks_apart hother hblock hne
    omega
  obtain ⟨-, -, last, hlast, hsentinel, -⟩ :=
    htiled.last other otherBlock hother ((htiled.size_eq_zero_iff hother).mp hzero)
  obtain rfl : last = page := Option.some.inj (hlast.symm.trans (hsame ▸ hpage))
  exact hneSentinel hsentinel.symm

end Tiled

end KernelMemory
