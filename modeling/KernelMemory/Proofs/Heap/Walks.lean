import KernelMemory.Heap.Check
import KernelMemory.Proofs.Heap.Settled

/-!
# Walks along pages

The blocks of a page, one after the other (`PageWalk`): each starts where the one before it ends and
knows of it, and the sentinel ends the page. On a tiled page there is such a walk from the first
block, and it comes to every block of the page once (`Tiled.exists_pageWalk`).
-/

set_option autoImplicit false
set_option relaxedAutoImplicit false

namespace KernelMemory

/-- The blocks from a place of a page on. The last one is the sentinel, at the end of the page. -/
inductive PageWalk (blocks : Nat → Option Block) (number : Nat) (page : Page) :
    LayoutPlace → Option Nat → List (Nat × Block) → Prop
  | finish (isPrevFree : Bool) :
      PageWalk blocks number page ⟨some page.sentinel, isPrevFree, page.base + page.size⟩ none []
  | step {index : Nat} {block : Block} {walk : List (Nat × Block)}
      (hblock : blocks index = some block) (hpage : block.page = number)
      (hrest : PageWalk blocks number page ⟨some index, block.isFree, block.address + block.size⟩
        block.next walk) :
      PageWalk blocks number page ⟨block.prev, block.isPrevFree, block.address⟩ (some index)
        ((index, block) :: walk)

namespace PageWalk

variable {blocks : Nat → Option Block} {pages : Nat → Option Page} {number : Nat} {page : Page}
  {place : LayoutPlace} {current : Option Nat} {walk : List (Nat × Block)}

theorem of_mem (hwalk : PageWalk blocks number page place current walk) {index : Nat}
    {block : Block} (hmem : (index, block) ∈ walk) :
    blocks index = some block ∧ block.page = number := by
  induction hwalk with
  | finish isPrevFree => exact absurd hmem List.not_mem_nil
  | step hblock hpage _ ih =>
    rcases List.mem_cons.mp hmem with heq | hrest
    · obtain ⟨rfl, rfl⟩ := Prod.mk.inj heq
      exact ⟨hblock, hpage⟩
    · exact ih hrest

theorem eq_nil (hwalk : PageWalk blocks number page place none walk) : walk = [] := by
  cases hwalk with
  | finish isPrevFree => rfl

/-- A walk comes first to the block that it starts at, which fits its place. -/
theorem of_start {index : Nat} {block : Block}
    (hwalk : PageWalk blocks number page place (some index) walk)
    (hblock : blocks index = some block) :
    place = ⟨block.prev, block.isPrevFree, block.address⟩ ∧ number = block.page ∧
      ∃ behind, walk = (index, block) :: behind := by
  cases hwalk with
  | step hother hpage _ =>
    obtain rfl := Option.some.inj (hother.symm.trans hblock)
    exact ⟨rfl, hpage.symm, _, rfl⟩

/-- A walk only comes to places further on. -/
theorem address_le (hwalk : PageWalk blocks number page place current walk) {index : Nat}
    {block : Block} (hmem : (index, block) ∈ walk) : place.address ≤ block.address := by
  induction hwalk with
  | finish isPrevFree => exact absurd hmem List.not_mem_nil
  | step _ _ _ ih =>
    rcases List.mem_cons.mp hmem with heq | hrest
    · obtain ⟨rfl, rfl⟩ := Prod.mk.inj heq
      exact Nat.le_refl _
    · exact (Nat.le_add_right _ _).trans (ih hrest)

/-- A walk comes to every block that the links lead to. -/
theorem mem_of_reaches {first index : Nat} {block : Block}
    (hreaches : Relation.ReflTransGen (Linked blocks) first index)
    (hblock : blocks index = some block)
    (hwalk : PageWalk blocks number page place (some first) walk) : (index, block) ∈ walk := by
  induction hreaches using Relation.ReflTransGen.head_induction_on generalizing place walk with
  | refl =>
    cases hwalk with
    | step hother _ _ =>
      obtain rfl := Option.some.inj (hother.symm.trans hblock)
      exact List.mem_cons_self
  | head hlinked _ ih =>
    obtain ⟨other, hother, hnext⟩ := hlinked
    cases hwalk with
    | step hsame _ hrest =>
      obtain rfl := Option.some.inj (hsame.symm.trans hother)
      rw [hnext] at hrest
      exact List.mem_cons_of_mem _ (ih hrest)

/-- A walk comes to no block twice. -/
theorem nodup (htiled : Tiled blocks pages)
    (hwalk : PageWalk blocks number page place current walk) : (walk.map Prod.fst).Nodup := by
  induction hwalk with
  | finish isPrevFree => exact List.nodup_nil
  | @step index block walk hblock hpage hrest ih =>
    rw [List.map_cons, List.nodup_cons]
    refine ⟨fun hmem ↦ ?_, ih⟩
    obtain ⟨⟨other, otherBlock⟩, hother, rfl⟩ := List.mem_map.mp hmem
    obtain rfl : otherBlock = block :=
      Option.some.inj ((hrest.of_mem hother).1.symm.trans hblock)
    cases hnext : otherBlock.next with
    | none =>
      rw [hnext] at hrest
      exact absurd (hrest.eq_nil ▸ hother) List.not_mem_nil
    | some next =>
      have hmin := (htiled.inner _ _ _ hblock hnext).1
      have hle : otherBlock.address + otherBlock.size ≤ otherBlock.address :=
        hrest.address_le hother
      rw [minBlockSize_eq] at hmin
      omega

end PageWalk

namespace Tiled

variable {blocks : Nat → Option Block} {pages : Nat → Option Page} (htiled : Tiled blocks pages)

include htiled

/-- A walk can start one block earlier. -/
theorem walk_step {index next number : Nat} {block : Block} {page : Page} {place : LayoutPlace}
    {walk : List (Nat × Block)} (hblock : blocks index = some block)
    (hnext : block.next = some next)
    (hwalk : PageWalk blocks number page place (some next) walk) :
    PageWalk blocks block.page page ⟨block.prev, block.isPrevFree, block.address⟩ (some index)
      ((index, block) :: walk) := by
  obtain ⟨after, hafter, hprev, hsame, haddress, hfree⟩ :=
    htiled.follows index block next hblock hnext
  obtain ⟨rfl, rfl, -⟩ := hwalk.of_start hafter
  refine .step hblock rfl ?_
  rw [hnext, ← haddress, ← hfree, ← hprev, ← hsame]
  exact hwalk

/-- From every block a walk leads to the end of the page. -/
theorem exists_walk_from {index : Nat} {block : Block} {page : Page}
    (hblock : blocks index = some block) (hpage : pages block.page = some page) :
    ∃ walk, PageWalk blocks block.page page ⟨block.prev, block.isPrevFree, block.address⟩
      (some index) walk := by
  induction index, block, hblock using htiled.induction_from_sentinel with
  | sentinel index block hblock hnext =>
    obtain ⟨hsize, -, other, hother, hsentinel, hend⟩ := htiled.last index block hblock hnext
    obtain rfl : other = page := Option.some.inj (hother.symm.trans hpage)
    refine ⟨[(index, block)], .step hblock rfl ?_⟩
    rw [hnext, hsize, Nat.add_zero, hend, ← hsentinel]
    exact .finish _
  | step index block next after hblock hafter hnext hsame _ ih =>
    obtain ⟨walk, hwalk⟩ := ih (hsame ▸ hpage)
    exact ⟨(index, block) :: walk, htiled.walk_step hblock hnext hwalk⟩

/-- Every page has a first block. -/
theorem exists_first {number : Nat} {page : Page} (hpage : pages number = some page) :
    ∃ first block, blocks first = some block ∧ block.page = number ∧ block.prev = none := by
  obtain ⟨last, hlast, hnumber, -⟩ := htiled.sentinel number page hpage
  generalize page.sentinel = index at hlast
  induction index, last, hlast using htiled.induction_from_first with
  | first index block hblock hprev => exact ⟨index, block, hblock, hnumber, hprev⟩
  | step _ _ _ _ _ _ hsame _ ih => exact ih (hsame.trans hnumber)

/-- The first block of a page leads to all others. -/
theorem reaches_of_first {first index : Nat} {firstBlock block : Block}
    (hfirst : blocks first = some firstBlock) (hprev : firstBlock.prev = none)
    (hblock : blocks index = some block) (hpage : block.page = firstBlock.page) :
    Relation.ReflTransGen (Linked blocks) first index := by
  rcases htiled.reaches_total hfirst hblock hpage.symm with hreaches | hreaches
  · exact hreaches
  · obtain ⟨-, page, hfirstPage, hbase⟩ := htiled.first first firstBlock hfirst hprev
    have hwithin := htiled.within hblock (hpage ▸ hfirstPage)
    rcases htiled.end_le_of_reaches hreaches hblock hfirst with rfl | hle
    · exact Relation.ReflTransGen.refl
    · have hzero : block.size = 0 := by omega
      obtain ⟨-, -, other, hother, -, hend⟩ :=
        htiled.last index block hblock ((htiled.size_eq_zero_iff hblock).mp hzero)
      obtain rfl : other = page := Option.some.inj (hother.symm.trans (hpage ▸ hfirstPage))
      have hmin := (htiled.usable _ _ hother).min_le
      rw [minBlockSize_eq] at hmin
      omega

/-- A walk along a whole page comes to just the blocks of the page. -/
theorem exists_pageWalk {number : Nat} {page : Page} (hpage : pages number = some page) :
    ∃ first walk, PageWalk blocks number page ⟨none, false, page.base⟩ (some first) walk ∧
      ∀ index block, (index, block) ∈ walk ↔ blocks index = some block ∧ block.page = number := by
  obtain ⟨first, firstBlock, hfirst, rfl, hprev⟩ := htiled.exists_first hpage
  obtain ⟨hprevFree, other, hother, hbase⟩ := htiled.first first firstBlock hfirst hprev
  obtain rfl : other = page := Option.some.inj (hother.symm.trans hpage)
  obtain ⟨walk, hwalk⟩ := htiled.exists_walk_from hfirst hpage
  have hmem : ∀ index block, (index, block) ∈ walk ↔
      blocks index = some block ∧ block.page = firstBlock.page := by
    refine fun index block ↦ ⟨hwalk.of_mem, fun hblock ↦ ?_⟩
    exact hwalk.mem_of_reaches (htiled.reaches_of_first hfirst hprev hblock.1 hblock.2) hblock.1
  rw [hprev, hprevFree, hbase] at hwalk
  exact ⟨first, walk, hwalk, hmem⟩

end Tiled

end KernelMemory
