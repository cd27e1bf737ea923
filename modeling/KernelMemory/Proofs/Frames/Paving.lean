import KernelMemory.Frames.Allocator
import Mathlib.Algebra.BigOperators.Group.Finset.Basic
import Mathlib.Algebra.Order.BigOperators.Group.Finset
import Mathlib.Data.Nat.Bitwise
import Mathlib.Order.Interval.Finset.Nat
import Mathlib.Tactic.Ring

/-!
# Pavings by aligned blocks

A set of blocks paves a pool when every frame of the pool lies in exactly one of them, each block
lies in the pool, and each starts at a multiple of its own size (`Paving`).

Two aligned blocks are disjoint or one contains the other, so a block of a paving that meets the
buddy of another block of the paving is the buddy or a part of it
(`Paving.start_eq_buddyOf`). A block can be split into two buddies (`Paving.split`) and two buddies
can be joined (`Paving.join`). The sizes of the blocks of a paving add up to the pool
(`Paving.sum_size`).
-/

set_option autoImplicit false
set_option relaxedAutoImplicit false

namespace KernelMemory

/-! ### Buddies -/

theorem eq_of_dvd_of_lt {size first second : Nat} (hfirst : size ∣ first) (hsecond : size ∣ second)
    (hle : first ≤ second) (hlt : second < first + size) : first = second := by
  obtain ⟨p, rfl⟩ := hfirst
  obtain ⟨q, rfl⟩ := hsecond
  have hupper : size * q < size * (p + 1) := by
    rw [Nat.mul_succ]
    exact hlt
  have hq := Nat.lt_of_mul_lt_mul_left hupper
  have hp : p ≤ q := by
    by_contra hgt
    have hmono := Nat.mul_le_mul_left size (Nat.succ_le_of_lt (Nat.lt_of_not_le hgt))
    rw [Nat.mul_succ] at hmono
    omega
  rw [Nat.le_antisymm hp (Nat.lt_succ_iff.mp hq)]

theorem buddyOf_buddyOf (frame order : Nat) : buddyOf (buddyOf frame order) order = frame := by
  simp [buddyOf]

/-- Of two buddies one starts where a block of the next order can start, and the other starts in
the middle of that block. -/
theorem buddyOf_eq_or {frame order : Nat} (hdvd : 2 ^ order ∣ frame) :
    (2 ^ (order + 1) ∣ frame ∧ buddyOf frame order = frame + 2 ^ order) ∨
      (2 ^ (order + 1) ∣ buddyOf frame order ∧ frame = buddyOf frame order + 2 ^ order) := by
  obtain ⟨half, rfl⟩ := hdvd
  have hbuddy : buddyOf (2 ^ order * half) order = 2 ^ order * (half ^^^ 1) := by
    have hshift := @Nat.shiftLeft_xor_distrib order half 1
    simp only [Nat.shiftLeft_eq, Nat.one_mul] at hshift
    rw [buddyOf, Nat.mul_comm, ← hshift, Nat.mul_comm]
  rw [hbuddy]
  rcases Nat.even_or_odd half with heven | hodd
  · left
    rw [Nat.xor_one_of_even heven]
    obtain ⟨whole, rfl⟩ := heven
    exact ⟨⟨whole, by ring⟩, by ring⟩
  · right
    rw [Nat.xor_one_of_odd hodd]
    obtain ⟨whole, rfl⟩ := hodd
    rw [Nat.add_sub_cancel]
    exact ⟨⟨whole, by ring⟩, by ring⟩

theorem buddyOf_of_dvd {frame order : Nat} (hdvd : 2 ^ (order + 1) ∣ frame) :
    buddyOf frame order = frame + 2 ^ order := by
  rcases buddyOf_eq_or (dvd_trans (pow_dvd_pow 2 (Nat.le_succ order)) hdvd) with
    ⟨-, heq⟩ | ⟨hbuddy, heq⟩
  · exact heq
  · have hpos := Nat.two_pow_pos order
    have hsame := eq_of_dvd_of_lt hbuddy hdvd (by omega) (by rw [pow_succ]; omega)
    omega

theorem buddyOf_ne (frame order : Nat) : buddyOf frame order ≠ frame := by
  intro heq
  have hpos := Nat.two_pow_pos order
  have hzero : frame ^^^ (frame ^^^ 2 ^ order) = 0 := by
    rw [buddyOf] at heq
    rw [heq, Nat.xor_self]
  rw [← Nat.xor_assoc, Nat.xor_self, Nat.zero_xor] at hzero
  omega

theorem dvd_buddyOf {frame order : Nat} (hdvd : 2 ^ order ∣ frame) :
    2 ^ order ∣ buddyOf frame order := by
  rcases buddyOf_eq_or hdvd with ⟨-, heq⟩ | ⟨hbuddy, -⟩
  · rw [heq]
    exact Nat.dvd_add hdvd (dvd_refl _)
  · exact dvd_trans (pow_dvd_pow 2 (Nat.le_succ order)) hbuddy

/-! ### Pavings -/

namespace FrameBlock

def size (block : FrameBlock) : Nat := 2 ^ block.order

theorem size_pos (block : FrameBlock) : 0 < block.size := Nat.two_pow_pos block.order

/-- The frame is one of the frames of a block. -/
def Covers (block : FrameBlock) (frame : Nat) : Prop :=
  block.start ≤ frame ∧ frame < block.start + block.size

theorem covers_start (block : FrameBlock) : block.Covers block.start :=
  ⟨Nat.le_refl _, Nat.lt_add_of_pos_right block.size_pos⟩

end FrameBlock

structure Paving (count : Nat) (blocks : Set FrameBlock) : Prop where
  order_le : ∀ block ∈ blocks, block.order ≤ topOrder
  size_dvd : ∀ block ∈ blocks, block.size ∣ block.start
  end_le : ∀ block ∈ blocks, block.start + block.size ≤ count
  covered : ∀ frame < count, ∃ block ∈ blocks, block.Covers frame
  unique : ∀ first ∈ blocks, ∀ second ∈ blocks, ∀ frame,
    first.Covers frame → second.Covers frame → first = second

namespace Paving

variable {count : Nat} {blocks : Set FrameBlock} (hpaving : Paving count blocks)

include hpaving

theorem start_lt {block : FrameBlock} (hblock : block ∈ blocks) : block.start < count := by
  have hend := hpaving.end_le block hblock
  have hpos := block.size_pos
  omega

theorem eq_of_start_eq {first second : FrameBlock} (hfirst : first ∈ blocks)
    (hsecond : second ∈ blocks) (heq : first.start = second.start) : first = second :=
  hpaving.unique first hfirst second hsecond first.start first.covers_start
    (heq ▸ second.covers_start)

/-- A block that meets the buddy of another block starts with the buddy and is no larger. -/
theorem start_eq_buddyOf {block other : FrameBlock} (hblock : block ∈ blocks)
    (hother : other ∈ blocks) (hcovers : other.Covers (buddyOf block.start block.order)) :
    other.start = buddyOf block.start block.order ∧ other.order ≤ block.order := by
  have hdvd : 2 ^ block.order ∣ block.start := hpaving.size_dvd block hblock
  have hotherDvd : 2 ^ other.order ∣ other.start := hpaving.size_dvd other hother
  obtain ⟨hle, hlt⟩ := hcovers
  rw [FrameBlock.size] at hlt
  by_cases horder : other.order ≤ block.order
  · refine ⟨eq_of_dvd_of_lt hotherDvd ?_ hle hlt, horder⟩
    exact dvd_trans (pow_dvd_pow 2 horder) (dvd_buddyOf hdvd)
  · exfalso
    have hlarger : 2 ^ (block.order + 1) ∣ other.start :=
      dvd_trans (pow_dvd_pow 2 (Nat.succ_le_of_lt (Nat.lt_of_not_le horder))) hotherDvd
    have hlargerEnd : 2 ^ (block.order + 1) ∣ other.start + 2 ^ other.order :=
      Nat.dvd_add hlarger (pow_dvd_pow 2 (Nat.succ_le_of_lt (Nat.lt_of_not_le horder)))
    -- the larger block contains the pair of buddies, whichever of them comes first
    have hinside : other.Covers block.start := by
      have hpos := Nat.two_pow_pos block.order
      have hsum : 2 ^ (block.order + 1) = 2 ^ block.order + 2 ^ block.order := by ring
      rw [FrameBlock.Covers, FrameBlock.size]
      rcases buddyOf_eq_or hdvd with ⟨hpair, heq⟩ | ⟨hpair, heq⟩
      · refine ⟨?_, by omega⟩
        by_contra hbefore
        have hsame := eq_of_dvd_of_lt hpair hlarger (by omega) (by omega)
        omega
      · refine ⟨by omega, ?_⟩
        by_contra hafter
        have hsame := eq_of_dvd_of_lt hpair hlargerEnd (by omega) (by omega)
        omega
    have hsame := hpaving.unique other hother block hblock block.start hinside block.covers_start
    exact horder (hsame ▸ Nat.le_refl _)

/-- A block can be replaced by blocks that cover the same frames. -/
theorem replace {old new : Set FrameBlock} (hold : old ⊆ blocks)
    (horder : ∀ block ∈ new, block.order ≤ topOrder)
    (hdvd : ∀ block ∈ new, block.size ∣ block.start)
    (hend : ∀ block ∈ new, block.start + block.size ≤ count)
    (hcovers : ∀ frame, (∃ block ∈ old, block.Covers frame) ↔ ∃ block ∈ new, block.Covers frame)
    (hunique : ∀ first ∈ new, ∀ second ∈ new, ∀ frame,
      first.Covers frame → second.Covers frame → first = second) :
    Paving count (blocks \ old ∪ new) where
  order_le := fun block hblock ↦
    hblock.elim (fun hmem ↦ hpaving.order_le block hmem.1) (horder block)
  size_dvd := fun block hblock ↦
    hblock.elim (fun hmem ↦ hpaving.size_dvd block hmem.1) (hdvd block)
  end_le := fun block hblock ↦
    hblock.elim (fun hmem ↦ hpaving.end_le block hmem.1) (hend block)
  covered := fun frame hframe ↦ by
    obtain ⟨block, hblock, hcover⟩ := hpaving.covered frame hframe
    by_cases hmem : block ∈ old
    · obtain ⟨other, hother, hcoverOther⟩ := (hcovers frame).mp ⟨block, hmem, hcover⟩
      exact ⟨other, Or.inr hother, hcoverOther⟩
    · exact ⟨block, Or.inl ⟨hblock, hmem⟩, hcover⟩
  unique := by
    -- a block that was there and covers a frame of a new block is an old one
    have hmixed : ∀ first ∈ blocks \ old, ∀ second ∈ new, ∀ frame,
        first.Covers frame → ¬ second.Covers frame := by
      intro first hfirst second hsecond frame hcoverFirst hcoverSecond
      obtain ⟨other, hother, hcoverOther⟩ := (hcovers frame).mpr ⟨second, hsecond, hcoverSecond⟩
      have hsame := hpaving.unique first hfirst.1 other (hold hother) frame hcoverFirst hcoverOther
      exact hfirst.2 (hsame ▸ hother)
    rintro first (hfirst | hfirst) second (hsecond | hsecond) frame hcoverFirst hcoverSecond
    · exact hpaving.unique first hfirst.1 second hsecond.1 frame hcoverFirst hcoverSecond
    · exact absurd hcoverSecond (hmixed first hfirst second hsecond frame hcoverFirst)
    · exact absurd hcoverFirst (hmixed second hsecond first hfirst frame hcoverSecond)
    · exact hunique first hfirst second hsecond frame hcoverFirst hcoverSecond

end Paving

/-- The two halves of a block. -/
def halves (start order : Nat) : Set FrameBlock := {⟨start, order⟩, ⟨start + 2 ^ order, order⟩}

theorem covers_halves_iff (start order frame : Nat) :
    (∃ block ∈ halves start order, block.Covers frame) ↔
      FrameBlock.Covers ⟨start, order + 1⟩ frame := by
  simp only [halves, Set.mem_insert_iff, Set.mem_singleton_iff, exists_eq_or_imp, exists_eq_left,
    FrameBlock.Covers, FrameBlock.size, pow_succ]
  omega

theorem halves_unique {start order : Nat} {first second : FrameBlock}
    (hfirst : first ∈ halves start order) (hsecond : second ∈ halves start order) {frame : Nat}
    (hcoverFirst : first.Covers frame) (hcoverSecond : second.Covers frame) : first = second := by
  simp only [halves, Set.mem_insert_iff, Set.mem_singleton_iff] at hfirst hsecond
  rcases hfirst with rfl | rfl <;> rcases hsecond with rfl | rfl
  · rfl
  · simp only [FrameBlock.Covers, FrameBlock.size] at hcoverFirst hcoverSecond
    omega
  · simp only [FrameBlock.Covers, FrameBlock.size] at hcoverFirst hcoverSecond
    omega
  · rfl

/-- Two buddies are the halves of the block that starts with the first of them. -/
theorem halves_min {start order : Nat} (hdvd : 2 ^ order ∣ start) :
    2 ^ (order + 1) ∣ min start (buddyOf start order) ∧
      halves (min start (buddyOf start order)) order =
        {⟨start, order⟩, ⟨buddyOf start order, order⟩} := by
  rcases buddyOf_eq_or hdvd with ⟨hpair, heq⟩ | ⟨hpair, heq⟩
  · rw [min_eq_left (by omega), heq]
    exact ⟨hpair, rfl⟩
  · rw [min_eq_right (by omega), halves, ← heq, Set.pair_comm]
    exact ⟨hpair, rfl⟩

namespace Paving

variable {count start order : Nat} {blocks : Set FrameBlock} (hpaving : Paving count blocks)

include hpaving

/-- A block can be split into its halves. -/
theorem split (hblock : ⟨start, order + 1⟩ ∈ blocks) :
    Paving count (blocks \ {⟨start, order + 1⟩} ∪ halves start order) := by
  have horder : order + 1 ≤ topOrder := hpaving.order_le _ hblock
  have hdvd : 2 ^ (order + 1) ∣ start := hpaving.size_dvd _ hblock
  have hend : start + 2 ^ (order + 1) ≤ count := hpaving.end_le _ hblock
  have hhalf : 2 ^ order ∣ start := dvd_trans (pow_dvd_pow 2 (Nat.le_succ order)) hdvd
  rw [pow_succ] at hend
  refine hpaving.replace (Set.singleton_subset_iff.mpr hblock) ?_ ?_ ?_ (fun frame ↦ ?_)
    fun first hfirst second hsecond frame ↦ halves_unique hfirst hsecond
  · rintro block (rfl | rfl) <;> exact (Nat.le_succ order).trans horder
  · rintro block (rfl | rfl)
    · exact hhalf
    · exact Nat.dvd_add hhalf (dvd_refl _)
  · rintro block (rfl | rfl) <;> simp only [FrameBlock.size] <;> omega
  · rw [covers_halves_iff]
    simp only [Set.mem_singleton_iff, exists_eq_left]

/-- The halves of a block can be joined. -/
theorem join (hdvd : 2 ^ (order + 1) ∣ start) (horder : order < topOrder)
    (hhalves : halves start order ⊆ blocks) :
    Paving count (blocks \ halves start order ∪ {⟨start, order + 1⟩}) := by
  have hend : start + 2 ^ order + 2 ^ order ≤ count :=
    hpaving.end_le _ (hhalves (Or.inr rfl : ⟨start + 2 ^ order, order⟩ ∈ halves start order))
  refine hpaving.replace hhalves ?_ ?_ ?_ (fun frame ↦ ?_) ?_
  · rintro block rfl
    exact horder
  · rintro block rfl
    exact hdvd
  · rintro block rfl
    simp only [FrameBlock.size, pow_succ]
    omega
  · rw [covers_halves_iff]
    simp only [Set.mem_singleton_iff, exists_eq_left]
  · rintro first rfl second rfl frame - -
    rfl

/-- The sizes of the blocks add up to the pool. -/
theorem sum_size {list : List FrameBlock} (hlist : ∀ block, block ∈ list ↔ block ∈ blocks)
    (hnodup : list.Nodup) : (list.map FrameBlock.size).sum = count := by
  have hunion : list.toFinset.biUnion (fun block ↦
      Finset.Ico block.start (block.start + block.size)) = Finset.range count := by
    ext frame
    simp only [Finset.mem_biUnion, List.mem_toFinset, Finset.mem_Ico, Finset.mem_range]
    constructor
    · rintro ⟨block, hblock, -, hlt⟩
      exact hlt.trans_le (hpaving.end_le block ((hlist block).mp hblock))
    · intro hframe
      obtain ⟨block, hblock, hcover⟩ := hpaving.covered frame hframe
      exact ⟨block, (hlist block).mpr hblock, hcover⟩
  have hdisjoint : ∀ first ∈ list.toFinset, ∀ second ∈ list.toFinset, first ≠ second →
      Disjoint (Finset.Ico first.start (first.start + first.size))
        (Finset.Ico second.start (second.start + second.size)) := by
    intro first hfirst second hsecond hne
    rw [List.mem_toFinset, hlist] at hfirst hsecond
    rw [Finset.disjoint_left]
    intro frame hframeFirst hframeSecond
    rw [Finset.mem_Ico] at hframeFirst hframeSecond
    exact hne (hpaving.unique first hfirst second hsecond frame hframeFirst hframeSecond)
  have hcard := congrArg Finset.card hunion
  rw [Finset.card_biUnion hdisjoint, Finset.card_range] at hcard
  rw [← List.sum_toFinset _ hnodup, ← hcard]
  refine Finset.sum_congr rfl fun block _ ↦ ?_
  rw [Nat.card_Ico, Nat.add_sub_cancel_left]

end Paving

end KernelMemory
