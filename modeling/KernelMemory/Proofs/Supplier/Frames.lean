import KernelMemory.Proofs.Contract
import KernelMemory.Proofs.Frames.Addresses
import KernelMemory.Proofs.Frames.Pool
import KernelMemory.Proofs.Word
import KernelMemory.Supplier.Frames

/-!
# Regions and blocks of frames

A supplier that is backed by frames hands out the regions of blocks (`FrameBlock.region`). The
regions that are out are those of blocks that the pool has lent, beside the blocks that others hold
(`FrameSupplier.Backs`). This is a contract of its own: the others may be lent any blocks, and the
log need not tell of them.
-/

set_option autoImplicit false
set_option relaxedAutoImplicit false

namespace KernelMemory

-- No sum or product of addresses is to be computed while an act is looked at step by step.
attribute [local irreducible] Word.add Word.mul

/-! ### The region of a block -/

namespace FrameBlock

/-- The bytes of a block in a pool at an address, seen at an offset. -/
def region (base offset : Nat) (block : FrameBlock) : Region where
  base := base + block.start * frameSize + offset
  size := block.bytes

theorem region_injective (base offset : Nat) : Function.Injective (region base offset) := by
  rintro ⟨start, order⟩ ⟨otherStart, otherOrder⟩ heq
  simp only [region, bytes, size, frameSize, Region.mk.injEq] at heq
  obtain ⟨hbase, hsize⟩ := heq
  have hstart : start = otherStart := by omega
  have hpower : 2 ^ order = 2 ^ otherOrder := by omega
  rw [hstart, Nat.pow_right_injective (Nat.le_refl 2) hpower]

/-- Blocks without a common frame have no common bytes. -/
theorem region_disjoint {first second : FrameBlock}
    (happart : ∀ frame, first.Covers frame → ¬ second.Covers frame) (base offset : Nat) :
    Disjoint (Set.Ico (first.region base offset).base
        ((first.region base offset).base + (first.region base offset).size))
      (Set.Ico (second.region base offset).base
        ((second.region base offset).base + (second.region base offset).size)) := by
  have hfirst : ¬ second.Covers first.start := happart first.start first.covers_start
  have hsecond : ¬ first.Covers second.start := fun hcovers ↦
    happart second.start hcovers second.covers_start
  simp only [Covers] at hfirst hsecond
  rw [Set.Ico_disjoint_Ico]
  simp only [region, bytes, frameSize]
  omega

end FrameBlock

/-! ### Addresses -/

namespace FrameAllocator

variable {frames : FrameAllocator} {frame address offset : Nat}

/-- A frame is seen at its address plus the offset and nowhere else. -/
theorem bind_frameAt?_eq_some_iff : (Word.sub? address offset).bind frames.frameAt? = some frame ↔
    address = frames.base + frame * frameSize + offset ∧ frame < frames.frameCount := by
  unfold Word.sub?
  split_ifs with hoffset
  · rw [Option.bind_some, frameAt?_eq_some_iff]
    omega
  · rw [Option.bind_none]
    exact iff_of_false (by simp) (by omega)

end FrameAllocator

namespace FrameSupplier

variable {base count : Nat} {blocks : List FrameBlock}

/-! ### Supply -/

theorem eq_of_sizeOfOrder_eq_ok {order size : Nat} (hsize : sizeOfOrder order = .ok size) :
    size = 2 ^ order * frameSize := by
  obtain ⟨power, hpower, hproduct⟩ := bind_eq_ok_iff.mp hsize
  rw [Word.eq_of_mul_eq_ok hproduct, Word.eq_of_power_eq_ok hpower]

/-- What is supplied is the region of a block that is lent then. -/
theorem ensures_supply {terms : Terms} (hforgives : ∀ fault, terms.Forgives fault)
    (supplier : FrameSupplier) (size : Nat) :
    Act.Ensures terms (fun frames _ ↦ frames.Lends base count blocks) (supplier.supply size)
      fun answer frames _ ↦ match answer with
        | .ok region => ∃ block : FrameBlock, region = block.region base supplier.offset ∧
            frames.Lends base count (block :: blocks)
        | .error _ => frames.Lends base count blocks := by
  unfold supply
  refine (Act.gives_lift fun _ _ fault _ _ ↦ hforgives fault).bind fun order ↦
    Act.ensures_of_fact fun _ ↦ ?_
  split
  · exact Act.ensures_throw_bind fun _ _ hlends ↦ hlends
  refine (FramePool.ensures_allocate order).bind (fun frame ↦ ?_) fun _ _ _ hlends ↦ hlends
  refine Act.gives_get.bind fun read ↦ ?_
  refine (Act.gives_lift fun _ _ fault _ _ ↦ hforgives fault).bind fun address ↦
    Act.ensures_of_fact fun haddress ↦ ?_
  refine (Act.gives_lift fun _ _ fault _ _ ↦ hforgives fault).bind fun sum ↦
    Act.ensures_of_fact fun hsum ↦ ?_
  refine (Act.gives_lift fun _ _ fault _ _ ↦ hforgives fault).bind fun bytes ↦
    Act.ensures_of_fact fun hbytes ↦ ?_
  refine (Act.gives_pure _).ensures fun region frames log hpre ↦ ?_
  obtain ⟨rfl, rfl, hlends⟩ := hpre
  refine ⟨⟨frame, order⟩, ?_, hlends⟩
  rw [Word.eq_of_add_eq_ok hsum, FrameAllocator.eq_of_addressOf_eq_ok haddress,
    eq_of_sizeOfOrder_eq_ok hbytes, hlends.base_eq]
  rfl

/-! ### Release -/

/-- The frame of a region is found again. -/
theorem frameAt?_region {frames : FrameAllocator} (hlends : frames.Lends base count blocks)
    {block : FrameBlock} (hblock : block ∈ blocks) (offset : Nat) :
    (Word.sub? (block.region base offset).base offset).bind frames.frameAt? = some block.start := by
  rw [FrameAllocator.bind_frameAt?_eq_some_iff, hlends.base_eq, hlends.count_eq]
  exact ⟨rfl, hlends.start_lt hblock⟩

/-- The region of a block that is lent can be released. -/
theorem gives_release {terms : Terms} (supplier : FrameSupplier) (block : FrameBlock) :
    Act.Gives terms (fun frames _ ↦ frames.Lends base count (block :: blocks))
      (supplier.release (block.region base supplier.offset).base)
      fun _ frames _ ↦ frames.Lends base count blocks := by
  unfold release
  refine Act.gives_get.bind fun read ↦ ?_
  intro frames log hpre
  obtain ⟨rfl, hlends⟩ := hpre
  rw [frameAt?_region hlends List.mem_cons_self]
  refine (FramePool.gives_free.settle.bind fun settled ↦ ?_) read log hlends
  cases settled with
  | ok value =>
    refine (Act.gives_pure ()).ensures fun value frames log hpre ↦ ?_
    obtain ⟨-, _, -, hafter⟩ := hpre
    exact ⟨value, rfl, hafter⟩
  | error error =>
    intro frames log hpre
    obtain ⟨value, heq, -⟩ := hpre
    cases heq

/-! ### The contract -/

/-- The regions that are out are those of blocks, and the pool has lent these beside what others
hold. -/
def Backs (base count offset : Nat) (held : List FrameBlock)
    (state : FrameSupplier × FrameAllocator) (out : List Region) : Prop :=
  state.1.offset = offset ∧ ∃ blocks, out = blocks.map (FrameBlock.region base offset) ∧
    state.2.Lends base count (blocks ++ held)

namespace Backs

variable {offset : Nat} {held : List FrameBlock} {state after : FrameSupplier × FrameAllocator}
  {out : List Region} {region : Region} {events : List Event}

theorem supply (hbacks : Backs base count offset held state out) (size : Nat)
    (answer : Except AllocError Region) :
    PageSupplier.supply size state = ⟨.ok answer, after, events⟩ → match answer with
      | .ok region => Backs base count offset held after (region :: out)
      | .error _ => Backs base count offset held after out := by
  intro hrun
  obtain ⟨rfl, blocks, rfl, hlends⟩ := hbacks
  obtain ⟨hanswer, rfl, -⟩ := Outcome.mk.inj hrun
  have hsupply := Act.Ensures.of_any (ensures_supply (fun _ ↦ trivial) state.1 size)
    (Outcome.eq_of_answer hanswer rfl) hlends
  cases answer with
  | error error => exact ⟨rfl, blocks, rfl, hsupply⟩
  | ok region =>
    obtain ⟨block, rfl, hafter⟩ := hsupply
    exact ⟨rfl, block :: blocks, rfl, hafter⟩

theorem release (hbacks : Backs base count offset held state out) (hregion : region ∈ out)
    {answer : Except AllocError Unit}
    (hrun : PageSupplier.release region.base state = ⟨.ok answer, after, events⟩) :
    Backs base count offset held after (out.eraseP fun other ↦ other.base == region.base) := by
  obtain ⟨rfl, blocks, rfl, hlends⟩ := hbacks
  obtain ⟨block, hblock, hsame⟩ := List.mem_map.mp hregion
  obtain ⟨first, hfirst, hperm⟩ := exists_perm_eraseP
    ((·.base == region.base) ∘ FrameBlock.region base state.1.offset) hblock
    (by rw [Function.comp_apply, hsame, beq_self_eq_true])
  rw [Function.comp_apply, beq_iff_eq] at hfirst
  obtain ⟨hanswer, rfl, -⟩ := Outcome.mk.inj hrun
  rw [← hfirst] at hanswer hperm ⊢
  rw [List.eraseP_map]
  obtain ⟨_, -, hafter⟩ := Act.Gives.of_any (gives_release state.1 first)
    (Outcome.eq_of_answer hanswer rfl) (hlends.perm (hperm.append_right held))
  exact ⟨rfl, _, rfl, hafter⟩

/-- The regions of blocks that are lent at one time share no byte. -/
theorem disjointFrom (hbacks : Backs base count offset held state (region :: out)) :
    region.DisjointFrom out := by
  obtain ⟨rfl, blocks, hout, hlends⟩ := hbacks
  obtain ⟨block, rest, rfl, rfl, rfl⟩ := List.map_eq_cons_iff.mp hout.symm
  intro other hother
  obtain ⟨otherBlock, hmem, rfl⟩ := List.mem_map.mp hother
  refine FrameBlock.region_disjoint (fun frame hcovers hcoversOther ↦ ?_) base state.1.offset
  have hsame := hlends.eq_of_covers List.mem_cons_self
    (List.mem_cons_of_mem _ (List.mem_append_left held hmem)) hcovers hcoversOther
  exact (List.nodup_cons.mp hlends.nodup).1 (hsame ▸ List.mem_append_left held hmem)

end Backs

end FrameSupplier

/-- The regions are those of blocks that the pool has lent beside the blocks that are held by
others. -/
def Contract.ofFrames (base count offset : Nat) (held : List FrameBlock) :
    Contract FrameSupplier FrameAllocator where
  terms := .any
  Holds := FrameSupplier.Backs base count offset held
  upholds := ⟨fun size _ _ _ answer _ _ hbacks ↦ hbacks.supply size answer,
    fun _ _ _ _ _ _ hbacks hregion hrun ↦ hbacks.release hregion hrun⟩
  forgives := fun _ _ ↦ trivial
  disjoint := fun _ _ _ _ _ hbacks ↦ hbacks.disjointFrom
  end_lt := fun _ _ _ _ _ _ ↦ Or.inr trivial

end KernelMemory
