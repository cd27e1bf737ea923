import KernelMemory.Proofs.Supplier.Inverse

/-!
# The order for every size

Every size has a least order whose blocks have room for it, and it is found for every size but those
in the last frame of the words: there the size is rounded up to whole frames beyond the last word
(`orderForSize_eq_ite`). A size above that of the largest block has an order that no pool hands out,
so it is refused by every pool, and nothing changes (`FrameSupplier.rounds_to_least_order`).
-/

set_option autoImplicit false
set_option relaxedAutoImplicit false

namespace KernelMemory

variable {size order : Nat}

/-- A size within a frame of the last word cannot be rounded up to whole frames. -/
theorem orderForSize_of_le (hsize : Word.limit ≤ size + frameSize) :
    orderForSize size = .error .addOverflow := by
  have hadd : Word.add (max size 1) frameSize = .error .addOverflow :=
    if_neg fun hfits ↦ by
      have hle := Nat.le_max_left size 1
      omega
  rw [orderForSize, hadd]
  rfl

/-- The order is the least one with room, and a fault takes its place just where that is not
found. -/
theorem orderForSize_eq_ite (hleast : IsLeast {order | size ≤ 2 ^ order * frameSize} order) :
    orderForSize size =
      if size + frameSize < Word.limit then .ok order else .error .addOverflow := by
  split_ifs with hfits
  · obtain ⟨found, hfound, hroom⟩ := orderForSize_eq hfits
    rw [hfound, hroom.unique hleast]
  · exact orderForSize_of_le (Nat.le_of_not_lt hfits)

/-- No block has room for a size just if the largest one has not. -/
theorem orderCount_le_iff (hleast : IsLeast {order | size ≤ 2 ^ order * frameSize} order) :
    orderCount ≤ order ↔ 2 ^ topOrder * frameSize < size := by
  have hroom : order ≤ topOrder ↔ size ≤ 2 ^ topOrder * frameSize := by
    refine ⟨fun hle ↦ ?_, fun hle ↦ hleast.2 hle⟩
    exact le_trans hleast.1 (Nat.mul_le_mul_right _ (Nat.pow_le_pow_right (by decide) hle))
  have hcount : orderCount = topOrder + 1 := rfl
  omega

namespace FrameSupplier

variable {supplier : FrameSupplier} {frames : FrameAllocator}

theorem supply_run_of_fault {fault : Fault} (hsize : orderForSize size = .error fault) :
    supplier.supply size frames = ⟨.error fault, frames, []⟩ := by
  unfold supply
  rw [hsize]
  exact Act.bind_run_of_fault (Act.liftM_checked_run_of_fault rfl frames) _

/-- Every size has a least order whose blocks have room for it, beyond the last order just if the
size is above that of the largest block. It is found unless rounding the size up to whole frames
leaves the words. A size above that of the largest block is refused by every pool, which stays as it
is, or faults where its order is not found. -/
theorem rounds_to_least_order (supplier : FrameSupplier) (frames : FrameAllocator) (size : Nat) :
    ∃ order, IsLeast {order | size ≤ 2 ^ order * frameSize} order ∧
      (orderCount ≤ order ↔ 2 ^ topOrder * frameSize < size) ∧
      orderForSize size =
        (if size + frameSize < Word.limit then .ok order else .error .addOverflow) ∧
      (2 ^ topOrder * frameSize < size → supplier.supply size frames =
        ⟨if size + frameSize < Word.limit then .ok (.error .orderTooLarge)
          else .error .addOverflow, frames, []⟩) := by
  have hleast := isLeast_ceilLog2_frames size
  have horder := orderForSize_eq_ite hleast
  refine ⟨_, hleast, orderCount_le_iff hleast, horder, fun hlarge ↦ ?_⟩
  split_ifs at horder ⊢
  · exact supply_run_of_refused horder
      (FrameAllocator.allocate_of_le ((orderCount_le_iff hleast).mpr hlarge))
  · exact supply_run_of_fault horder

/-- One byte more than the largest block has is refused by a pool that has just that block. -/
theorem rounds_to_least_order_of_one_more : ∃ frames, FrameAllocator.ofFrames 0 1024 = .ok frames ∧
    orderForSize (2 ^ 22) = .ok 10 ∧ orderForSize (2 ^ 22 + 1) = .ok 11 ∧
    (FrameSupplier.mk 4096).supply (2 ^ 22 + 1) frames =
      ⟨.ok (.error .orderTooLarge), frames, []⟩ := by
  obtain ⟨frames, lists, hframes, -⟩ := FrameAllocator.ofFrames_partitioned 0 1024
  obtain ⟨_, -, -, -, hrefused⟩ := rounds_to_least_order ⟨4096⟩ frames (2 ^ 22 + 1)
  exact ⟨frames, hframes, by decide +kernel, by decide +kernel, hrefused (by decide)⟩

/-- The last word has a least order like all others, but a supplier that is asked for so many bytes
faults in place of a refusal. -/
theorem addOverflow_of_orderForSize : ∃ frames, FrameAllocator.ofFrames 0 4 = .ok frames ∧
    2 ^ 64 - 1 < Word.limit ∧ IsLeast {order | 2 ^ 64 - 1 ≤ 2 ^ order * frameSize} 52 ∧
    orderForSize (2 ^ 64 - 1) = .error .addOverflow ∧
    ((FrameSupplier.mk 4096).supply (2 ^ 64 - 1) frames).answer = .error .addOverflow := by
  obtain ⟨frames, lists, hframes, -⟩ := FrameAllocator.ofFrames_partitioned 0 4
  have hfault : orderForSize (2 ^ 64 - 1) = .error .addOverflow := orderForSize_of_le (by decide)
  have hleast := isLeast_ceilLog2_frames (2 ^ 64 - 1)
  rw [show Word.ceilLog2 ((max (2 ^ 64 - 1) 1 + frameSize - 1) / frameSize) = 52 by
    decide +kernel] at hleast
  refine ⟨frames, hframes, by decide, hleast, hfault, ?_⟩
  rw [supply_run_of_fault hfault]

end FrameSupplier

end KernelMemory
