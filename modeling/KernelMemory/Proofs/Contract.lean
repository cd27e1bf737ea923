import KernelMemory.Heap.SizeClass
import KernelMemory.Proofs.Act
import KernelMemory.Supplier.Basic

/-!
# Contracts with suppliers

What can be counted on with a supplier is a contract (`Contract`): something that holds of the
supplier beside the regions it has out, which every call upholds, and which together with the log
tells that a region lies apart from the others. It is all that is known of a supplier. With
`Contract.orderly` that is only what the log shows.
-/

set_option autoImplicit false
set_option relaxedAutoImplicit false

namespace KernelMemory

namespace PageSupplier

variable {κ ω : Type} [PageSupplier κ ω]

/-! ### Calls as an observer sees them -/

section Calls

variable {state after : κ × ω} {size base : Nat} {region : Region} {error : AllocError}
  {fault : Fault} {answer : Except AllocError Unit} {events : List Event}

theorem request_of_region (hrun : supply size state = ⟨.ok (.ok region), after, events⟩) :
    request size state = ⟨.ok (.ok region), after, events ++ [.supplied size region]⟩ := by
  unfold request
  rw [Act.bind_run_of_value (Act.settle_run hrun)]
  rfl

theorem request_of_refused (hrun : supply size state = ⟨.ok (.error error), after, events⟩) :
    request size state = ⟨.ok (.error error), after, events ++ [.refused size error]⟩ := by
  unfold request
  rw [Act.bind_run_of_value (Act.settle_run hrun)]
  rfl

theorem request_of_fault (hrun : supply size state = ⟨.error fault, after, events⟩) :
    request size state = ⟨.error fault, after, events⟩ := by
  unfold request
  rw [Act.bind_run_of_fault (Act.settle_run_of_fault hrun)]

/-- Whether the supplier refuses to take a region back does not count. -/
theorem giveBack_of_answer (hrun : release base state = ⟨.ok answer, after, events⟩) :
    giveBack base state = ⟨.ok (.ok ()), after, events ++ [.released base]⟩ := by
  unfold giveBack
  rw [Act.bind_run_of_value (Act.settle_run hrun)]
  rfl

theorem giveBack_of_fault (hrun : release base state = ⟨.error fault, after, events⟩) :
    giveBack base state = ⟨.error fault, after, events⟩ := by
  unfold giveBack
  rw [Act.bind_run_of_fault (Act.settle_run_of_fault hrun)]

end Calls

/-! ### What suppliers uphold -/

/-- A call of the supplier comes to the fault where all is good. -/
def Causes (good : κ × ω → List Region → Prop) (fault : Fault) : Prop :=
  ∃ state out, good state out ∧
    ((∃ size ≤ maxBlockSize, (supply size state).answer = .error fault) ∨
      ∃ region ∈ out, (release region.base state).answer = .error fault)

/-- What is good of a supplier and the regions it has out stays so with every answer. -/
structure Upholds (good : κ × ω → List Region → Prop) : Prop where
  supply : ∀ size ≤ maxBlockSize, ∀ state out answer after events, good state out →
    supply size state = ⟨.ok answer, after, events⟩ → match answer with
      | .ok region => good after (region :: out)
      | .error _ => good after out
  release : ∀ region state out answer after events, good state out → region ∈ out →
    release region.base state = ⟨.ok answer, after, events⟩ →
      good after (out.eraseP fun other ↦ other.base == region.base)

/-- No fault comes of giving one of the regions back. -/
def TakesBack (state : κ × ω) (out : List Region) : Prop :=
  ∀ region ∈ out, ∃ answer, (release region.base state).answer = .ok answer

end PageSupplier

/-- What holds of a supplier and the regions that are out. It is asked for no more than the largest
block, and takes back what is out. -/
structure Contract (κ ω : Type) [PageSupplier κ ω] where
  terms : Terms
  Holds : κ × ω → List Region → Prop
  upholds : PageSupplier.Upholds Holds
  forgives : ∀ fault, PageSupplier.Causes Holds fault → terms.Forgives fault
  disjoint : ∀ log size region state, terms.Admits (log ++ [.supplied size region]) →
    Holds state (region :: outstanding log) → region.DisjointFrom (outstanding log)
  end_lt : ∀ log size region state, terms.Admits (log ++ [.supplied size region]) →
    Holds state (region :: outstanding log) →
    region.base + region.size < Word.limit ∨ terms.Forgives .addOverflow

namespace Contract

variable {κ ω : Type} [PageSupplier κ ω]

/-- The suppliers keep order, and may fault. -/
def orderly : Contract κ ω where
  terms := ⟨Orderly, fun _ ↦ True, Orderly.of_append⟩
  Holds := fun _ _ ↦ True
  upholds := ⟨fun _ _ _ _ _ _ _ _ _ ↦ by split <;> trivial, fun _ _ _ _ _ _ _ _ _ ↦ trivial⟩
  forgives := fun _ _ ↦ trivial
  disjoint := fun _ _ _ _ horderly _ ↦ horderly.fits.disjoint
  end_lt := fun _ _ _ _ _ _ ↦ Or.inr trivial

variable (contract : Contract κ ω)

/-- The same contract, where fewer logs count. -/
def restrict (Admits : List Event → Prop)
    (hclosed : ∀ {log events : List Event}, Admits (log ++ events) → Admits log) :
    Contract κ ω where
  terms := ⟨fun log ↦ contract.terms.Admits log ∧ Admits log, contract.terms.Forgives,
    fun hboth ↦ ⟨contract.terms.admits_of_append hboth.1, hclosed hboth.2⟩⟩
  Holds := contract.Holds
  upholds := contract.upholds
  forgives := contract.forgives
  disjoint := fun log size region state hboth ↦ contract.disjoint log size region state hboth.1
  end_lt := fun log size region state hboth ↦ contract.end_lt log size region state hboth.1

/-- The contract holds with the regions that are out after the log, and what went back was out. -/
structure Stands (out : List Region) (state : κ × ω) (log : List Event) : Prop where
  holds : contract.Holds state out
  out_eq : outstanding log = out
  balanced : Balanced log

variable {contract} {out : List Region}

theorem Stands.quiet {state : κ × ω} {log events : List Event}
    (hstands : contract.Stands out state log)
    (hquiet : ∀ event ∈ events, ∃ notice, event = .noted notice) :
    contract.Stands out state (log ++ events) where
  holds := hstands.holds
  out_eq := (outstanding_quiet hquiet).trans hstands.out_eq
  balanced := hstands.balanced.quiet hquiet

theorem Stands.note {state : κ × ω} {log : List Event} (hstands : contract.Stands out state log)
    (notice : Notice) : contract.Stands out state (log ++ [.noted notice]) :=
  hstands.quiet fun _ hevent ↦ ⟨notice, List.mem_singleton.mp hevent⟩

/-- A region that is handed out lies apart from the ones that are out, and is out then. -/
theorem ensures_request {size : Nat} (hsize : size ≤ maxBlockSize) :
    Act.Ensures contract.terms (contract.Stands out) (PageSupplier.request size)
      fun answer state log ↦ match answer with
        | .ok region => (region.DisjointFrom out ∧
            (region.base + region.size < Word.limit ∨ contract.terms.Forgives .addOverflow)) ∧
            .supplied size region ∈ log ∧ contract.Stands (region :: out) state log
        | .error _ => contract.Stands out state log := by
  intro state log hstands hadmits
  have hquiet := PageSupplier.supply_quiet size state
  rcases hrun : PageSupplier.supply size state with ⟨fault | error | region, after, events⟩
  · rw [PageSupplier.request_of_fault hrun]
    exact contract.forgives fault ⟨state, out, hstands.holds, Or.inl ⟨size, hsize, by rw [hrun]⟩⟩
  · have hsupply : contract.Holds after out :=
      contract.upholds.supply size hsize state out _ after events hstands.holds hrun
    rw [hrun] at hquiet
    rw [PageSupplier.request_of_refused hrun]
    have hquietStands := Stands.quiet ⟨hsupply, hstands.out_eq, hstands.balanced⟩ hquiet
    refine ⟨hsupply, ?_, ?_⟩
    · show outstanding (log ++ (events ++ [.refused size error])) = out
      rw [← List.append_assoc, outstanding_snoc, hquietStands.out_eq]
      rfl
    · show Balanced (log ++ (events ++ [.refused size error]))
      rw [← List.append_assoc]
      exact hquietStands.balanced.snoc fun base heq ↦ absurd heq (by simp)
  · have hsupply : contract.Holds after (region :: out) :=
      contract.upholds.supply size hsize state out _ after events hstands.holds hrun
    rw [hrun] at hquiet
    rw [PageSupplier.request_of_region hrun] at hadmits ⊢
    have hadmitsRegion : contract.terms.Admits ((log ++ events) ++ [.supplied size region]) := by
      rw [List.append_assoc]
      exact hadmits
    have hout : outstanding (log ++ events) = out := (outstanding_quiet hquiet).trans hstands.out_eq
    have hholds : contract.Holds after (region :: outstanding (log ++ events)) :=
      hout.symm ▸ hsupply
    refine ⟨⟨hout ▸ contract.disjoint _ size region after hadmitsRegion hholds,
      contract.end_lt _ size region after hadmitsRegion hholds⟩, ?_, hsupply, ?_, ?_⟩
    · exact List.mem_append_right _ (List.mem_append_right _ (List.mem_singleton_self _))
    · show outstanding (log ++ (events ++ [.supplied size region])) = region :: out
      rw [← List.append_assoc, outstanding_snoc, hout]
      rfl
    · show Balanced (log ++ (events ++ [.supplied size region]))
      rw [← List.append_assoc]
      exact (hstands.balanced.quiet hquiet).snoc fun base heq ↦ absurd heq (by simp)

/-- A region that is out can be given back, and is out no longer then. -/
theorem gives_giveBack {region : Region} (hregion : region ∈ out) :
    Act.Gives contract.terms (contract.Stands out) (PageSupplier.giveBack region.base)
      fun _ ↦ contract.Stands (out.eraseP fun other ↦ other.base == region.base) := by
  intro state log hstands hadmits
  have hquiet := PageSupplier.release_quiet region.base state
  rcases hrun : PageSupplier.release region.base state with ⟨fault | answer, after, events⟩
  · rw [PageSupplier.giveBack_of_fault hrun]
    exact contract.forgives fault
      ⟨state, out, hstands.holds, Or.inr ⟨region, hregion, by rw [hrun]⟩⟩
  · have hrelease :=
      contract.upholds.release region state out answer after events hstands.holds hregion hrun
    rw [hrun] at hquiet
    rw [PageSupplier.giveBack_of_answer hrun]
    have hout : outstanding (log ++ events) = out := (outstanding_quiet hquiet).trans hstands.out_eq
    refine ⟨(), rfl, hrelease, ?_, ?_⟩
    · show outstanding (log ++ (events ++ [.released region.base])) = _
      rw [← List.append_assoc, outstanding_snoc, hout]
      rfl
    · show Balanced (log ++ (events ++ [.released region.base]))
      rw [← List.append_assoc]
      refine (hstands.balanced.quiet hquiet).snoc fun base heq ↦ ?_
      obtain rfl : region.base = base := by simpa using heq
      exact ⟨region, hout.symm ▸ hregion, rfl⟩

end Contract

end KernelMemory
