import KernelMemory.Proofs.Heap.Runs

/-!
# No faults

Nothing that a heap relies on fails, whatever it is called with and whatever was written to memory:
no sum, difference or shift leaves the range of a word, no index misses its record, and no check of
a cut, a join or a list fails. A call that faults does so because its supplier does
(`HeapRun.faults_only_by_supplier`).
-/

set_option autoImplicit false
set_option relaxedAutoImplicit false

namespace KernelMemory

variable {κ ω : Type} [PageSupplier κ ω] {good : κ × ω → List Region → Prop}

/-- The suppliers keep order, and no faults but theirs are forgiven. -/
def Contract.upheld (hgood : PageSupplier.Upholds good) : Contract κ ω where
  terms := ⟨Orderly, PageSupplier.Causes good, Orderly.of_append⟩
  Holds := good
  upholds := hgood
  forgives := fun _ hcauses ↦ hcauses
  disjoint := fun _ _ _ _ horderly _ ↦ horderly.fits.disjoint
  end_lt := fun _ _ _ _ horderly _ ↦ Or.inl horderly.fits.end_lt

namespace HeapState

/-- A call faults only if the supplier does, and after an answer all is good as before. -/
structure EndsWell {α : Type} (good : κ × ω → List Region → Prop) (log : List Event)
    (outcome : Outcome (HeapState κ ω) α) : Prop where
  causes : ∀ fault, outcome.answer = .error fault → PageSupplier.Causes good fault
  holds : ∀ answer, outcome.answer = .ok answer →
    good (outcome.state.heap.supplier, outcome.state.world) (outstanding (log ++ outcome.events))

theorem endsWell_of_meets {α : Type} {hgood : PageSupplier.Upholds good}
    {post : Except AllocError α → HeapState κ ω → List Event → Prop} {log : List Event}
    {outcome : Outcome (HeapState κ ω) α}
    (hmeets : Act.Meets (Contract.upheld hgood).terms post log outcome)
    (hpost : ∀ answer state log, post answer state log → ∃ config used,
      Heap.KeepsUnder (.upheld hgood) config used (state.heap, state.world) log) :
    EndsWell good log outcome := by
  rcases outcome with ⟨fault | answer, state, events⟩
  · refine ⟨fun other heq ↦ ?_, fun answer heq ↦ ?_⟩
    · cases heq
      exact hmeets
    · cases heq
  · obtain ⟨config, used, hkeeps⟩ := hpost answer state _ hmeets
    refine ⟨fun fault heq ↦ ?_, fun _ _ ↦ hkeeps.holds⟩
    cases heq

/-- What does not fault comes to an answer. -/
theorem exists_answer {α : Type} {answer : Except Fault α}
    (hnone : ∀ fault, answer = .error fault → False) : ∃ value, answer = .ok value := by
  cases answer with
  | error fault => exact (hnone fault rfl).elim
  | ok value => exact ⟨value, rfl⟩

theorem EndsWell.exists_answer {α : Type} {log : List Event} {outcome : Outcome (HeapState κ ω) α}
    (hends : EndsWell good log outcome) (hnone : ∀ fault, ¬ PageSupplier.Causes good fault) :
    ∃ answer, outcome.answer = .ok answer :=
  HeapState.exists_answer fun fault hfault ↦ hnone fault (hends.causes fault hfault)

omit [PageSupplier κ ω] in
/-- To ask for the usable size calls no supplier. -/
theorem quiet_usableSize (pointer : Nat) : (usableSize (κ := κ) (ω := ω) pointer).Quiet := by
  unfold usableSize locate
  refine Act.Quiet.bind (Act.quiet_get.bind fun read ↦ ?_) fun block ↦
    Act.quiet_get.bind fun read ↦ (Act.quiet_of_events_nil fun state ↦ ?_).bind fun record ↦
      Act.quiet_of_events_nil fun state ↦ ?_
  · split
    · exact Act.quiet_pure _
    · exact (Act.quiet_note _).bind fun _ ↦ Act.quiet_throw _
  · rfl
  · rfl

/-! ### Single calls -/

section Calls

variable {hgood : PageSupplier.Upholds good} {config : HeapConfig} {used : Set UsedBlock}
  {state : HeapState κ ω} {log : List Event}
  (hkeeps : Heap.KeepsUnder (.upheld hgood) config used (state.heap, state.world) log)

include hkeeps

theorem endsWell_allocateAligned {size : Nat} (hsize : size ≤ 2 ^ 63) (align : Nat)
    (horderly : Orderly (log ++ (allocateAligned size align state).events)) :
    EndsWell good log (allocateAligned size align state) := by
  refine endsWell_of_meets (ensures_allocateAligned align (Or.inl hsize) state log ⟨rfl, hkeeps⟩
    horderly) fun answer after log hpost ↦ ?_
  cases answer with
  | error error => exact ⟨config, used, hpost.2⟩
  | ok pointer =>
    obtain ⟨⟨block, -, -, -, hafter⟩, -⟩ := hpost
    exact ⟨config, _, hafter.2⟩

theorem endsWell_deallocate (pointer : Nat)
    (horderly : Orderly (log ++ (deallocate pointer state).events)) :
    EndsWell good log (deallocate pointer state) := by
  refine endsWell_of_meets (ensures_deallocate pointer state log ⟨rfl, hkeeps⟩ horderly)
    fun answer after log hpost ↦ ?_
  cases answer with
  | error error => exact ⟨config, used, hpost.2⟩
  | ok value =>
    rcases hpost with ⟨-, hafter⟩ | ⟨block, -, -, -, hafter⟩
    · exact ⟨config, used, hafter.2⟩
    · exact ⟨config, _, hafter.2⟩

theorem endsWell_usableSize (pointer : Nat) (horderly : Orderly log) :
    EndsWell good log (usableSize pointer state) := by
  have hmore : Orderly (log ++ (usableSize pointer state).events) := by
    refine horderly.append fun event hevent ↦ ?_
    obtain ⟨notice, rfl⟩ := quiet_usableSize pointer state event hevent
    rfl
  exact endsWell_of_meets (ensures_usableSize pointer state log ⟨rfl, hkeeps⟩ hmore)
    fun answer after log hpost ↦ ⟨config, used, hpost.2⟩

end Calls

end HeapState

namespace HeapRun

/-- From a valid configuration on and after any run no call faults unless the supplier does: neither
the making of a heap nor its end, and no call in between with any pointer, any alignment and any
size up to half the range of a word. -/
theorem faults_only_by_supplier (hgood : PageSupplier.Upholds good) :
    (∀ (supplier : κ) config (world : ω), config.validate = .ok (.ok ()) →
      good (supplier, world) [] → Orderly (Heap.create supplier config world).events →
      (∀ fault, (Heap.create supplier config world).answer = .error fault →
        PageSupplier.Causes good fault) ∧
      ∀ heap, (Heap.create supplier config world).answer = .ok (.ok heap) →
        good (heap.supplier, (Heap.create supplier config world).state)
          (outstanding (Heap.create supplier config world).events)) ∧
    ∀ (state : HeapState κ ω) deeds log, HeapRun AnyWrite state deeds log → Orderly log →
      good (state.heap.supplier, state.world) (outstanding log) →
      (∀ size, size ≤ 2 ^ 63 → Orderly (log ++ (HeapState.allocate size state).events) →
        HeapState.EndsWell good log (HeapState.allocate size state)) ∧
      (∀ size align, size ≤ 2 ^ 63 →
        Orderly (log ++ (HeapState.allocateAligned size align state).events) →
        HeapState.EndsWell good log (HeapState.allocateAligned size align state)) ∧
      (∀ pointer, Orderly (log ++ (HeapState.deallocate pointer state).events) →
        HeapState.EndsWell good log (HeapState.deallocate pointer state)) ∧
      (∀ pointer, HeapState.EndsWell good log (HeapState.usableSize pointer state)) ∧
      (Orderly (log ++ (state.heap.destruct state.world).events) →
        ∀ fault, (state.heap.destruct state.world).answer = .error fault →
          PageSupplier.Causes good fault) := by
  refine ⟨fun supplier config world hvalid hstart horderly ↦ ?_,
    fun state deeds log hrun horderly hstate ↦ ?_⟩
  · have hnofault : ∀ fault, config.validate.run = .error fault →
        PageSupplier.Causes good fault := by
      intro fault hfault
      rw [ExceptT.run, hvalid] at hfault
      cases hfault
    have hcreate := @Heap.ensures_create κ ω _ (.upheld hgood) config supplier hnofault
    refine ⟨fun fault hfault ↦ ?_, fun heap hheap ↦ ?_⟩
    · exact @Act.Ensures.forgives _ _ _ _ _ _ hcreate world [] fault hfault
        ⟨hstart, rfl, balanced_nil⟩ horderly
    · exact (hcreate.of_run (Outcome.eq_of_answer hheap rfl) ⟨hstart, rfl, balanced_nil⟩
        horderly).holds
  · obtain ⟨config, used, hkeeps, -⟩ := hrun.exists_points horderly
    have hunder : Heap.KeepsUnder (.upheld hgood) config used (state.heap, state.world) log :=
      ⟨hkeeps, hstate⟩
    exact ⟨fun size hsize ↦ HeapState.endsWell_allocateAligned hunder hsize blockAlign,
      fun size align hsize ↦ HeapState.endsWell_allocateAligned hunder hsize align,
      HeapState.endsWell_deallocate hunder,
      fun pointer ↦ HeapState.endsWell_usableSize hunder pointer horderly,
      fun hmore fault hfault ↦ (Heap.gives_destruct state.heap).forgives hfault hunder hmore⟩

/-- A supplier that hands out one region after the other never faults. -/
theorem linear_not_causes (fault : Fault) :
    ¬ PageSupplier.Causes (fun (_ : LinearSupplier × Unit) _ ↦ True) fault := by
  rintro ⟨state, out, -, ⟨size, -, hfault⟩ | ⟨region, -, hfault⟩⟩
  · cases hfault
  · cases hfault

/-- A heap is made, and with one block in use every call comes to an answer. -/
theorem faults_only_by_supplier_of_one_allocation :
    (∃ answer, (Heap.create ({ next := 4096, stop := 2 ^ 32 } : LinearSupplier) {} ()).answer =
      .ok answer) ∧
    HeapRun AnyWrite oneTaken.state [.allocate 100 (.ok 4112)] firstLog ∧
      (∃ answer, (HeapState.allocate 5000 oneTaken.state).answer = .ok answer) ∧
      (∃ answer, (HeapState.allocateAligned (2 ^ 63) 64 oneTaken.state).answer = .ok answer) ∧
      (∃ answer, (HeapState.deallocate 4112 oneTaken.state).answer = .ok answer) ∧
      (∃ answer, (HeapState.usableSize 4113 oneTaken.state).answer = .ok answer) ∧
      ∃ answer, (oneTaken.state.heap.destruct oneTaken.state.world).answer = .ok answer := by
  have hvalid : ({} : HeapConfig).validate.run = .ok (.ok ()) := by decide +kernel
  have hcreated : (Heap.create ({ next := 4096, stop := 2 ^ 32 } : LinearSupplier) {} ()).events =
      firstLog := by decide +kernel
  have hsmall : (HeapState.allocate 5000 oneTaken.state).events = [] := by decide +kernel
  have hlarge : (HeapState.allocateAligned (2 ^ 63) 64 oneTaken.state).events = [] := by
    decide +kernel
  have hfree : (HeapState.deallocate 4112 oneTaken.state).events = [] := by decide +kernel
  have hend : (oneTaken.state.heap.destruct oneTaken.state.world).events =
      [.noted (.pageDropped 4096), .released 4096] := by decide +kernel
  have hsame : ∀ {events : List Event}, events = [] → Orderly (firstLog ++ events) := by
    rintro events rfl
    exact orderly_firstLog.append (by decide)
  obtain ⟨hcreate, hcalls⟩ := faults_only_by_supplier linear_upholds
  obtain ⟨hallocate, haligned, hdeallocate, husable, hdestruct⟩ :=
    hcalls _ _ _ (oneTaken_run AnyWrite) orderly_firstLog trivial
  refine ⟨?_, oneTaken_run AnyWrite, ?_, ?_, ?_, ?_, ?_⟩
  · refine HeapState.exists_answer fun fault hfault ↦ linear_not_causes fault ?_
    refine (hcreate _ {} () hvalid trivial ?_).1 fault hfault
    rw [hcreated]
    exact orderly_firstLog
  · exact (hallocate 5000 (by norm_num) (hsame hsmall)).exists_answer linear_not_causes
  · exact (haligned _ 64 (Nat.le_refl _) (hsame hlarge)).exists_answer linear_not_causes
  · exact (hdeallocate 4112 (hsame hfree)).exists_answer linear_not_causes
  · exact (husable 4113).exists_answer linear_not_causes
  · refine HeapState.exists_answer fun fault hfault ↦ linear_not_causes fault ?_
    refine hdestruct ?_ fault hfault
    rw [hend]
    exact orderly_firstLog.append (by decide)

end HeapRun

end KernelMemory
