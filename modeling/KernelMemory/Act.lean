import KernelMemory.Event

/-!
# Acts

An act runs on a state. It gives a value, is refused with an error or faults; beside that it gives
the state after it and the events that happened, in order. A refusal leaves the state as it was at
that point. Events are only ever added, also those before a fault, so what was seen once stays
seen.
-/

set_option autoImplicit false
set_option relaxedAutoImplicit false

namespace KernelMemory

structure Outcome (σ α : Type) where
  answer : Except Fault (Except AllocError α)
  state : σ
  events : List Event

def Act (σ α : Type) : Type := σ → Outcome σ α

namespace Act

variable {σ τ α β : Type}

protected def pure (value : α) : Act σ α := fun state ↦ ⟨.ok (.ok value), state, []⟩

protected def bind (act : Act σ α) (next : α → Act σ β) : Act σ β := fun state ↦
  match act state with
  | ⟨.ok (.ok value), state, events⟩ =>
    let outcome := next value state
    { outcome with events := events ++ outcome.events }
  | ⟨.ok (.error error), state, events⟩ => ⟨.ok (.error error), state, events⟩
  | ⟨.error fault, state, events⟩ => ⟨.error fault, state, events⟩

instance : Monad (Act σ) where
  pure := Act.pure
  bind := Act.bind

def refuse (error : AllocError) : Act σ α := fun state ↦ ⟨.ok (.error error), state, []⟩

/-- What came of an act, as an act that is not refused. -/
def settle (act : Act σ α) : Act σ (Except AllocError α) := fun state ↦
  let outcome := act state
  ⟨outcome.answer.map .ok, outcome.state, outcome.events⟩

instance : MonadExceptOf AllocError (Act σ) where
  throw := refuse
  tryCatch act handle := act.settle.bind fun
    | .ok value => Act.pure value
    | .error error => handle error

instance : MonadStateOf σ (Act σ) where
  get := fun state ↦ ⟨.ok (.ok state), state, []⟩
  set state := fun _ ↦ ⟨.ok (.ok ()), state, []⟩
  modifyGet change := fun state ↦ ⟨.ok (.ok (change state).1), (change state).2, []⟩

def emit (event : Event) : Act σ Unit := fun state ↦ ⟨.ok (.ok ()), state, [event]⟩

def note (notice : Notice) : Act σ Unit := emit (.noted notice)

/-- A computation without a state of its own. -/
def ofChecked (checked : Checked α) : Act σ α := fun state ↦ ⟨checked.run, state, []⟩

instance : MonadLift Checked (Act σ) := ⟨ofChecked⟩

/-- An act on a part of the state. -/
def within (part : σ → τ) (update : τ → σ → σ) (act : Act τ α) : Act σ α := fun state ↦
  let outcome := act (part state)
  ⟨outcome.answer, update outcome.state state, outcome.events⟩

/-! ### How acts run -/

theorem pure_run (value : α) (state : σ) :
    (pure value : Act σ α) state = ⟨.ok (.ok value), state, []⟩ :=
  rfl

/-- After a value the next act runs, and its events follow. -/
theorem bind_run_of_value {act : Act σ α} {state after : σ} {value : α} {events : List Event}
    (hact : act state = ⟨.ok (.ok value), after, events⟩) (next : α → Act σ β) :
    (act >>= next) state =
      ⟨(next value after).answer, (next value after).state,
        events ++ (next value after).events⟩ := by
  show Act.bind act next state = _
  simp only [Act.bind, hact]

/-- After a refusal nothing else runs. -/
theorem bind_run_of_refused {act : Act σ α} {state after : σ} {error : AllocError}
    {events : List Event} (hact : act state = ⟨.ok (.error error), after, events⟩)
    (next : α → Act σ β) : (act >>= next) state = ⟨.ok (.error error), after, events⟩ := by
  show Act.bind act next state = _
  simp only [Act.bind, hact]

/-- After a fault nothing else runs. -/
theorem bind_run_of_fault {act : Act σ α} {state after : σ} {fault : Fault}
    {events : List Event} (hact : act state = ⟨.error fault, after, events⟩)
    (next : α → Act σ β) : (act >>= next) state = ⟨.error fault, after, events⟩ := by
  show Act.bind act next state = _
  simp only [Act.bind, hact]

instance : LawfulMonad (Act σ) := LawfulMonad.mk' (Act σ)
  (fun act ↦ by
    funext state
    rcases hact : act state with ⟨answer, after, events⟩
    rcases answer with fault | error | value
    · exact bind_run_of_fault hact _
    · exact bind_run_of_refused hact _
    · exact (bind_run_of_value hact _).trans (by simp [Act.pure]))
  (fun value next ↦ by
    funext state
    exact (bind_run_of_value (pure_run value state) next).trans (by simp))
  (fun act next last ↦ by
    funext state
    rcases hact : act state with ⟨answer, after, events⟩
    rcases answer with fault | error | value
    · rw [bind_run_of_fault hact, bind_run_of_fault (bind_run_of_fault hact next)]
    · rw [bind_run_of_refused hact, bind_run_of_refused (bind_run_of_refused hact next)]
    · rw [bind_run_of_value hact]
      rcases hnext : next value after with ⟨answer, final, more⟩
      have hboth := bind_run_of_value hact next
      rw [hnext] at hboth
      rcases answer with fault | error | result
      · rw [bind_run_of_fault hnext, bind_run_of_fault hboth]
      · rw [bind_run_of_refused hnext, bind_run_of_refused hboth]
      · rw [bind_run_of_value hnext, bind_run_of_value hboth]
        simp [List.append_assoc])

/-! ### Quiet acts -/

/-- Nothing but notices is seen of the act. -/
def Quiet (act : Act σ α) : Prop :=
  ∀ state, ∀ event ∈ (act state).events, ∃ notice, event = .noted notice

theorem quiet_of_events_nil {act : Act σ α} (hnil : ∀ state, (act state).events = []) :
    act.Quiet := by
  intro state event hevent
  rw [hnil] at hevent
  exact absurd hevent List.not_mem_nil

theorem quiet_pure (value : α) : (pure value : Act σ α).Quiet := quiet_of_events_nil fun _ ↦ rfl

theorem quiet_throw (error : AllocError) : (throw error : Act σ α).Quiet :=
  quiet_of_events_nil fun _ ↦ rfl

theorem quiet_get : (get : Act σ σ).Quiet := quiet_of_events_nil fun _ ↦ rfl

theorem quiet_set (state : σ) : (set state : Act σ PUnit).Quiet := quiet_of_events_nil fun _ ↦ rfl

theorem quiet_ofChecked (checked : Checked α) : (ofChecked checked : Act σ α).Quiet :=
  quiet_of_events_nil fun _ ↦ rfl

theorem quiet_note (notice : Notice) : (note notice : Act σ Unit).Quiet := by
  intro state event hevent
  exact ⟨notice, List.mem_singleton.mp hevent⟩

theorem Quiet.bind {act : Act σ α} {next : α → Act σ β} (hact : act.Quiet)
    (hnext : ∀ value, (next value).Quiet) : (act >>= next).Quiet := by
  intro state event hevent
  have hfirst := hact state
  rcases hrun : act state with ⟨answer, after, events⟩
  rw [hrun] at hfirst
  rcases answer with fault | error | value
  · rw [bind_run_of_fault hrun] at hevent
    exact hfirst event hevent
  · rw [bind_run_of_refused hrun] at hevent
    exact hfirst event hevent
  · rw [bind_run_of_value hrun] at hevent
    rcases List.mem_append.mp hevent with hmem | hmem
    · exact hfirst event hmem
    · exact hnext value after event hmem

theorem Quiet.settle {act : Act σ α} (hact : act.Quiet) : act.settle.Quiet := hact

theorem Quiet.within {act : Act τ α} (hact : act.Quiet) (part : σ → τ) (update : τ → σ → σ) :
    (act.within part update).Quiet := fun state ↦ hact (part state)

end Act

end KernelMemory
