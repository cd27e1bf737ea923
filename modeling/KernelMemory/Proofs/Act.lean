import KernelMemory.Proofs.Regions

/-!
# What acts ensure

An act is judged by what holds when it comes to its end, of the state and of the log of all events
so far (`Act.Ensures`). On what terms is told beside that (`Terms`): which logs count at all, and
which faults are forgiven. Many acts are never refused; of those it is told which value they give
(`Act.Gives`). Of others it is told with which errors they may be refused (`Act.RefusesOnly`).
-/

set_option autoImplicit false
set_option relaxedAutoImplicit false

namespace KernelMemory

instance decidableEqExcept {ε α : Type} [DecidableEq ε] [DecidableEq α] :
    DecidableEq (Except ε α)
  | .ok first, .ok second => decidable_of_iff (first = second) (by simp)
  | .error first, .error second => decidable_of_iff (first = second) (by simp)
  | .ok _, .error _ => .isFalse (by simp)
  | .error _, .ok _ => .isFalse (by simp)

/-- An outcome is known by its answer and its events, but for the state. -/
theorem Outcome.eq_of_answer {σ α : Type} {outcome : Outcome σ α}
    {answer : Except Fault (Except AllocError α)} {events : List Event}
    (hanswer : outcome.answer = answer) (hevents : outcome.events = events) :
    outcome = ⟨answer, outcome.state, events⟩ := by
  subst hanswer hevents
  rfl

/-- Whether a request is refused does not depend on the value it would give. -/
theorem eq_refused_of_map {α : Type} {answer : Except Fault (Except AllocError α)}
    {error : AllocError}
    (hanswer : (answer.map fun settled ↦ settled.map fun _ ↦ ()) = .ok (.error error)) :
    answer = .ok (.error error) := by
  rcases answer with fault | refused | value
  · cases hanswer
  · cases hanswer
    rfl
  · cases hanswer

/-- The terms on which acts are judged: the logs that are admitted, and the faults that are
forgiven. -/
structure Terms where
  Admits : List Event → Prop
  Forgives : Fault → Prop
  admits_of_append : ∀ {log events : List Event}, Admits (log ++ events) → Admits log

/-- All logs are admitted, and all faults forgiven. -/
def Terms.any : Terms := ⟨fun _ ↦ True, fun _ ↦ True, id⟩

namespace Act

variable {σ τ α β : Type}

/-! ### Runs -/

@[simp] theorem get_bind_run (next : σ → Act σ β) (state : σ) :
    (get >>= next) state = next state state :=
  rfl

@[simp] theorem lift_ok_bind_run (value : α) (next : α → Act σ β) (state : σ) :
    ((liftM (.ok value : Except Fault α) : Act σ α) >>= next) state = next value state :=
  rfl

@[simp] theorem lift_ok_run (value : α) (state : σ) :
    (liftM (.ok value : Except Fault α) : Act σ α) state = ⟨.ok (.ok value), state, []⟩ :=
  rfl

/-- A computation that comes to an answer shows no events and leaves the state alone. -/
theorem liftM_checked_run {checked : Checked α} {answer : Except AllocError α}
    (hchecked : checked = .ok answer) (state : σ) :
    (liftM checked : Act σ α) state = ⟨.ok answer, state, []⟩ := by
  subst hchecked
  rfl

/-- A computation that faults ends the act. -/
theorem liftM_checked_run_of_fault {checked : Checked α} {fault : Fault}
    (hchecked : checked = .error fault) (state : σ) :
    (liftM checked : Act σ α) state = ⟨.error fault, state, []⟩ := by
  subst hchecked
  rfl

@[simp] theorem modify_bind_run (change : σ → σ) (next : PUnit → Act σ β) (state : σ) :
    ((modify change : Act σ PUnit) >>= next) state = next ⟨⟩ (change state) :=
  rfl

/-- A silent value is handed on. -/
theorem bind_run_of_silent {act : Act σ α} {state after : σ} {value : α}
    (hact : act state = ⟨.ok (.ok value), after, []⟩) (next : α → Act σ β) :
    (act >>= next) state = next value after := by
  rw [bind_run_of_value hact]
  rfl

/-- An act that came to its end was refused, or gave a value and the next one followed. -/
theorem of_bind_run {act : Act σ α} {next : α → Act σ β} {state after : σ}
    {answer : Except AllocError β} {events : List Event}
    (hrun : (act >>= next) state = ⟨.ok answer, after, events⟩) :
    (∃ error, act state = ⟨.ok (.error error), after, events⟩ ∧ answer = .error error) ∨
    ∃ value middle first rest, act state = ⟨.ok (.ok value), middle, first⟩ ∧
      next value middle = ⟨.ok answer, after, rest⟩ ∧ events = first ++ rest := by
  rcases hact : act state with ⟨fault | error | value, middle, first⟩
  · rw [bind_run_of_fault hact] at hrun
    cases hrun
  · rw [bind_run_of_refused hact] at hrun
    cases hrun
    exact .inl ⟨error, rfl, rfl⟩
  · rw [bind_run_of_value hact] at hrun
    obtain ⟨hanswer, rfl, rfl⟩ := Outcome.mk.inj hrun
    exact .inr ⟨value, middle, first, _, rfl, Outcome.eq_of_answer hanswer rfl, rfl⟩

theorem settle_run {act : Act σ α} {state after : σ} {answer : Except AllocError α}
    {events : List Event} (hact : act state = ⟨.ok answer, after, events⟩) :
    act.settle state = ⟨.ok (.ok answer), after, events⟩ := by
  unfold settle
  rw [hact]
  rfl

theorem settle_run_of_fault {act : Act σ α} {state after : σ} {fault : Fault}
    {events : List Event} (hact : act state = ⟨.error fault, after, events⟩) :
    act.settle state = ⟨.error fault, after, events⟩ := by
  unfold settle
  rw [hact]
  rfl

/-- What came of a settled act came of the act. -/
theorem of_settle_run {act : Act σ α} {state after : σ}
    {answer : Except AllocError (Except AllocError α)} {events : List Event}
    (hrun : act.settle state = ⟨.ok answer, after, events⟩) :
    ∃ settled, answer = .ok settled ∧ act state = ⟨.ok settled, after, events⟩ := by
  rcases hact : act state with ⟨fault | settled, middle, shown⟩
  · rw [settle_run_of_fault hact] at hrun
    cases hrun
  · rw [settle_run hact] at hrun
    cases hrun
    exact ⟨settled, rfl, rfl⟩

/-! ### What acts ensure -/

/-- An outcome that follows a log has `post`, unless it is a fault that is forgiven. -/
def Meets (terms : Terms) (post : Except AllocError α → σ → List Event → Prop) (log : List Event)
    (outcome : Outcome σ α) : Prop :=
  match outcome.answer with
  | .ok answer => post answer outcome.state (log ++ outcome.events)
  | .error fault => terms.Forgives fault

/-- From a state and a log with `pre`, the act has `post` of its answer, of the state after it and
of the longer log. -/
def Ensures (terms : Terms) (pre : σ → List Event → Prop) (act : Act σ α)
    (post : Except AllocError α → σ → List Event → Prop) : Prop :=
  ∀ state log, pre state log → terms.Admits (log ++ (act state).events) →
    Meets terms post log (act state)

/-- The act is not refused, and gives a value with `post`. -/
def Gives (terms : Terms) (pre : σ → List Event → Prop) (act : Act σ α)
    (post : α → σ → List Event → Prop) : Prop :=
  Ensures terms pre act fun answer state log ↦ ∃ value, answer = .ok value ∧ post value state log

variable {terms : Terms} {pre : σ → List Event → Prop} {act : Act σ α}
  {post : Except AllocError α → σ → List Event → Prop} {given : α → σ → List Event → Prop}

/-- The state after an outcome may be looked at in another way. -/
theorem Meets.map {change : σ → τ} {weaker : Except AllocError α → τ → List Event → Prop}
    {log : List Event} {outcome : Outcome σ α} (hmeets : Meets terms post log outcome)
    (hpost : ∀ answer state log, post answer state log → weaker answer (change state) log) :
    Meets terms weaker log ⟨outcome.answer, change outcome.state, outcome.events⟩ := by
  rcases outcome with ⟨fault | answer, state, events⟩
  · exact hmeets
  · exact hpost answer state _ hmeets

theorem Meets.mono {weaker : Except AllocError α → σ → List Event → Prop} {log : List Event}
    {outcome : Outcome σ α} (hmeets : Meets terms post log outcome)
    (hpost : ∀ answer state log, post answer state log → weaker answer state log) :
    Meets terms weaker log outcome :=
  @Meets.map σ σ α terms post id weaker log outcome hmeets hpost

theorem Ensures.mono {stronger : σ → List Event → Prop}
    {weaker : Except AllocError α → σ → List Event → Prop} (hact : Ensures terms pre act post)
    (hpre : ∀ state log, stronger state log → pre state log)
    (hpost : ∀ answer state log, post answer state log → weaker answer state log) :
    Ensures terms stronger act weaker := fun state log hstate hadmits ↦
  (hact state log (hpre state log hstate) hadmits).mono hpost

theorem Ensures.of_pre {stronger : σ → List Event → Prop} (hact : Ensures terms pre act post)
    (hpre : ∀ state log, stronger state log → pre state log) : Ensures terms stronger act post :=
  hact.mono hpre fun _ _ _ hpost ↦ hpost

/-- What is ensured holds after a run that came to its end. -/
theorem Ensures.of_run (hact : Ensures terms pre act post) {state after : σ}
    {log events : List Event} {answer : Except AllocError α}
    (hrun : act state = ⟨.ok answer, after, events⟩) (hstate : pre state log)
    (hadmits : terms.Admits (log ++ events)) : post answer after (log ++ events) := by
  have hmeets := hact state log hstate
  rw [hrun] at hmeets
  exact hmeets hadmits

/-- Where the log does not count, what is ensured holds after any run that came to its end. -/
theorem Ensures.of_any {before : σ → Prop} {done : Except AllocError α → σ → Prop}
    (hact : Ensures .any (fun state _ ↦ before state) act fun answer state _ ↦ done answer state)
    {state after : σ} {events : List Event} {answer : Except AllocError α}
    (hrun : act state = ⟨.ok answer, after, events⟩) (hstate : before state) :
    done answer after :=
  @Ensures.of_run σ α .any _ act _ hact state after [] events answer hrun hstate trivial

theorem Gives.of_any {before : σ → Prop} {done : α → σ → Prop}
    (hact : Gives .any (fun state _ ↦ before state) act fun value state _ ↦ done value state)
    {state after : σ} {events : List Event} {answer : Except AllocError α}
    (hrun : act state = ⟨.ok answer, after, events⟩) (hstate : before state) :
    ∃ value, answer = .ok value ∧ done value after :=
  @Ensures.of_run σ α .any _ act _ hact state after [] events answer hrun hstate trivial

/-- A fault that an act may come to is forgiven. -/
theorem Ensures.forgives (hact : Ensures terms pre act post) {state : σ} {log : List Event}
    {fault : Fault} (hfault : (act state).answer = .error fault) (hstate : pre state log)
    (hadmits : terms.Admits (log ++ (act state).events)) : terms.Forgives fault := by
  have hmeets := hact state log hstate hadmits
  unfold Meets at hmeets
  rwa [hfault] at hmeets

theorem Gives.ensures (hact : Gives terms pre act given)
    (hpost : ∀ value state log, given value state log → post (.ok value) state log) :
    Ensures terms pre act post := by
  refine Ensures.mono hact (fun _ _ hpre ↦ hpre) fun answer state log hgiven ↦ ?_
  obtain ⟨value, rfl, hvalue⟩ := hgiven
  exact hpost value state log hvalue

/-- What was seen once stays seen. -/
theorem Ensures.with_mem (hact : Ensures terms pre act post) (event : Event) :
    Ensures terms (fun state log ↦ event ∈ log ∧ pre state log) act
      fun answer state log ↦ event ∈ log ∧ post answer state log := by
  intro state log hpre hadmits
  have hmeets := hact state log hpre.2 hadmits
  rcases hrun : act state with ⟨fault | answer, after, events⟩
  · rw [hrun] at hmeets
    exact hmeets
  · rw [hrun] at hmeets
    exact ⟨List.mem_append_left _ hpre.1, hmeets⟩

/-- The log of an act that comes to its end is one of those that count. -/
theorem Ensures.with_admits (hact : Ensures terms pre act post) :
    Ensures terms pre act fun answer state log ↦ terms.Admits log ∧ post answer state log := by
  intro state log hpre hadmits
  have hmeets := hact state log hpre hadmits
  rcases hrun : act state with ⟨fault | answer, after, events⟩
  · rw [hrun] at hmeets
    exact hmeets
  · rw [hrun] at hmeets hadmits
    exact ⟨hadmits, hmeets⟩

/-- What does not depend on the state can be assumed. -/
theorem ensures_of_fact {fact : Prop} (hact : fact → Ensures terms pre act post) :
    Ensures terms (fun state log ↦ fact ∧ pre state log) act post :=
  fun state log hpre ↦ hact hpre.1 state log hpre.2

/-! ### Single acts -/

/-- An act that comes to its end, shows no events and leaves the state alone. -/
theorem ensures_of_still (hstill : ∀ state log, pre state log →
      ∃ answer, act state = ⟨.ok answer, state, []⟩ ∧ post answer state log) :
    Ensures terms pre act post := by
  intro state log hstate _
  obtain ⟨answer, hrun, hpost⟩ := hstill state log hstate
  rw [hrun]
  show post answer state (log ++ [])
  rwa [List.append_nil]

theorem gives_pure (value : α) : Gives terms pre (pure value) fun given state log ↦
    given = value ∧ pre state log :=
  ensures_of_still fun _ _ hstate ↦ ⟨.ok value, rfl, value, rfl, rfl, hstate⟩

theorem ensures_throw {error : AllocError}
    (hpost : ∀ state log, pre state log → post (.error error) state log) :
    Ensures terms pre (throw error) post :=
  ensures_of_still fun state log hstate ↦ ⟨.error error, rfl, hpost state log hstate⟩

theorem gives_get : Gives terms pre get fun read state log ↦ read = state ∧ pre state log :=
  ensures_of_still fun state _ hstate ↦ ⟨.ok state, rfl, state, rfl, rfl, hstate⟩

/-- A computation that can only fault gives its value. -/
theorem gives_lift {computation : Except Fault α}
    (hfault : ∀ state log fault, pre state log → computation = .error fault →
      terms.Forgives fault) :
    Gives terms pre (liftM computation)
      fun value state log ↦ computation = .ok value ∧ pre state log := by
  cases computation with
  | error fault => exact fun state log hstate _ ↦ hfault state log fault hstate rfl
  | ok value => exact ensures_of_still fun _ _ hstate ↦ ⟨.ok value, rfl, value, rfl, rfl, hstate⟩

/-- A computation whose value is known gives it. -/
theorem gives_lift_of_eq {computation : Except Fault α} {value : α}
    (heq : computation = .ok value) :
    Gives terms pre (liftM computation) fun given state log ↦ given = value ∧ pre state log := by
  subst heq
  exact gives_pure value

theorem ensures_ofChecked {checked : Checked α}
    (hfault : ∀ fault, checked.run = .error fault → terms.Forgives fault) :
    Ensures terms pre (ofChecked checked)
      fun answer state log ↦ checked.run = .ok answer ∧ pre state log := by
  intro state log hstate _
  unfold ofChecked
  cases hrun : checked.run with
  | error fault => exact hfault fault hrun
  | ok answer =>
    refine ⟨rfl, ?_⟩
    show pre state (log ++ [])
    rwa [List.append_nil]

theorem gives_set {done : σ → List Event → Prop} {new : σ}
    (hpost : ∀ state log, pre state log → done new log) :
    Gives terms pre (set new) fun (_ : PUnit) ↦ done := by
  intro state log hstate _
  refine ⟨(), rfl, ?_⟩
  show done new (log ++ [])
  rw [List.append_nil]
  exact hpost state log hstate

theorem gives_modify {change : σ → σ} {done : σ → List Event → Prop}
    (hpost : ∀ state log, pre state log → done (change state) log) :
    Gives terms pre (modify change) fun _ ↦ done := by
  intro state log hstate _
  refine ⟨(), rfl, ?_⟩
  show done (change state) (log ++ [])
  rw [List.append_nil]
  exact hpost state log hstate

theorem gives_emit {event : Event} {done : σ → List Event → Prop}
    (hpost : ∀ state log, pre state log → done state (log ++ [event])) :
    Gives terms pre (emit event) fun _ ↦ done :=
  fun state log hstate _ ↦ ⟨(), rfl, hpost state log hstate⟩

/-! ### Acts made of others -/

/-- An act on a part of the state is judged there, with the whole state as it was. -/
theorem ensures_within {part : σ → τ} {update : τ → σ → σ} {inner : Act τ α}
    (hinner : ∀ state, Ensures terms (fun value log ↦ value = part state ∧ pre state log) inner
      fun answer value log ↦ post answer (update value state) log) :
    Ensures terms pre (inner.within part update) post := by
  intro state log hstate hadmits
  exact (hinner state (part state) log ⟨rfl, hstate⟩ hadmits).map fun _ _ _ hpost ↦ hpost

/-- What came of an act is a value. -/
theorem Ensures.settle (hact : Ensures terms pre act post) : Gives terms pre act.settle post := by
  intro state log hstate hadmits
  have hmeets := hact state log hstate hadmits
  unfold Act.settle
  rcases hrun : act state with ⟨fault | answer, after, events⟩
  · rw [hrun] at hmeets
    exact hmeets
  · rw [hrun] at hmeets
    exact ⟨answer, rfl, hmeets⟩

section Then

variable {next : α → Act σ β} {last : Except AllocError β → σ → List Event → Prop}

/-- The next act runs after a value; a refusal is passed on. -/
theorem Ensures.bind (hact : Ensures terms pre act post)
    (hnext : ∀ value, Ensures terms (post (.ok value)) (next value) last)
    (hrefused : ∀ error state log, post (.error error) state log → last (.error error) state log) :
    Ensures terms pre (act >>= next) last := by
  intro state log hstate hadmits
  have hfirst := hact state log hstate
  rcases hrun : act state with ⟨fault | error | value, after, events⟩
  · rw [hrun] at hfirst
    rw [bind_run_of_fault hrun] at hadmits ⊢
    exact hfirst hadmits
  · rw [hrun] at hfirst
    rw [bind_run_of_refused hrun] at hadmits ⊢
    exact hrefused error after _ (hfirst hadmits)
  · rw [hrun] at hfirst
    rw [bind_run_of_value hrun, ← List.append_assoc] at hadmits
    have hlast := hnext value after _ (hfirst (terms.admits_of_append hadmits)) hadmits
    rw [bind_run_of_value hrun]
    unfold Meets at hlast ⊢
    rwa [List.append_assoc] at hlast

theorem Gives.bind (hact : Gives terms pre act given)
    (hnext : ∀ value, Ensures terms (given value) (next value) last) :
    Ensures terms pre (act >>= next) last := by
  refine Ensures.bind hact (fun value ↦ ?_) fun error state log hrefused ↦ ?_
  · refine (hnext value).of_pre fun state log hvalue ↦ ?_
    obtain ⟨found, heq, hfound⟩ := hvalue
    rwa [Except.ok.inj heq]
  · obtain ⟨found, heq, -⟩ := hrefused
    exact absurd heq (by simp)

/-- A refusal ends the act, whatever would come next. -/
theorem ensures_throw_bind {error : AllocError} {mid : β → Act σ α}
    (hpost : ∀ state log, pre state log → post (.error error) state log) :
    Ensures terms pre (throw error >>= mid) post :=
  ensures_of_still fun state log hstate ↦ ⟨.error error, rfl, hpost state log hstate⟩

end Then

/-! ### Refusals -/

section Refusals

/-- The act is refused with none but the given errors. -/
def RefusesOnly (errors : AllocError → Prop) (act : Act σ α) : Prop :=
  ∀ state error, (act state).answer = .ok (.error error) → errors error

variable {errors : AllocError → Prop}

theorem refusesOnly_get : (get : Act σ σ).RefusesOnly errors := by
  rintro state error ⟨⟩

theorem refusesOnly_pure (value : α) : (pure value : Act σ α).RefusesOnly errors := by
  rintro state error ⟨⟩

theorem refusesOnly_set (state : σ) : (set state : Act σ PUnit).RefusesOnly errors := by
  rintro _ error ⟨⟩

theorem refusesOnly_modify (change : σ → σ) : (modify change : Act σ PUnit).RefusesOnly errors := by
  rintro state error ⟨⟩

theorem refusesOnly_note (notice : Notice) : (note notice : Act σ Unit).RefusesOnly errors := by
  rintro state error ⟨⟩

theorem refusesOnly_lift (computation : Except Fault α) :
    (liftM computation : Act σ α).RefusesOnly errors := by
  intro state error hanswer
  cases computation with
  | error fault => cases hanswer
  | ok value => cases hanswer

theorem refusesOnly_throw {error : AllocError} (herror : errors error) :
    (throw error : Act σ α).RefusesOnly errors := by
  rintro state other ⟨⟩
  exact herror

/-- What came of an act is no refusal. -/
theorem refusesOnly_settle (act : Act σ α) : act.settle.RefusesOnly errors := by
  intro state error hanswer
  rcases hrun : act state with ⟨fault | answer, after, events⟩
  · rw [settle_run_of_fault hrun] at hanswer
    cases hanswer
  · rw [settle_run hrun] at hanswer
    cases hanswer

theorem RefusesOnly.bind {act : Act σ α} {next : α → Act σ β} (hact : act.RefusesOnly errors)
    (hnext : ∀ value, (next value).RefusesOnly errors) : (act >>= next).RefusesOnly errors := by
  intro state error hanswer
  rcases hrun : act state with ⟨fault | refused | value, after, events⟩
  · rw [bind_run_of_fault hrun] at hanswer
    cases hanswer
  · rw [bind_run_of_refused hrun] at hanswer
    cases hanswer
    exact hact state error (by rw [hrun])
  · rw [bind_run_of_value hrun] at hanswer
    exact hnext value after error hanswer

theorem RefusesOnly.within {act : Act τ α} (hact : act.RefusesOnly errors) (part : σ → τ)
    (update : τ → σ → σ) : (act.within part update).RefusesOnly errors :=
  fun state error hanswer ↦ hact (part state) error hanswer

end Refusals

end Act

end KernelMemory
