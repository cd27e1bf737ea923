import KernelMemory.AllocError
import Mathlib.Tactic.SplitIfs

/-!
# Steps of a computation

How a computation that may fault runs through its steps. A step that gives a value hands it to the
next one, and a fault ends the run. `bind_eq_ok_iff` reads a run that came to its end backwards:
each of its steps gave a value.
-/

set_option autoImplicit false
set_option relaxedAutoImplicit false

namespace KernelMemory

variable {α β : Type}

@[simp] theorem ok_bind (value : α) (next : α → Except Fault β) :
    ((.ok value : Except Fault α) >>= next) = next value :=
  rfl

@[simp] theorem error_bind (fault : Fault) (next : α → Except Fault β) :
    ((.error fault : Except Fault α) >>= next) = .error fault :=
  rfl

@[simp] theorem pure_eq_ok (value : α) : (pure value : Except Fault α) = .ok value := rfl

theorem bind_eq_ok_iff {act : Except Fault α} {next : α → Except Fault β} {result : β} :
    (act >>= next) = .ok result ↔ ∃ value, act = .ok value ∧ next value = .ok result := by
  cases act with
  | error fault => simp
  | ok value => simp

/-- A condition that has to hold on the way does if the run came to its end. -/
theorem require_eq_ok_iff {condition : Prop} [Decidable condition] {fault : Fault}
    {next : Unit → Except Fault β} {result : β} :
    (if condition then next () else throw fault >>= next) = .ok result ↔
      condition ∧ next () = .ok result := by
  split_ifs with hcondition
  · simp only [hcondition, true_and]
  · refine iff_of_false ?_ fun hboth ↦ hcondition hboth.1
    rintro ⟨⟩

/-- A step that gives back what the values were made of does so along their list. -/
theorem mapM_map_eq {γ : Type} {make : α → β} {act : β → Except Fault γ} {result : α → γ}
    (hact : ∀ value, act (make value) = .ok (result value)) (values : List α) :
    (values.map make).mapM act = .ok (values.map result) := by
  have hsteps : act ∘ make = fun value ↦ pure (result value) := funext hact
  rw [List.mapM_map, hsteps, List.mapM_pure, pure_eq_ok]

/-! ### Computations that may be refused -/

namespace Checked

variable {ε : Type}

@[simp] theorem pure_eq (value : α) : (pure value : ExceptT ε (Except Fault) α) = .ok (.ok value) :=
  rfl

@[simp] theorem ok_bind (value : α) (next : α → ExceptT ε (Except Fault) β) :
    @bind (ExceptT ε (Except Fault)) _ α β (.ok (.ok value)) next = next value :=
  rfl

/-- A step that cannot be refused hands its value on. -/
@[simp] theorem lift_ok_bind (value : α) (next : α → ExceptT ε (Except Fault) β) :
    ((liftM (.ok value : Except Fault α) : ExceptT ε (Except Fault) α) >>= next) = next value :=
  rfl

theorem bind_eq_ok_iff {act : ExceptT ε (Except Fault) α} {next : α → ExceptT ε (Except Fault) β}
    {result : β} : (act >>= next) = (.ok (.ok result) : Except Fault (Except ε β)) ↔
      ∃ value, act = (.ok (.ok value) : Except Fault (Except ε α)) ∧
        next value = (.ok (.ok result) : Except Fault (Except ε β)) := by
  rcases act with fault | error | value
  · exact iff_of_false (by rintro ⟨⟩) (by rintro ⟨value, ⟨⟩, -⟩)
  · exact iff_of_false (by rintro ⟨⟩) (by rintro ⟨value, ⟨⟩, -⟩)
  · constructor
    · exact fun hnext ↦ ⟨value, rfl, hnext⟩
    · rintro ⟨other, ⟨⟩, hnext⟩
      exact hnext

/-- A condition that is demanded on the way holds if the run came to its end. -/
theorem demand_eq_ok_iff {condition : Prop} [Decidable condition] {error : ε}
    {next : Unit → ExceptT ε (Except Fault) β} {result : β} :
    (if condition then next () else throw error >>= next) =
        (.ok (.ok result) : Except Fault (Except ε β)) ↔
      condition ∧ next () = (.ok (.ok result) : Except Fault (Except ε β)) := by
  split_ifs with hcondition
  · simp only [hcondition, true_and]
  · refine iff_of_false ?_ fun hboth ↦ hcondition hboth.1
    rintro ⟨⟩

theorem lift_eq_ok_iff {computation : Except Fault α} {value : α} :
    (liftM computation : ExceptT ε (Except Fault) α) =
        (.ok (.ok value) : Except Fault (Except ε α)) ↔ computation = .ok value := by
  cases computation with
  | error fault => exact iff_of_false (by rintro ⟨⟩) (by rintro ⟨⟩)
  | ok other =>
    constructor
    · rintro ⟨⟩
      rfl
    · rintro ⟨⟩
      rfl

theorem mapM_eq {values : List α} {act : α → ExceptT ε (Except Fault) β} {result : α → β}
    (hact : ∀ value ∈ values, act value = .ok (.ok (result value))) :
    values.mapM act = .ok (.ok (values.map result)) := by
  induction values with
  | nil => rfl
  | cons value values ih =>
    rw [List.mapM_cons, hact value List.mem_cons_self, ok_bind,
      ih fun other hother ↦ hact other (List.mem_cons_of_mem _ hother), ok_bind]
    rfl

theorem forM_eq {values : List α} {act : α → ExceptT ε (Except Fault) Unit}
    (hact : ∀ value ∈ values, act value = .ok (.ok ())) : values.forM act = .ok (.ok ()) := by
  induction values with
  | nil => rfl
  | cons value values ih =>
    rw [List.forM, hact value List.mem_cons_self, ok_bind]
    exact ih fun other hother ↦ hact other (List.mem_cons_of_mem _ hother)

end Checked

end KernelMemory
