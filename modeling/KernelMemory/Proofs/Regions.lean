import KernelMemory.Act
import KernelMemory.Word
import Mathlib

/-!
# Regions that are out

A log of events tells which regions a supplier has handed out and not got back (`outstanding`). The
suppliers are only relied on to keep order (`Orderly`): a region ends within memory and shares no
byte with the regions that are out when it is handed out. A log is balanced (`Balanced`) if whatever
goes back was out.
-/

set_option autoImplicit false
set_option relaxedAutoImplicit false

namespace KernelMemory

/-- The regions that are out after an event. A release takes back the region that was handed out
last at the base. -/
def Event.outAfter (out : List Region) : Event → List Region
  | .supplied _ region => region :: out
  | .released base => out.eraseP fun region ↦ region.base == base
  | _ => out

/-- The regions that are out after what a log tells, the last one first. -/
def outstanding (log : List Event) : List Region := log.foldl Event.outAfter []

/-- The region shares no byte with the ones that are out. -/
def Region.DisjointFrom (region : Region) (out : List Region) : Prop :=
  ∀ other ∈ out, Disjoint (Set.Ico region.base (region.base + region.size))
    (Set.Ico other.base (other.base + other.size))

/-- The region ends within memory and shares no byte with the ones that are out. -/
structure Region.Fits (region : Region) (out : List Region) : Prop where
  end_lt : region.base + region.size < Word.limit
  disjoint : ∀ other ∈ out, Disjoint (Set.Ico region.base (region.base + region.size))
    (Set.Ico other.base (other.base + other.size))

/-- Every region that is handed out fits the ones that are out at that time. -/
def Orderly (log : List Event) : Prop :=
  ∀ before size region after, log = before ++ .supplied size region :: after →
    region.Fits (outstanding before)

/-- Every release takes back a region that is out. -/
def Balanced (log : List Event) : Prop :=
  ∀ before base after, log = before ++ .released base :: after →
    ∃ region ∈ outstanding before, region.base = base

/-- The base of the region that is handed out. -/
def Event.suppliedBase? : Event → Option Nat
  | .supplied _ region => some region.base
  | _ => none

variable {log events : List Event}

theorem Orderly.of_append (horderly : Orderly (log ++ events)) : Orderly log := by
  intro before size region after hlog
  apply horderly before size region (after ++ events)
  rw [hlog, List.append_assoc, List.cons_append]

theorem outstanding_append :
    outstanding (log ++ events) = events.foldl Event.outAfter (outstanding log) :=
  List.foldl_append

theorem outstanding_quiet (hquiet : ∀ event ∈ events, ∃ notice, event = .noted notice) :
    outstanding (log ++ events) = outstanding log := by
  rw [outstanding_append]
  generalize outstanding log = out
  induction events with
  | nil => rfl
  | cons event events ih =>
    obtain ⟨notice, rfl⟩ := hquiet event List.mem_cons_self
    exact ih fun other hother ↦ hquiet other (List.mem_cons_of_mem _ hother)

theorem outstanding_snoc (event : Event) :
    outstanding (log ++ [event]) = event.outAfter (outstanding log) :=
  outstanding_append

theorem orderly_nil : Orderly [] := by
  intro before size region after hlog
  exact absurd hlog.symm (List.append_ne_nil_of_right_ne_nil _ (List.cons_ne_nil _ _))

/-- An event of a longer log is the last one or one of the others. -/
theorem eq_or_exists_of_snoc {event other : Event} {before after : List Event}
    (hlog : log ++ [event] = before ++ other :: after) :
    (before = log ∧ other = event) ∨ ∃ rest, log = before ++ other :: rest := by
  rcases List.eq_nil_or_concat after with rfl | ⟨rest, last, rfl⟩
  · obtain ⟨rfl, heq⟩ := List.append_inj' hlog rfl
    exact Or.inl ⟨rfl, (List.cons.inj heq).1.symm⟩
  · rw [List.concat_eq_append, ← List.cons_append, ← List.append_assoc] at hlog
    exact Or.inr ⟨rest, (List.append_inj' hlog rfl).1⟩

/-- Order is kept as long as each region fits when it is handed out. -/
theorem Orderly.snoc (horderly : Orderly log) {event : Event}
    (hfits : ∀ size region, event = .supplied size region → region.Fits (outstanding log)) :
    Orderly (log ++ [event]) := by
  intro before size region after hlog
  rcases eq_or_exists_of_snoc hlog with ⟨rfl, heq⟩ | ⟨rest, heq⟩
  · exact hfits size region heq.symm
  · exact horderly before size region rest heq

/-- Order is kept as long as nothing is handed out. -/
theorem Orderly.append (horderly : Orderly log)
    (hnone : ∀ event ∈ events, event.suppliedBase? = none) : Orderly (log ++ events) := by
  induction events generalizing log with
  | nil => rwa [List.append_nil]
  | cons event events ih =>
    rw [List.append_cons]
    refine ih (horderly.snoc fun size region heq ↦ ?_) fun other hother ↦
      hnone other (List.mem_cons_of_mem _ hother)
    have hevent := hnone event List.mem_cons_self
    rw [heq] at hevent
    cases hevent

theorem orderly_of_one {region : Region} (hend : region.base + region.size < Word.limit)
    (size : Nat) : Orderly [.supplied size region] := by
  refine orderly_nil.snoc fun otherSize other hevent ↦ ?_
  cases hevent
  exact ⟨hend, fun other hother ↦ absurd hother List.not_mem_nil⟩

/-- The last region that was handed out fits the others. -/
theorem Orderly.fits {size : Nat} {region : Region}
    (horderly : Orderly (log ++ [.supplied size region])) : region.Fits (outstanding log) :=
  horderly log size region [] rfl

/-! ### What goes back -/

/-- Of the regions at a base just one goes back. -/
theorem map_base_eraseP (out : List Region) (base : Nat) :
    (out.eraseP fun region ↦ region.base == base).map Region.base =
      (out.map Region.base).erase base := by
  rw [List.erase_eq_eraseP, List.eraseP_map]
  congr 2
  funext region
  exact Bool.beq_comm

theorem balanced_nil : Balanced [] := by
  intro before base after hlog
  exact absurd hlog.symm (List.append_ne_nil_of_right_ne_nil _ (List.cons_ne_nil _ _))

theorem Balanced.of_append (hbalanced : Balanced (log ++ events)) : Balanced log := by
  intro before base after hlog
  apply hbalanced before base (after ++ events)
  rw [hlog, List.append_assoc, List.cons_append]

/-- A log stays balanced as long as each release takes back a region that is out. -/
theorem Balanced.snoc (hbalanced : Balanced log) {event : Event}
    (hout : ∀ base, event = .released base → ∃ region ∈ outstanding log, region.base = base) :
    Balanced (log ++ [event]) := by
  intro before base after hlog
  rcases eq_or_exists_of_snoc hlog with ⟨rfl, heq⟩ | ⟨rest, heq⟩
  · exact hout base heq.symm
  · exact hbalanced before base rest heq

theorem Balanced.quiet (hbalanced : Balanced log)
    (hquiet : ∀ event ∈ events, ∃ notice, event = .noted notice) : Balanced (log ++ events) := by
  induction events generalizing log with
  | nil => rwa [List.append_nil]
  | cons event events ih =>
    rw [List.append_cons]
    obtain ⟨notice, rfl⟩ := hquiet event List.mem_cons_self
    exact ih (hbalanced.snoc fun base heq ↦ absurd heq (by simp))
      fun other hother ↦ hquiet other (List.mem_cons_of_mem _ hother)

/-- Regions that have bytes and share none lie one behind the other. -/
theorem Region.apart_of_disjoint {region other : Region} {out : List Region}
    (hdisjoint : region.DisjointFrom out) (hother : other ∈ out) (hsize : 0 < region.size)
    (hotherSize : 0 < other.size) :
    region.base + region.size ≤ other.base ∨ other.base + other.size ≤ region.base := by
  have hbytes := Set.Ico_disjoint_Ico.mp (hdisjoint other hother)
  omega

end KernelMemory
