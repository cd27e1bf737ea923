import KernelMemory.Heap.Slot
import KernelMemory.Proofs.Heap.Ownership
import KernelMemory.Proofs.Heap.SharedPool

/-!
# The lifetime of a slot

Heaps come and go in a slot: one is set up, another one replaces it, and the last one is ended
(`SlotDeed`). Every supplier that is passed in has a log of its own (`SlotLogs`): those that are
done with, and the one whose heap is held. At all times the regions that are out at any of them are
the pages of the heap that is held, and nothing else (`SlotRun.pages_accounted`).

The suppliers may share a world, such as one pool of frames, and nothing is known of it but the
order that each of them keeps by itself.
-/

set_option autoImplicit false
set_option relaxedAutoImplicit false

namespace KernelMemory

variable {κ ω : Type}

/-! ### The end of a heap, as it is seen -/

namespace Heap

variable [PageSupplier κ ω]

/-- The pages go back one after the other, and this is not refused. -/
theorem bases_of_giveBackAll {pages : List (Nat × Page)} {state after : κ × ω}
    {answer : Except AllocError Unit} {events : List Event}
    (hrun : (pages.forM fun (_, page) ↦ do
      Act.note (.pageDropped page.base)
      PageSupplier.giveBack page.base : Act (κ × ω) Unit) state = ⟨.ok answer, after, events⟩) :
    answer = .ok () ∧ releasedBases events = (pages.map fun entry ↦ entry.2.base) ∧
      suppliedBases events = [] := by
  induction pages generalizing state events with
  | nil =>
    cases hrun
    exact ⟨rfl, rfl, rfl⟩
  | cons entry pages ih =>
    rw [List.forM, bind_assoc] at hrun
    obtain ⟨error, hnote, -⟩ | ⟨value, middle, notices, rest, hnote, hrest, rfl⟩ :=
      Act.of_bind_run hrun
    · cases hnote
    cases hnote
    obtain ⟨error, hback, -⟩ | ⟨value, final, first, last, hback, hlast, rfl⟩ :=
      Act.of_bind_run hrest
    · obtain ⟨heq, -⟩ := PageSupplier.bases_of_giveBack hback
      cases heq
    obtain ⟨-, hreleased, hsupplied⟩ := PageSupplier.bases_of_giveBack hback
    obtain ⟨rfl, hreleasedRest, hsuppliedRest⟩ := ih hlast
    rw [releasedBases_append, releasedBases_append, suppliedBases_append, suppliedBases_append,
      hreleased, hsupplied, hreleasedRest, hsuppliedRest]
    exact ⟨rfl, rfl, rfl⟩

/-- When a heap ends each of its pages goes back, and no region is handed out. -/
theorem bases_of_destruct {heap : Heap κ} {world after : ω} {answer : Except AllocError κ}
    {events : List Event} (hrun : heap.destruct world = ⟨.ok answer, after, events⟩) :
    (∃ given, answer = .ok given) ∧
      releasedBases events = (heap.layout.pages.toList.map fun entry ↦ entry.2.base) ∧
      suppliedBases events = [] := by
  unfold destruct at hrun
  obtain ⟨hanswer, -, hevents⟩ := Outcome.mk.inj hrun
  obtain ⟨error, hback, -⟩ | ⟨value, middle, first, rest, hback, hrest, rfl⟩ :=
    Act.of_bind_run (Outcome.eq_of_answer hanswer hevents)
  · obtain ⟨heq, -⟩ := bases_of_giveBackAll hback
    cases heq
  · obtain ⟨-, hbases⟩ := bases_of_giveBackAll hback
    rw [Act.get_bind_run, Act.pure_run] at hrest
    obtain ⟨hgiven, -, rfl⟩ := Outcome.mk.inj hrest
    rw [List.append_nil]
    exact ⟨⟨_, (Except.ok.inj hgiven).symm⟩, hbases⟩

end Heap

/-! ### Calls of a slot -/

/-- A call of a slot that has returned, with its answer. -/
inductive SlotDeed (κ : Type)
  | init (supplier : κ) (config : HeapConfig) (answer : Except AllocError Unit)
  | allocate (size : Nat) (answer : Except AllocError Nat)
  | allocateAligned (size align : Nat) (answer : Except AllocError Nat)
  | deallocate (pointer : Nat) (answer : Except AllocError Unit)
  | stats (answer : Option Stats)
  | destruct (answer : Except AllocError (Option κ))

namespace SlotDeed

/-- The call leads from one slot to another and shows events. -/
def Happens [PageSupplier κ ω] (before after : HeapSlot κ ω) (events : List Event) :
    SlotDeed κ → Prop
  | .init supplier config answer =>
    HeapSlot.init supplier config before = ⟨.ok answer, after, events⟩
  | .allocate size answer => HeapSlot.allocate size before = ⟨.ok answer, after, events⟩
  | .allocateAligned size align answer =>
    HeapSlot.allocateAligned size align before = ⟨.ok answer, after, events⟩
  | .deallocate pointer answer => HeapSlot.deallocate pointer before = ⟨.ok answer, after, events⟩
  | .stats answer => before.stats? = answer ∧ after = before ∧ events = []
  | .destruct answer => HeapSlot.destruct before = ⟨.ok answer, after, events⟩

/-- A heap was set up. -/
def IsSetup (deed : SlotDeed κ) : Prop := ∃ supplier config, deed = .init supplier config (.ok ())

/-- The heap was ended, if there was one. -/
def IsEnd (deed : SlotDeed κ) : Prop := ∃ answer, deed = .destruct answer

/-- A heap was set up and none was ended since then. -/
def Initialized (deeds : List (SlotDeed κ)) : Prop :=
  ∃ earlier deed later, deeds = earlier ++ deed :: later ∧ deed.IsSetup ∧
    ∀ other ∈ later, ¬ other.IsEnd

theorem initialized_snoc (deeds : List (SlotDeed κ)) (deed : SlotDeed κ) :
    Initialized (deeds ++ [deed]) ↔ deed.IsSetup ∨ (Initialized deeds ∧ ¬ deed.IsEnd) := by
  constructor
  · rintro ⟨earlier, setup, later, hdeeds, hsetup, hlater⟩
    rcases List.eq_nil_or_concat later with rfl | ⟨rest, last, rfl⟩
    · obtain ⟨-, heq⟩ := List.append_inj' hdeeds rfl
      exact .inl ((List.cons.inj heq).1 ▸ hsetup)
    · rw [List.concat_eq_append, ← List.cons_append, ← List.append_assoc] at hdeeds
      obtain ⟨rfl, heq⟩ := List.append_inj' hdeeds rfl
      rw [List.concat_eq_append] at hlater
      refine .inr ⟨⟨earlier, setup, rest, rfl, hsetup, fun other hother ↦
        hlater other (List.mem_append_left _ hother)⟩, ?_⟩
      rw [(List.cons.inj heq).1]
      exact hlater last (List.mem_append_right _ List.mem_cons_self)
  · rintro (hsetup | ⟨⟨earlier, setup, later, rfl, hsetup, hlater⟩, hdeed⟩)
    · exact ⟨deeds, deed, [], rfl, hsetup, fun _ hother ↦ absurd hother List.not_mem_nil⟩
    · refine ⟨earlier, setup, later ++ [deed], by rw [List.append_assoc, List.cons_append], hsetup,
        fun other hother ↦ ?_⟩
      rcases List.mem_append.mp hother with hother | hother
      · exact hlater other hother
      · exact List.mem_singleton.mp hother ▸ hdeed

end SlotDeed

/-! ### How the calls run -/

namespace HeapSlot

variable {slot after : HeapSlot κ ω} {events : List Event}

/-- Without a heap a call is refused, else it is a call of the heap. -/
theorem withHeap_cases {α : Type} {missing : AllocError} {act : Act (HeapState κ ω) α}
    {answer : Except AllocError α}
    (hrun : withHeap missing act slot = ⟨.ok answer, after, events⟩) :
    (slot.heap = none ∧ answer = .error missing ∧ after = slot ∧ events = []) ∨
    ∃ heap state, slot.heap = some heap ∧
      act ⟨heap, slot.memory, slot.world⟩ = ⟨.ok answer, state, events⟩ ∧
      after = ⟨some state.heap, state.memory, state.world⟩ := by
  unfold withHeap at hrun
  rw [Act.get_bind_run] at hrun
  cases hheap : slot.heap with
  | none =>
    rw [hheap] at hrun
    cases hrun
    exact .inl ⟨rfl, rfl, rfl, rfl⟩
  | some heap =>
    rw [hheap] at hrun
    obtain ⟨hanswer, rfl, hevents⟩ := Outcome.mk.inj hrun
    exact .inr ⟨heap, _, rfl, Outcome.eq_of_answer hanswer hevents, rfl⟩

theorem onWorld_eq {α : Type} {act : Act ω α} {answer : Except Fault (Except AllocError α)}
    (hrun : onWorld act slot = ⟨answer, after, events⟩) :
    ∃ world, act slot.world = ⟨answer, world, events⟩ ∧ after = { slot with world } := by
  obtain ⟨hanswer, rfl, hevents⟩ := Outcome.mk.inj hrun
  exact ⟨_, Outcome.eq_of_answer hanswer hevents, rfl⟩

variable [PageSupplier κ ω]

/-- What it takes to set up a heap in the place of another one, or of none. -/
inductive Replaces (heap : Heap κ) (slot : HeapSlot κ ω) (world : ω) :
    HeapSlot κ ω → List Event → Prop
  | first (hnone : slot.heap = none) : Replaces heap slot world ⟨some heap, slot.memory, world⟩ []
  | next {old : Heap κ} {given : κ} {final : ω} {ended : List Event}
      (hold : slot.heap = some old)
      (hended : old.destruct world = ⟨.ok (.ok given), final, ended⟩) :
      Replaces heap slot world ⟨some heap, slot.memory, final⟩ (.noted .heapReplaced :: ended)

/-- The new heap is made first. Only then it takes the place of the old one, which is ended. -/
theorem init_cases {supplier : κ} {config : HeapConfig} {answer : Except AllocError Unit}
    (hrun : init supplier config slot = ⟨.ok answer, after, events⟩) :
    (∃ error world, answer = .error error ∧
      Heap.create supplier config slot.world = ⟨.ok (.error error), world, events⟩ ∧
      after = { slot with world }) ∨
    ∃ heap world made rest, answer = .ok () ∧
      Heap.create supplier config slot.world = ⟨.ok (.ok heap), world, made⟩ ∧
      events = made ++ rest ∧ Replaces heap slot world after rest := by
  unfold init at hrun
  obtain ⟨error, hfirst, rfl⟩ | ⟨heap, middle, made, rest, hfirst, hrest, rfl⟩ :=
    Act.of_bind_run hrun
  · obtain ⟨world, hcreate, rfl⟩ := onWorld_eq hfirst
    exact .inl ⟨error, world, rfl, hcreate, rfl⟩
  obtain ⟨world, hcreate, rfl⟩ := onWorld_eq hfirst
  rw [Act.get_bind_run, Act.modify_bind_run] at hrest
  cases hold : slot.heap with
  | none =>
    simp only [hold] at hrest
    cases hrest
    exact .inr ⟨heap, world, made, [], rfl, hcreate, rfl, .first hold⟩
  | some old =>
    simp only [hold] at hrest
    obtain ⟨error, hnote, -⟩ | ⟨value, middle, first, last, hnote, hmore, rfl⟩ :=
      Act.of_bind_run hrest
    · cases hnote
    cases hnote
    obtain ⟨error, hrefused, -⟩ | ⟨given, middle, ended, done, hlast, hdone, rfl⟩ :=
      Act.of_bind_run hmore
    · obtain ⟨final, hended, -⟩ := onWorld_eq hrefused
      obtain ⟨⟨given, heq⟩, -⟩ := Heap.bases_of_destruct hended
      cases heq
    obtain ⟨final, hended, rfl⟩ := onWorld_eq hlast
    cases hdone
    rw [List.append_nil]
    exact .inr ⟨heap, world, made, _, rfl, hcreate, rfl, .next hold hended⟩

/-- A heap that is ended is given up before its pages go back. -/
theorem destruct_cases {answer : Except AllocError (Option κ)}
    (hrun : destruct slot = ⟨.ok answer, after, events⟩) :
    (slot.heap = none ∧ answer = .ok none ∧ after = slot ∧ events = []) ∨
    ∃ heap given world, slot.heap = some heap ∧ answer = .ok (some given) ∧
      heap.destruct slot.world = ⟨.ok (.ok given), world, events⟩ ∧
      after = ⟨none, slot.memory, world⟩ := by
  unfold destruct at hrun
  rw [Act.get_bind_run] at hrun
  cases hheap : slot.heap with
  | none =>
    rw [hheap] at hrun
    cases hrun
    exact .inl ⟨rfl, rfl, rfl, rfl⟩
  | some heap =>
    simp only [hheap] at hrun
    rw [Act.modify_bind_run] at hrun
    obtain ⟨error, hrefused, -⟩ | ⟨given, middle, ended, rest, hlast, hrest, rfl⟩ :=
      Act.of_bind_run hrun
    · obtain ⟨world, hended, -⟩ := onWorld_eq hrefused
      obtain ⟨⟨given, heq⟩, -⟩ := Heap.bases_of_destruct hended
      cases heq
    obtain ⟨world, hended, rfl⟩ := onWorld_eq hlast
    cases hrest
    rw [List.append_nil]
    exact .inr ⟨heap, given, world, rfl, rfl, hended, rfl⟩

end HeapSlot

/-! ### The logs of the suppliers -/

/-- The logs of the suppliers that were passed in: of those that are done with, and of the one whose
heap is held. -/
structure SlotLogs where
  past : List (List Event) := []
  held : Option (List Event) := none
deriving DecidableEq, Repr

namespace SlotLogs

def all (logs : SlotLogs) : List (List Event) := logs.held.toList ++ logs.past

variable [PageSupplier κ ω]

/-- What is seen of a call is put to the log of the supplier that was called. When a heap is set up
this is the new supplier at first, and then that of the heap that is replaced. -/
def after (logs : SlotLogs) (slot : HeapSlot κ ω) (events : List Event) : SlotDeed κ → SlotLogs
  | .init _ _ (.error _) => { logs with past := events :: logs.past }
  | .init supplier config (.ok ()) =>
    match logs.held with
    | none => { logs with held := some events }
    | some log =>
      let made := (Heap.create supplier config slot.world).events
      { past := (log ++ events.drop made.length) :: logs.past, held := some made }
  | .destruct _ =>
    match logs.held with
    | none => logs
    | some log => { past := (log ++ events) :: logs.past, held := none }
  | _ => { logs with held := logs.held.map (· ++ events) }

variable {logs : SlotLogs} {slot : HeapSlot κ ω} {events : List Event} {deed : SlotDeed κ}

theorem mem_past_after {log : List Event} (hlog : log ∈ logs.past) :
    log ∈ (logs.after slot events deed).past := by
  obtain ⟨past, held⟩ := logs
  cases deed with
  | init supplier config answer =>
    rcases answer with error | value
    · exact List.mem_cons_of_mem _ hlog
    · cases held with
      | none => exact hlog
      | some last => exact List.mem_cons_of_mem _ hlog
  | destruct answer =>
    cases held with
    | none => exact hlog
    | some last => exact List.mem_cons_of_mem _ hlog
  | _ => exact hlog

/-- Logs only grow. -/
theorem exists_longer {log : List Event} (hlog : log ∈ logs.all) :
    ∃ more, log ++ more ∈ (logs.after slot events deed).all := by
  rcases List.mem_append.mp hlog with hheld | hpast
  · obtain ⟨past, held⟩ := logs
    obtain rfl : held = some log := Option.mem_toList.mp hheld
    cases deed with
    | init supplier config answer =>
      rcases answer with error | value
      · exact ⟨[], (List.append_nil log).symm ▸ List.mem_cons_self⟩
      · exact ⟨_, List.mem_cons_of_mem _ List.mem_cons_self⟩
    | _ => exact ⟨events, List.mem_cons_self⟩
  · exact ⟨[], (List.append_nil log).symm ▸ List.mem_append_right _ (mem_past_after hpast)⟩

theorem orderly_of_after (horderly : ∀ log ∈ (logs.after slot events deed).all, Orderly log) :
    ∀ log ∈ logs.all, Orderly log := by
  intro log hlog
  obtain ⟨more, hmore⟩ := @exists_longer κ ω _ logs slot events deed log hlog
  exact (horderly _ hmore).of_append

end SlotLogs

/-! ### What every call keeps -/

theorem Heap.Keeps.destruct [PageSupplier κ ω] {config : HeapConfig} {used : Set UsedBlock}
    {heap : Heap κ} {world after : ω} {given : κ} {log ended : List Event}
    (hkeeps : Heap.Keeps config used (heap, world) log)
    (hended : heap.destruct world = ⟨.ok (.ok given), after, ended⟩) (horderly : Orderly log) :
    Balanced (log ++ ended) ∧ outstanding (log ++ ended) = [] ∧ (releasedBases ended).Nodup := by
  obtain ⟨-, hreleased, hsupplied⟩ := Heap.bases_of_destruct hended
  have hmore : Orderly (log ++ ended) := horderly.append (List.filterMap_eq_nil_iff.mp hsupplied)
  obtain ⟨_, -, hstands⟩ := (Heap.gives_destruct heap).of_run hended hkeeps.underOrderly hmore
  refine ⟨hstands.balanced, hstands.out_eq, ?_⟩
  have hbases := hkeeps.perm.map Prod.fst
  rw [List.map_map, List.map_map] at hbases
  rw [hreleased]
  exact hbases.nodup_iff.mp hkeeps.backed.nodup

namespace HeapSlot

variable [PageSupplier κ ω]

/-- There is a log for the heap that is held, and the heap is as it should be. -/
inductive Holds (world : ω) : Option (Heap κ) → Option (List Event) → Prop
  | nothing : Holds world none none
  | heap {config : HeapConfig} {used : Set UsedBlock} {heap : Heap κ} {log : List Event}
      (hkeeps : Heap.Keeps config used (heap, world) log) : Holds world (some heap) (some log)

omit [PageSupplier κ ω] in
theorem Holds.of_world {world : ω} {heap : Option (Heap κ)} {log : Option (List Event)}
    (hholds : Holds world heap log) (other : ω) : Holds other heap log := by
  cases hholds with
  | nothing => exact .nothing
  | heap hkeeps => exact .heap (hkeeps.of_world other)

/-- Nothing is out at the suppliers that are done with. -/
structure Sound (slot : HeapSlot κ ω) (logs : SlotLogs) : Prop where
  past : ∀ log ∈ logs.past, Balanced log ∧ outstanding log = []
  held : Holds slot.world slot.heap logs.held

namespace Sound

variable {slot after : HeapSlot κ ω} {logs : SlotLogs} {events : List Event}
  (hsound : slot.Sound logs)

include hsound

theorem init {supplier : κ} {config : HeapConfig} {answer : Except AllocError Unit}
    (hrun : HeapSlot.init supplier config slot = ⟨.ok answer, after, events⟩)
    (horderly : ∀ log ∈ (logs.after slot events (.init supplier config answer)).all, Orderly log) :
    after.Sound (logs.after slot events (.init supplier config answer)) := by
  have hensures := @Heap.ensures_create κ ω _ .orderly config supplier fun _ _ ↦ trivial
  obtain ⟨past, held⟩ := logs
  obtain ⟨hpast, hheld⟩ := hsound
  obtain ⟨error, world, rfl, hcreate, rfl⟩ | ⟨heap, world, made, rest, rfl, hcreate, rfl, hplace⟩ :=
    init_cases hrun
  · have hevents : Orderly events := horderly _ (List.mem_append_right _ List.mem_cons_self)
    obtain ⟨_, hstands⟩ := hensures.of_run hcreate ⟨trivial, rfl, balanced_nil⟩ hevents
    exact ⟨List.forall_mem_cons.mpr ⟨⟨hstands.balanced, hstands.out_eq⟩, hpast⟩,
      hheld.of_world world⟩
  cases hplace with
  | first hnone =>
    dsimp only at hnone hheld
    rw [hnone] at hheld
    cases hheld
    rw [List.append_nil] at horderly ⊢
    have hkeeps := hensures.of_run hcreate ⟨trivial, rfl, balanced_nil⟩
      (horderly made List.mem_cons_self)
    exact ⟨hpast, .heap hkeeps.toKeeps⟩
  | @next old given final ended hold hended =>
    dsimp only at hold hheld
    rw [hold] at hheld
    cases hheld with
    | @heap _ _ _ log hold =>
      simp only [SlotLogs.after, hcreate, List.drop_left] at horderly ⊢
      have hmade := hensures.of_run hcreate ⟨trivial, rfl, balanced_nil⟩
        (horderly made List.mem_cons_self)
      have hmore : Orderly (log ++ .noted .heapReplaced :: ended) :=
        horderly _ (List.mem_cons_of_mem _ List.mem_cons_self)
      rw [List.append_cons] at hmore
      obtain ⟨hbalanced, hout, -⟩ :=
        ((hold.of_world world).note .heapReplaced).destruct hended hmore.of_append
      rw [← List.append_cons] at hbalanced hout
      exact ⟨List.forall_mem_cons.mpr ⟨⟨hbalanced, hout⟩, hpast⟩,
        .heap (hmade.toKeeps.of_world final)⟩

theorem destruct {answer : Except AllocError (Option κ)}
    (hrun : HeapSlot.destruct slot = ⟨.ok answer, after, events⟩)
    (horderly : ∀ log ∈ logs.all, Orderly log) :
    after.Sound (logs.after slot events (.destruct answer)) := by
  obtain ⟨past, held⟩ := logs
  obtain ⟨hpast, hheld⟩ := hsound
  obtain ⟨hnone, -, rfl, -⟩ | ⟨heap, given, world, hheap, rfl, hended, rfl⟩ := destruct_cases hrun
  · dsimp only at hheld
    rw [hnone] at hheld
    cases hheld
    exact ⟨hpast, hnone ▸ .nothing⟩
  · dsimp only at hheld
    rw [hheap] at hheld
    cases hheld with
    | heap hkeeps =>
      obtain ⟨hbalanced, hout, -⟩ := hkeeps.destruct hended (horderly _ List.mem_cons_self)
      exact ⟨List.forall_mem_cons.mpr ⟨⟨hbalanced, hout⟩, hpast⟩, .nothing⟩

theorem withHeap {missing : AllocError} {α : Type} {act : Act (HeapState κ ω) α}
    {answer : Except AllocError α} (deed : HeapDeed)
    (hdeed : ∀ before after events, act before = ⟨.ok answer, after, events⟩ →
      deed.Happens before after events)
    (hrun : HeapSlot.withHeap missing act slot = ⟨.ok answer, after, events⟩)
    (horderly : ∀ log ∈ logs.held.map (· ++ events), Orderly log) :
    after.Sound { logs with held := logs.held.map (· ++ events) } := by
  obtain ⟨past, held⟩ := logs
  obtain ⟨hpast, hheld⟩ := hsound
  obtain ⟨hnone, -, rfl, -⟩ | ⟨heap, state, hheap, hact, rfl⟩ := withHeap_cases hrun
  · dsimp only at hheld ⊢
    rw [hnone] at hheld
    cases hheld
    exact ⟨hpast, hnone ▸ .nothing⟩
  · dsimp only at hheld ⊢
    rw [hheap] at hheld
    cases hheld with
    | @heap config used _ log hkeeps =>
      obtain ⟨next, -, hafter⟩ := @Heap.Keeps.deed κ ω _ config used
        ⟨heap, slot.memory, slot.world⟩ state log events hkeeps (horderly _ rfl) deed
        (hdeed _ _ _ hact)
      exact ⟨hpast, .heap hafter⟩

/-- Every call keeps the slot sound. -/
theorem deed {deed : SlotDeed κ} (hdeed : deed.Happens slot after events)
    (horderly : ∀ log ∈ (logs.after slot events deed).all, Orderly log) :
    after.Sound (logs.after slot events deed) := by
  have hheld : ∀ log, log ∈ logs.held.map (· ++ events) →
      log ∈ (SlotLogs.mk logs.past (logs.held.map (· ++ events))).all := fun log hlog ↦
    List.mem_append_left _ (Option.mem_toList.mpr hlog)
  cases deed with
  | init supplier config answer => exact hsound.init hdeed horderly
  | allocate size answer =>
    exact hsound.withHeap (.allocate size answer) (fun _ _ _ hact ↦ hact) hdeed
      fun log hlog ↦ horderly log (hheld log hlog)
  | allocateAligned size align answer =>
    exact hsound.withHeap (.allocateAligned size align answer) (fun _ _ _ hact ↦ hact) hdeed
      fun log hlog ↦ horderly log (hheld log hlog)
  | deallocate pointer answer =>
    exact hsound.withHeap (.deallocate pointer answer) (fun _ _ _ hact ↦ hact) hdeed
      fun log hlog ↦ horderly log (hheld log hlog)
  | stats answer =>
    obtain ⟨-, rfl, rfl⟩ := hdeed
    have hsame : logs.after after [] (.stats answer) = logs := by
      obtain ⟨past, held⟩ := logs
      cases held <;> simp [SlotLogs.after]
    rw [hsame]
    exact hsound
  | destruct answer => exact hsound.destruct hdeed (SlotLogs.orderly_of_after horderly)

end Sound

/-- A heap is there after it was set up and until one is ended. -/
theorem isInitialized_of_deed {slot after : HeapSlot κ ω} {events : List Event} {deed : SlotDeed κ}
    (hdeed : deed.Happens slot after events) :
    after.isInitialized = true ↔
      deed.IsSetup ∨ (slot.isInitialized = true ∧ ¬ deed.IsEnd) := by
  have hcall : ∀ {α : Type} {missing : AllocError} {act : Act (HeapState κ ω) α}
      {answer : Except AllocError α},
      HeapSlot.withHeap missing act slot = ⟨.ok answer, after, events⟩ →
      after.isInitialized = slot.isInitialized := by
    intro α missing act answer hrun
    obtain ⟨-, -, rfl, -⟩ | ⟨heap, state, hheap, -, rfl⟩ := withHeap_cases hrun
    · rfl
    · rw [isInitialized, isInitialized, hheap]
      rfl
  cases deed with
  | init supplier config answer =>
    obtain ⟨error, world, rfl, -, rfl⟩ | ⟨heap, world, made, rest, rfl, -, -, hplace⟩ :=
      init_cases hdeed
    · simp [SlotDeed.IsSetup, SlotDeed.IsEnd, isInitialized]
    · cases hplace <;> simp [SlotDeed.IsSetup, isInitialized]
  | allocate size answer => simp [hcall hdeed, SlotDeed.IsSetup, SlotDeed.IsEnd]
  | allocateAligned size align answer => simp [hcall hdeed, SlotDeed.IsSetup, SlotDeed.IsEnd]
  | deallocate pointer answer => simp [hcall hdeed, SlotDeed.IsSetup, SlotDeed.IsEnd]
  | stats answer =>
    obtain ⟨-, rfl, -⟩ := hdeed
    simp [SlotDeed.IsSetup, SlotDeed.IsEnd]
  | destruct answer =>
    obtain ⟨hnone, -, rfl, -⟩ | ⟨heap, given, world, -, -, -, rfl⟩ := destruct_cases hdeed
    · simp [SlotDeed.IsSetup, SlotDeed.IsEnd, isInitialized, hnone]
    · simp [SlotDeed.IsSetup, SlotDeed.IsEnd, isInitialized]

omit [PageSupplier κ ω] in
/-- The pages of the heap that is held, each with its base and its size. -/
def pages (slot : HeapSlot κ ω) : List (Nat × Nat) :=
  match slot.heap with
  | none => []
  | some heap => heap.layout.pages.toList.map fun entry ↦ (entry.2.base, entry.2.size)

end HeapSlot

/-! ### Runs -/

/-- Calls of a slot that starts out without a heap. In between memory is written and the world that
the suppliers share changes in any way. -/
inductive SlotRun [PageSupplier κ ω] : HeapSlot κ ω → List (SlotDeed κ) → SlotLogs → Prop
  | empty (memory : Memory) (world : ω) : SlotRun { memory, world } [] {}
  | called {slot after : HeapSlot κ ω} {deeds : List (SlotDeed κ)} {logs : SlotLogs}
      {deed : SlotDeed κ} {events : List Event} (hrun : SlotRun slot deeds logs)
      (hdeed : deed.Happens slot after events) :
      SlotRun after (deeds ++ [deed]) (logs.after slot events deed)
  | wrote {slot : HeapSlot κ ω} {deeds : List (SlotDeed κ)} {logs : SlotLogs}
      (hrun : SlotRun slot deeds logs) (memory : Memory) : SlotRun { slot with memory } deeds logs
  | shared {slot : HeapSlot κ ω} {deeds : List (SlotDeed κ)} {logs : SlotLogs}
      (hrun : SlotRun slot deeds logs) (world : ω) : SlotRun { slot with world } deeds logs

namespace SlotRun

variable [PageSupplier κ ω] {slot : HeapSlot κ ω} {deeds : List (SlotDeed κ)} {logs : SlotLogs}

theorem isInitialized_iff (hrun : SlotRun slot deeds logs) :
    slot.isInitialized = true ↔ SlotDeed.Initialized deeds := by
  induction hrun with
  | empty memory world =>
    refine ⟨fun hsome ↦ absurd hsome Bool.false_ne_true, ?_⟩
    rintro ⟨earlier, deed, later, hdeeds, -⟩
    exact absurd hdeeds.symm (List.append_ne_nil_of_right_ne_nil _ (List.cons_ne_nil _ _))
  | called _ hdeed ih =>
    rw [SlotDeed.initialized_snoc, HeapSlot.isInitialized_of_deed hdeed, ih]
  | wrote _ memory ih => exact ih
  | shared _ world ih => exact ih

theorem sound (hrun : SlotRun slot deeds logs) (horderly : ∀ log ∈ logs.all, Orderly log) :
    slot.Sound logs := by
  induction hrun with
  | empty memory world => exact ⟨fun _ hlog ↦ absurd hlog List.not_mem_nil, .nothing⟩
  | called _ hdeed ih => exact (ih (SlotLogs.orderly_of_after horderly)).deed hdeed horderly
  | wrote _ memory ih => exact ⟨(ih horderly).past, (ih horderly).held⟩
  | shared _ world ih => exact ⟨(ih horderly).past, (ih horderly).held.of_world world⟩

end SlotRun

namespace HeapSlot.Sound

variable [PageSupplier κ ω] {slot after : HeapSlot κ ω} {logs : SlotLogs} {events : List Event}
  (hsound : slot.Sound logs)

include hsound

omit [PageSupplier κ ω] in
theorem balanced : ∀ log ∈ logs.all, Balanced log := by
  obtain ⟨past, held⟩ := logs
  intro log hlog
  rcases List.mem_append.mp hlog with hheld | hpast
  · obtain rfl : held = some log := Option.mem_toList.mp hheld
    obtain ⟨heap, memory, world⟩ := slot
    have hholds : Holds world heap (some log) := hsound.held
    cases hholds with
    | heap hkeeps => exact hkeeps.balanced
  · exact (hsound.past log hpast).1

omit [PageSupplier κ ω] in
/-- What is out is out at the supplier of the heap that is held. -/
theorem out_perm :
    ((logs.all.flatMap outstanding).map fun region ↦ (region.base, region.pageSize)).Perm
      slot.pages := by
  obtain ⟨past, held⟩ := logs
  obtain ⟨heap, memory, world⟩ := slot
  have hpast : past.flatMap outstanding = [] :=
    List.flatMap_eq_nil_iff.mpr fun log hlog ↦ (hsound.past log hlog).2
  have hholds : Holds world heap held := hsound.held
  rw [SlotLogs.all, List.flatMap_append, hpast, List.append_nil]
  cases hholds with
  | nothing => exact List.Perm.refl []
  | heap hkeeps =>
    rw [Option.toList_some, List.flatMap_singleton]
    exact hkeeps.perm

/-- A heap that is replaced gives all its pages back, to the supplier that it had them from. -/
theorem replaced {supplier : κ} {config : HeapConfig} {old : Heap κ} (hold : slot.heap = some old)
    (horderly : ∀ log ∈ logs.all, Orderly log)
    (hrun : HeapSlot.init supplier config slot = ⟨.ok (.ok ()), after, events⟩) :
    ∃ heap middle made given ended log,
      Heap.create supplier config slot.world = ⟨.ok (.ok heap), middle, made⟩ ∧
      old.destruct middle = ⟨.ok (.ok given), after.world, ended⟩ ∧
      events = made ++ .noted .heapReplaced :: ended ∧ after.heap = some heap ∧
      logs.held = some log ∧ outstanding (log ++ ended) = [] ∧ Balanced (log ++ ended) ∧
      releasedBases ended = (old.layout.pages.toList.map fun entry ↦ entry.2.base) ∧
      (releasedBases ended).Nodup := by
  obtain ⟨past, held⟩ := logs
  obtain ⟨current, memory, world⟩ := slot
  obtain rfl : current = some old := hold
  have hholds : Holds world (some old) held := hsound.held
  cases hholds with
  | @heap _ _ _ log hkeeps =>
    obtain ⟨error, middle, heq, -⟩ | ⟨heap, middle, made, rest, -, hcreate, rfl, hplace⟩ :=
      init_cases hrun
    · cases heq
    cases hplace with
    | first hnone => cases hnone
    | @next _ given final ended hsame hended =>
      obtain rfl := Option.some.inj hsame
      obtain ⟨hbalanced, hout, hnodup⟩ :=
        (hkeeps.of_world middle).destruct hended (horderly log List.mem_cons_self)
      obtain ⟨-, hreleased, -⟩ := Heap.bases_of_destruct hended
      exact ⟨heap, middle, made, given, ended, log, hcreate, hended, rfl, rfl, rfl, hout, hbalanced,
        hreleased, hnodup⟩

/-- A supplier that comes back has nothing out. -/
theorem ended {answer : Except AllocError (Option κ)} (horderly : ∀ log ∈ logs.all, Orderly log)
    (hrun : HeapSlot.destruct slot = ⟨.ok answer, after, events⟩) :
    after.heap = none ∧ ∃ given, answer = .ok given ∧ given.isSome = slot.isInitialized ∧
      given.isSome = logs.held.isSome ∧
      ∀ log ∈ logs.held, outstanding (log ++ events) = [] ∧ Balanced (log ++ events) := by
  obtain ⟨past, held⟩ := logs
  obtain ⟨current, memory, world⟩ := slot
  have hholds : Holds world current held := hsound.held
  obtain ⟨hnone, rfl, rfl, -⟩ | ⟨heap, given, final, hheap, rfl, hended, rfl⟩ := destruct_cases hrun
  · obtain rfl : current = none := hnone
    cases hholds
    exact ⟨rfl, none, rfl, rfl, rfl, fun _ hlog ↦ by cases hlog⟩
  · obtain rfl : current = some heap := hheap
    cases hholds with
    | @heap _ _ _ log hkeeps =>
      refine ⟨rfl, some given, rfl, rfl, rfl, fun other hother ↦ ?_⟩
      obtain rfl : log = other := Option.some.inj hother
      obtain ⟨hbalanced, hout, -⟩ := hkeeps.destruct hended (horderly log List.mem_cons_self)
      exact ⟨hout, hbalanced⟩

end HeapSlot.Sound

namespace HeapSlot

/-- If no heap can be set up the slot is as before, and nothing is out at the supplier. -/
theorem refused_init [PageSupplier κ ω] {slot after : HeapSlot κ ω} {supplier : κ}
    {config : HeapConfig} {error : AllocError} {events : List Event} (horderly : Orderly events)
    (hrun : init supplier config slot = ⟨.ok (.error error), after, events⟩) :
    after.heap = slot.heap ∧ after.memory = slot.memory ∧ outstanding events = [] ∧
      Balanced events := by
  obtain ⟨error, world, -, hcreate, rfl⟩ | ⟨heap, world, made, rest, heq, -⟩ := init_cases hrun
  · have hensures := @Heap.ensures_create κ ω _ .orderly config supplier fun _ _ ↦ trivial
    obtain ⟨_, hstands⟩ := hensures.of_run hcreate ⟨trivial, rfl, balanced_nil⟩ horderly
    exact ⟨rfl, rfl, hstands.out_eq, hstands.balanced⟩
  · cases heq

end HeapSlot

namespace SlotRun

variable [PageSupplier κ ω] {slot : HeapSlot κ ω} {deeds : List (SlotDeed κ)} {logs : SlotLogs}

/-- There is a heap just if one was set up and none was ended since then, and of all suppliers that
were ever passed in its pages are all that is out. A heap that cannot be set up changes nothing
about the one there is. One that can be takes its place, and the old heap gives each page back once.
After the end nothing is out at the supplier that comes back. -/
theorem pages_accounted (hrun : SlotRun slot deeds logs)
    (horderly : ∀ log ∈ logs.all, Orderly log) :
    (slot.isInitialized = true ↔ SlotDeed.Initialized deeds) ∧
    ((logs.all.flatMap outstanding).map fun region ↦ (region.base, region.pageSize)).Perm
      slot.pages ∧
    (∀ log ∈ logs.all, Balanced log) ∧
    (∀ log ∈ logs.past, outstanding log = [] ∧ (suppliedBases log).Perm (releasedBases log)) ∧
    (∀ supplier config error after events,
      HeapSlot.init supplier config slot = ⟨.ok (.error error), after, events⟩ →
      Orderly events → after.heap = slot.heap ∧ after.memory = slot.memory ∧
        outstanding events = [] ∧ Balanced events) ∧
    (∀ supplier config after events old, slot.heap = some old →
      HeapSlot.init supplier config slot = ⟨.ok (.ok ()), after, events⟩ →
      ∃ heap middle made given ended log,
        Heap.create supplier config slot.world = ⟨.ok (.ok heap), middle, made⟩ ∧
        old.destruct middle = ⟨.ok (.ok given), after.world, ended⟩ ∧
        events = made ++ .noted .heapReplaced :: ended ∧ after.heap = some heap ∧
        logs.held = some log ∧ outstanding (log ++ ended) = [] ∧ Balanced (log ++ ended) ∧
        releasedBases ended = (old.layout.pages.toList.map fun entry ↦ entry.2.base) ∧
        (releasedBases ended).Nodup) ∧
    ∀ answer after events, HeapSlot.destruct slot = ⟨.ok answer, after, events⟩ →
      after.heap = none ∧ ∃ given, answer = .ok given ∧ given.isSome = slot.isInitialized ∧
        given.isSome = logs.held.isSome ∧
        ∀ log ∈ logs.held, outstanding (log ++ events) = [] ∧ Balanced (log ++ events) := by
  have hsound := hrun.sound horderly
  refine ⟨hrun.isInitialized_iff, hsound.out_perm, hsound.balanced, fun log hlog ↦ ?_,
    fun supplier config error after events hinit hevents ↦ HeapSlot.refused_init hevents hinit,
    fun supplier config after events old hold hinit ↦ hsound.replaced hold horderly hinit,
    fun answer after events hdestruct ↦ hsound.ended horderly hdestruct⟩
  obtain ⟨hbalanced, hout⟩ := hsound.past log hlog
  have hperm := hbalanced.perm
  rw [hout, List.map_nil, List.append_nil] at hperm
  exact ⟨hout, hperm⟩

/-- No heap can be set up, as its first page would lie at address zero. -/
def noHeap : Outcome (HeapSlot FrameSupplier FrameAllocator) Unit :=
  HeapSlot.init ⟨0⟩ {} { memory := .blank, world := SharedPool.newPool }

/-- A heap is set up on the same frames, which are seen elsewhere. -/
def firstHeap : Outcome (HeapSlot FrameSupplier FrameAllocator) Unit :=
  HeapSlot.init ⟨65536⟩ {} noHeap.state

/-- Another heap takes its place. -/
def secondHeap : Outcome (HeapSlot FrameSupplier FrameAllocator) Unit :=
  HeapSlot.init ⟨131072⟩ {} firstHeap.state

/-- The logs of the three suppliers, which share one pool of frames. -/
def sharedLogs : SlotLogs where
  past := [
    [.noted (.frameAllocated 0 2), .supplied 16384 ⟨65536, 16384⟩, .noted (.pageAdded 65536 16384),
      .noted .heapReplaced, .noted (.pageDropped 65536), .noted (.frameFreed 0 2),
      .released 65536],
    [.noted (.frameAllocated 0 2), .supplied 16384 ⟨0, 16384⟩, .noted (.regionMisaligned 0),
      .noted (.frameFreed 0 4), .released 0]]
  held := some [.noted (.frameAllocated 4 2), .supplied 16384 ⟨147456, 16384⟩,
    .noted (.pageAdded 147456 16384)]

theorem orderly_sharedLogs : ∀ log ∈ sharedLogs.all, Orderly log := by
  have hone : ∀ frame region after, region.base + region.size < Word.limit →
      (∀ event ∈ after, event.suppliedBase? = none) →
      Orderly (.noted (.frameAllocated frame 2) :: .supplied 16384 region :: after) := by
    intro frame region after hend hafter
    have hnotice : Orderly [.noted (.frameAllocated frame 2)] :=
      orderly_nil.append (by simp [Event.suppliedBase?])
    refine Orderly.append (hnotice.snoc fun size other heq ↦ ?_) hafter
    cases heq
    exact ⟨hend, fun _ hother ↦ absurd hother List.not_mem_nil⟩
  refine List.forall_mem_cons.mpr ⟨?_, List.forall_mem_cons.mpr ⟨?_,
    List.forall_mem_singleton.mpr ?_⟩⟩
  · exact hone 4 ⟨147456, 16384⟩ _ (by decide) (by decide)
  · exact hone 0 ⟨65536, 16384⟩ _ (by decide) (by decide)
  · exact hone 0 ⟨0, 16384⟩ _ (by decide) (by decide)

/-- On one pool of frames a heap is set up at the second attempt, and another one replaces it. Just
the page of the second heap is out then, and nothing when it ends. -/
theorem pages_accounted_of_shared_pool :
    SlotRun secondHeap.state [.init ⟨0⟩ {} (.error .misalignedRegion), .init ⟨65536⟩ {} (.ok ()),
      .init ⟨131072⟩ {} (.ok ())] sharedLogs ∧
    (∀ log ∈ sharedLogs.all, Orderly log) ∧ secondHeap.state.isInitialized = true ∧
    secondHeap.state.pages = [(147456, 16384)] ∧
    (∀ log ∈ sharedLogs.past, outstanding log = []) ∧
    ∃ after events,
      HeapSlot.destruct secondHeap.state = ⟨.ok (.ok (some ⟨131072⟩)), after, events⟩ ∧
      after.heap = none ∧ ∀ log ∈ sharedLogs.held, outstanding (log ++ events) = [] := by
  have hrefused : noHeap.answer = .ok (.error .misalignedRegion) := by decide +kernel
  have hfirst : firstHeap.answer = .ok (.ok ()) := by decide +kernel
  have hsecond : secondHeap.answer = .ok (.ok ()) := by decide +kernel
  have hend : (HeapSlot.destruct secondHeap.state).answer = .ok (.ok (some ⟨131072⟩)) := by
    decide +kernel
  have hpages : secondHeap.state.pages = [(147456, 16384)] := by decide +kernel
  have hrefuses : (SlotDeed.init ⟨0⟩ {} (.error .misalignedRegion)).Happens
      ({ memory := .blank, world := SharedPool.newPool } : HeapSlot FrameSupplier FrameAllocator)
      noHeap.state noHeap.events := Outcome.eq_of_answer hrefused rfl
  have hmakes : (SlotDeed.init ⟨65536⟩ {} (.ok ())).Happens noHeap.state firstHeap.state
      firstHeap.events := Outcome.eq_of_answer hfirst rfl
  have hreplaces : (SlotDeed.init ⟨131072⟩ {} (.ok ())).Happens firstHeap.state secondHeap.state
      secondHeap.events := Outcome.eq_of_answer hsecond rfl
  have hlogs : SlotLogs.after ⟨[noHeap.events], some firstHeap.events⟩ firstHeap.state
      secondHeap.events (.init (⟨131072⟩ : FrameSupplier) {} (.ok ())) = sharedLogs := by
    decide +kernel
  have hnone := (SlotRun.empty Memory.blank SharedPool.newPool).called hrefuses
  have hrun := (hnone.called hmakes).called hreplaces
  change SlotRun _ _ (SlotLogs.after ⟨[noHeap.events], some firstHeap.events⟩ _ _ _) at hrun
  rw [hlogs] at hrun
  obtain ⟨hinit, hperm, -, hpast, -, -, hends⟩ := pages_accounted hrun orderly_sharedLogs
  have hended := Outcome.eq_of_answer hend rfl
  obtain ⟨hnone, given, -, -, -, hout⟩ := hends _ _ _ hended
  refine ⟨hrun, orderly_sharedLogs, hinit.mpr ?_, hpages, fun log hlog ↦ (hpast log hlog).1, _, _,
    hended, hnone, fun log hlog ↦ (hout log hlog).1⟩
  exact ⟨_, _, [], rfl, ⟨_, _, rfl⟩, fun _ hother ↦ absurd hother List.not_mem_nil⟩

end SlotRun

end KernelMemory
