import KernelMemory.Proofs.Rings
import Mathlib.Dynamics.PeriodicPts.Lemmas

/-!
# Runs of splices

The ring of a node is the cycle of the nodes that its links lead through (`Rings.ring`). On rings
whose links are mutual a walk from any node comes back to it, and on its way it comes to every other
node of the ring once (`Rings.Mutual.exists_path`). An insertion puts a node that stands alone next
to another one on the ring of that, a removal takes one node out, and the links of all other rings
stay as they are.

All of this holds after any run of splices with indices in range that starts from nodes that stand
alone (`RingRun.rings_stay_rings`).
-/

set_option autoImplicit false
set_option relaxedAutoImplicit false

namespace KernelMemory

namespace Rings

/-- The nodes that the links lead through from a node back to it. -/
noncomputable def ring (rings : Rings) (node : Nat) : Cycle Nat :=
  Function.periodicOrbit rings.next node

/-! ### Paths and cycles -/

/-- A path leads through what comes of the first node by the link. -/
theorem Path.eq_iterates {next : Nat → Nat} {first last : Nat} {nodes : List Nat}
    (hpath : Path next first nodes last) :
    nodes = (List.range nodes.length).map (fun steps ↦ next^[steps + 1] first) ∧
      next^[nodes.length + 1] first = last := by
  induction nodes generalizing first with
  | nil => exact ⟨rfl, hpath⟩
  | cons node nodes ih =>
    obtain ⟨rfl, hrest⟩ := hpath
    obtain ⟨hnodes, hlast⟩ := ih hrest
    refine ⟨?_, hlast⟩
    rw [List.length_cons, List.range_succ_eq_map, List.map_cons, List.map_map]
    exact congrArg (List.cons (next first)) hnodes

theorem path_iterates (next : Nat → Nat) (first count : Nat) :
    Path next first ((List.range count).map fun steps ↦ next^[steps + 1] first)
      (next^[count + 1] first) := by
  induction count generalizing first with
  | zero => exact rfl
  | succ count ih =>
    rw [List.range_succ_eq_map, List.map_cons, List.map_map]
    exact ⟨rfl, ih (next first)⟩

/-- A path is made of two that meet at a node. -/
theorem path_append_iff {next : Nat → Nat} {first middle last : Nat} {nodes more : List Nat} :
    Path next first (nodes ++ middle :: more) last ↔
      Path next first nodes middle ∧ Path next middle more last := by
  induction nodes generalizing first with
  | nil => exact Iff.rfl
  | cons node nodes ih =>
    rw [List.cons_append, Path, ih, Path, and_assoc]

/-- Where the links to the end lead to another node, so does the path. -/
theorem Path.retarget {next after : Nat → Nat} {first last target : Nat} {nodes : List Nat}
    (hpath : Path next first nodes last) (hlast : last ∉ nodes)
    (hafter : ∀ node ∈ first :: nodes,
      after node = if next node = last then target else next node) :
    Path after first nodes target := by
  induction nodes generalizing first with
  | nil => exact (hafter first List.mem_cons_self).trans (if_pos hpath)
  | cons node nodes ih =>
    obtain ⟨rfl, hrest⟩ := hpath
    rw [List.mem_cons, not_or] at hlast
    refine ⟨(hafter first List.mem_cons_self).trans (if_neg (Ne.symm hlast.1)), ?_⟩
    exact ih hrest hlast.2 fun other hother ↦ hafter other (List.mem_cons_of_mem _ hother)

variable {rings after : Rings} {anchor head index node : Nat} {nodes : List Nat}

/-- A path back to its first node is the ring of the node. -/
theorem ring_eq_of_path (hpath : Path rings.next head nodes head) (hnodup : (head :: nodes).Nodup) :
    rings.ring head = ↑(head :: nodes) := by
  obtain ⟨hnodes, hback⟩ := hpath.eq_iterates
  have hperiod : Function.minimalPeriod rings.next head = nodes.length + 1 := by
    refine Nat.le_antisymm (Function.IsPeriodicPt.minimalPeriod_le (Nat.succ_pos _) hback) ?_
    by_contra hshort
    have hpos := Function.IsPeriodicPt.minimalPeriod_pos (Nat.succ_pos _) hback
    obtain ⟨steps, hsteps⟩ := Nat.exists_eq_add_of_le' hpos
    refine (List.nodup_cons.mp hnodup).1 ?_
    rw [hnodes, List.mem_map]
    refine ⟨steps, List.mem_range.mpr (by omega), ?_⟩
    rw [← hsteps]
    exact Function.iterate_minimalPeriod
  unfold ring
  rw [Function.periodicOrbit_def, hperiod, List.range_succ_eq_map, List.map_cons, List.map_map]
  exact congrArg (fun nodes : List Nat ↦ ((head :: nodes : List Nat) : Cycle Nat)) hnodes.symm

/-- A walk of any length comes to the first nodes of the path, and to no more than all of them. -/
theorem membersFrom_eq_take {first : Nat} (hpath : Path rings.next first nodes head)
    (hhead : head ∉ nodes) (hsize : ∀ node ∈ first :: nodes, node < rings.size) (count : Nat) :
    rings.membersFrom head count first = .ok (nodes.take count) := by
  induction nodes generalizing first count with
  | nil =>
    cases count with
    | zero => rfl
    | succ count =>
      have hlink : (rings.view first).next = head := hpath
      simp only [membersFrom, node_eq (hsize first List.mem_cons_self), ok_bind, if_pos hlink,
        pure_eq_ok, List.take_nil]
  | cons node nodes ih =>
    cases count with
    | zero => rfl
    | succ count =>
      have hlink : (rings.view first).next = node := hpath.1
      rw [List.mem_cons, not_or] at hhead
      have hrest := ih hpath.2 hhead.2
        (fun other hother ↦ hsize other (List.mem_cons_of_mem _ hother)) count
      simp only [membersFrom, node_eq (hsize first List.mem_cons_self), ok_bind, hlink,
        if_neg (Ne.symm hhead.1), hrest, pure_eq_ok, List.take_succ_cons]

namespace Mutual

variable (hrings : rings.Mutual)

include hrings

/-- The links lead from every node back to it. -/
theorem mem_periodicPts (head : Nat) : head ∈ Function.periodicPts rings.next := by
  by_cases hhead : head < rings.size
  · let step : Fin rings.size → Fin rings.size :=
      fun node ↦ ⟨rings.next node, hrings.next_lt node.2⟩
    have hstep : Function.Injective step := fun first second heq ↦
      Fin.ext (hrings.next_inj (congrArg Fin.val heq))
    have hsemi : Function.Semiconj Fin.val step rings.next := fun _ ↦ rfl
    exact hsemi.mapsTo_periodicPts (hstep.mem_periodicPts ⟨head, hhead⟩)
  · refine Function.mk_mem_periodicPts Nat.one_pos ?_
    show rings.next head = head
    rw [next, view_of_size_le (Nat.le_of_not_lt hhead), RingNode.alone]

/-- From every node a path without repetition leads back to it. -/
theorem exists_path (head : Nat) :
    ∃ nodes, Path rings.next head nodes head ∧ (head :: nodes).Nodup := by
  have hpos := Function.minimalPeriod_pos_of_mem_periodicPts (hrings.mem_periodicPts head)
  obtain ⟨count, hcount⟩ := Nat.exists_eq_add_of_le' hpos
  have hpath := path_iterates rings.next head count
  rw [← hcount, Function.iterate_minimalPeriod] at hpath
  refine ⟨_, hpath, ?_⟩
  have hnodup : (Function.periodicOrbit rings.next head).Nodup := Function.nodup_periodicOrbit
  rwa [Function.periodicOrbit_def, hcount, List.range_succ_eq_map, List.map_cons, List.map_map,
    Cycle.nodup_coe_iff] at hnodup

theorem mem_ring_iff : node ∈ rings.ring head ↔ rings.ring node = rings.ring head := by
  constructor
  · intro hmem
    obtain ⟨steps, rfl⟩ :=
      (Function.mem_periodicOrbit_iff (hrings.mem_periodicPts head)).mp hmem
    exact Function.periodicOrbit_apply_iterate_eq (hrings.mem_periodicPts head) steps
  · intro hsame
    rw [← hsame]
    exact Function.self_mem_periodicOrbit (hrings.mem_periodicPts node)

theorem ring_next (node : Nat) : rings.ring (rings.next node) = rings.ring node :=
  Function.periodicOrbit_apply_eq (hrings.mem_periodicPts node)

theorem ring_prev (node : Nat) : rings.ring (rings.prev node) = rings.ring node := by
  rw [← hrings.ring_next (rings.prev node), hrings.next_prev]

theorem mem_iff_of_path (hpath : Path rings.next head nodes head)
    (hnodup : (head :: nodes).Nodup) :
    node ∈ head :: nodes ↔ rings.ring node = rings.ring head := by
  rw [← hrings.mem_ring_iff, ring_eq_of_path hpath hnodup, Cycle.mem_coe_iff]

/-- A node that stands alone is all of its ring. -/
theorem eq_of_ring_eq (halone : rings.next index = index)
    (hsame : rings.ring node = rings.ring index) : node = index := by
  have hpath : Path rings.next index [] index := halone
  exact List.mem_singleton.mp
    ((hrings.mem_iff_of_path hpath (List.nodup_singleton index)).mpr hsame)

/-- A node that stands alone is on no path of others. -/
theorem notMem_of_alone (hpath : Path rings.next head nodes head) (hnodup : (head :: nodes).Nodup)
    (halone : rings.next index = index) (hne : head ≠ index) : index ∉ head :: nodes := fun hmem ↦
  hne (hrings.eq_of_ring_eq halone ((hrings.mem_iff_of_path hpath hnodup).mp hmem).symm)

theorem isAlone_eq_false_iff (hindex : index < rings.size) :
    rings.isAlone index = .ok false ↔ rings.next index ≠ index := by
  rw [isAlone_eq hindex, Except.ok.injEq, beq_eq_false_iff_ne, Ne, hrings.view_eq_alone_iff]

/-- The nodes of a ring are there if one of them is. -/
theorem lt_of_path (hpath : Path rings.next head nodes head) (hnodup : (head :: nodes).Nodup)
    (hhead : head < rings.size) (hnode : node ∈ head :: nodes) : node < rings.size := by
  by_contra hbeyond
  have halone : rings.next node = node := by
    rw [next, view_of_size_le (Nat.le_of_not_lt hbeyond), RingNode.alone]
  have hsame := (hrings.mem_iff_of_path hpath hnodup).mp hnode
  have heq := hrings.eq_of_ring_eq halone hsame.symm
  omega

theorem firstMembers_eq (hpath : Path rings.next head nodes head) (hnodup : (head :: nodes).Nodup)
    (hhead : head < rings.size) (count : Nat) :
    rings.firstMembers head count = .ok (nodes.take count) := by
  simp only [firstMembers, node_eq hhead, ok_bind]
  exact membersFrom_eq_take hpath (List.nodup_cons.mp hnodup).1
    (fun _ hnode ↦ hrings.lt_of_path hpath hnodup hhead hnode) count

end Mutual

/-! ### What splices do to the rings -/

/-- All rings but those of the two nodes have the same links as before. -/
def KeepsOthers (before after : Rings) (index anchor : Nat) : Prop :=
  ∀ node < before.size, before.ring node ≠ before.ring index →
    before.ring node ≠ before.ring anchor →
    after.node node = before.node node ∧ after.ring node = before.ring node

/-- Rings on which no link is changed stay. -/
theorem keepsOthers_of_next (hrings : rings.Mutual) (hafter : after.Mutual)
    (hsize : after.size = rings.size)
    (hnext : ∀ node, rings.ring node ≠ rings.ring index → rings.ring node ≠ rings.ring anchor →
      after.next node = rings.next node) : rings.KeepsOthers after index anchor := by
  intro node hnode hindex hanchor
  have hprevRing := hrings.ring_prev node
  have hnextPrev : after.next (rings.prev node) = node := by
    rw [hnext _ (hprevRing ▸ hindex) (hprevRing ▸ hanchor), hrings.next_prev]
  have hview : after.view node = rings.view node :=
    (RingNode.mk.injEq ..).mpr ⟨hnext node hindex hanchor, hafter.next_eq_iff.mp hnextPrev⟩
  refine ⟨?_, ?_⟩
  · rw [node_eq hnode, node_eq (hsize.symm ▸ hnode), hview]
  · obtain ⟨nodes, hpath, hnodup⟩ := hrings.exists_path node
    rw [ring_eq_of_path hpath hnodup]
    refine ring_eq_of_path (hpath.congr fun other hother ↦ ?_) hnodup
    have hsame := (hrings.mem_iff_of_path hpath hnodup).mp hother
    exact hnext other (hsame ▸ hindex) (hsame ▸ hanchor)

namespace Mutual

section Faults

variable (hrings : rings.Mutual) (hindex : index < rings.size)

include hrings hindex

/-- An insertion faults just if the node is the anchor or does not stand alone. -/
theorem insertAfter_faults_iff (hanchor : anchor < rings.size) :
    (∃ fault, rings.insertAfter anchor index = .error fault) ↔
      anchor = index ∨ rings.next index ≠ index := by
  constructor
  · rintro ⟨fault, hfault⟩
    by_contra hboth
    obtain ⟨hne, halone⟩ := not_or.mp hboth
    obtain ⟨after, hafter, -⟩ :=
      hrings.insertAfter_eq hanchor hindex hne (Classical.not_not.mp halone)
    rw [hfault] at hafter
    cases hafter
  · intro hbad
    by_cases hsame : anchor = index
    · refine ⟨.insertedAfterItself, ?_⟩
      unfold insertAfter
      rw [if_pos hsame]
      rfl
    · have hlinked := (hrings.isAlone_eq_false_iff hindex).mpr (hbad.resolve_left hsame)
      refine ⟨.alreadyLinked index, ?_⟩
      unfold insertAfter
      rw [if_neg hsame, hlinked]
      rfl

omit hrings hindex in
theorem insertBefore_eq (hanchor : anchor < rings.size) :
    rings.insertBefore anchor index = rings.insertAfter (rings.prev anchor) index := by
  simp only [insertBefore, node_eq hanchor, ok_bind, prev]

/-- The node before the anchor is the node itself only if that is linked. -/
theorem insertBefore_faults_iff (hanchor : anchor < rings.size) :
    (∃ fault, rings.insertBefore anchor index = .error fault) ↔
      anchor = index ∨ rings.next index ≠ index := by
  rw [insertBefore_eq hanchor, hrings.insertAfter_faults_iff hindex (hrings.prev_lt hanchor)]
  by_cases halone : rings.next index = index
  · rw [← hrings.next_eq_iff, halone, eq_comm]
  · simp only [halone, not_false_eq_true, Ne, or_true]

end Faults

section Splices

variable (hrings : rings.Mutual)

include hrings

/-- The node comes directly after the anchor. -/
theorem ring_insertAfter (hne : anchor ≠ index) (halone : rings.next index = index)
    (hnext : ∀ node, after.next node =
      if node = index then rings.next anchor else if node = anchor then index
      else rings.next node) :
    ∃ nodes, rings.ring anchor = ↑(anchor :: nodes) ∧
      after.ring anchor = ↑(anchor :: index :: nodes) := by
  obtain ⟨nodes, hpath, hnodup⟩ := hrings.exists_path anchor
  have hnotMem := hrings.notMem_of_alone hpath hnodup halone hne
  have hanchor := (List.nodup_cons.mp hnodup).1
  refine ⟨nodes, ring_eq_of_path hpath hnodup,
    ring_eq_of_path (hpath.cons hnext hnotMem hanchor) ?_⟩
  exact (List.Perm.swap _ _ nodes).nodup (List.nodup_cons.mpr ⟨hnotMem, hnodup⟩)

/-- The node comes directly before the anchor, after all others. -/
theorem ring_insertBefore (hne : anchor ≠ index) (halone : rings.next index = index)
    (hnext : ∀ node, after.next node =
      if node = index then anchor else if node = rings.prev anchor then index
      else rings.next node) :
    ∃ nodes, rings.ring anchor = ↑(anchor :: nodes) ∧
      after.ring anchor = ↑(index :: anchor :: nodes) := by
  obtain ⟨nodes, hpath, hnodup⟩ := hrings.exists_path anchor
  have hnotMem := hrings.notMem_of_alone hpath hnodup halone hne
  have hlonger : Path after.next anchor (nodes ++ [index]) anchor := by
    rcases List.eq_nil_or_concat nodes with rfl | ⟨earlier, last, rfl⟩
    · have hprev : rings.prev anchor = anchor := hrings.next_eq_iff.mp hpath
      refine ⟨?_, ?_⟩
      · rw [hnext, if_neg hne, if_pos hprev.symm]
      · exact (hnext index).trans (if_pos rfl)
    · rw [List.concat_eq_append] at hpath hnodup hnotMem ⊢
      obtain ⟨hstart, hend⟩ := path_append_iff.mp hpath
      have hprev : rings.prev anchor = last := hrings.next_eq_iff.mp hend
      have hlast : last ≠ index := fun heq ↦ hnotMem (by simp [heq])
      rw [List.append_assoc]
      refine path_append_iff.mpr ⟨hstart.congr fun node hnode ↦ ?_, ?_, ?_⟩
      · have hnodeIndex : node ≠ index := fun heq ↦
          hnotMem (List.mem_append_left [last] (heq ▸ hnode))
        have hnodeLast : node ≠ last := by
          rintro rfl
          rw [← List.cons_append, List.nodup_append'] at hnodup
          exact hnodup.2.2 hnode (List.mem_singleton_self node)
        rw [hnext, if_neg hnodeIndex, hprev, if_neg hnodeLast]
      · rw [hnext, if_neg hlast, if_pos hprev.symm]
      · exact (hnext index).trans (if_pos rfl)
  refine ⟨nodes, ring_eq_of_path hpath hnodup, ?_⟩
  rw [Cycle.coe_cons_eq_coe_append]
  refine ring_eq_of_path hlonger ?_
  exact (List.perm_append_singleton index (anchor :: nodes)).symm.nodup
    (List.nodup_cons.mpr ⟨hnotMem, hnodup⟩)

/-- The node stands alone, and the others of its ring follow each other as before. -/
theorem ring_remove (hafter : after.Mutual)
    (hnext : ∀ node, after.next node =
      if node = index then index else if rings.next node = index then rings.next index
      else rings.next node) :
    ∃ nodes, rings.ring index = ↑(index :: nodes) ∧ after.ring index = ↑[index] ∧
      ∀ node ∈ nodes, after.ring node = ↑nodes := by
  obtain ⟨nodes, hpath, hnodup⟩ := hrings.exists_path index
  have halone : Path after.next index [] index := (hnext index).trans (if_pos rfl)
  refine ⟨nodes, ring_eq_of_path hpath hnodup, ring_eq_of_path halone (List.nodup_singleton index),
    ?_⟩
  obtain ⟨hindex, hrest⟩ := List.nodup_cons.mp hnodup
  cases nodes with
  | nil => exact fun node hnode ↦ absurd hnode List.not_mem_nil
  | cons first nodes =>
    obtain ⟨hfirst, hlater⟩ := hpath
    have hnotMem : index ∉ nodes := fun hmem ↦ hindex (List.mem_cons_of_mem _ hmem)
    have hshorter : Path after.next first nodes first := hlater.retarget hnotMem fun node hnode ↦ by
      have hne : node ≠ index := fun heq ↦ hindex (heq ▸ hnode)
      rw [hnext, if_neg hne, hfirst]
    intro node hnode
    rw [← ring_eq_of_path hshorter hrest]
    exact (hafter.mem_iff_of_path hshorter hrest).mp hnode

/-! ### Single splices -/

theorem of_insertAfter (hanchor : anchor < rings.size) (hindex : index < rings.size)
    (hinsert : rings.insertAfter anchor index = .ok after) :
    after.size = rings.size ∧ after.Mutual ∧ anchor ≠ index ∧ rings.next index = index ∧
      ∀ node, after.next node =
        if node = index then rings.next anchor else if node = anchor then index
        else rings.next node := by
  have hnone : ¬ ∃ fault, rings.insertAfter anchor index = .error fault := by
    rintro ⟨fault, hfault⟩
    rw [hfault] at hinsert
    cases hinsert
  rw [hrings.insertAfter_faults_iff hindex hanchor, not_or, not_not] at hnone
  obtain ⟨done, hdone, hsize, hmutual, hnext⟩ :=
    hrings.insertAfter_eq hanchor hindex hnone.1 hnone.2
  obtain rfl : done = after := Except.ok.inj (hdone.symm.trans hinsert)
  exact ⟨hsize, hmutual, hnone.1, hnone.2, hnext⟩

theorem insertAfter_spec (hanchor : anchor < rings.size) (hindex : index < rings.size)
    (hinsert : rings.insertAfter anchor index = .ok after) :
    rings.KeepsOthers after index anchor ∧ ∃ nodes, rings.ring anchor = ↑(anchor :: nodes) ∧
      after.ring anchor = ↑(anchor :: index :: nodes) := by
  obtain ⟨hsize, hmutual, hne, halone, hnext⟩ := hrings.of_insertAfter hanchor hindex hinsert
  refine ⟨keepsOthers_of_next hrings hmutual hsize fun node hnode hother ↦ ?_,
    hrings.ring_insertAfter hne halone hnext⟩
  rw [hnext, if_neg fun heq ↦ hnode (congrArg rings.ring heq),
    if_neg fun heq ↦ hother (congrArg rings.ring heq)]

theorem insertBefore_spec (hanchor : anchor < rings.size) (hindex : index < rings.size)
    (hinsert : rings.insertBefore anchor index = .ok after) :
    rings.KeepsOthers after index anchor ∧ ∃ nodes, rings.ring anchor = ↑(anchor :: nodes) ∧
      after.ring anchor = ↑(index :: anchor :: nodes) := by
  rw [insertBefore_eq hanchor] at hinsert
  obtain ⟨hsize, hmutual, hne, halone, hnext⟩ :=
    hrings.of_insertAfter (hrings.prev_lt hanchor) hindex hinsert
  rw [hrings.next_prev] at hnext
  have hneAnchor : anchor ≠ index := by
    rintro rfl
    exact hne (hrings.next_eq_iff.mp halone)
  refine ⟨keepsOthers_of_next hrings hmutual hsize fun node hnode hother ↦ ?_,
    hrings.ring_insertBefore hneAnchor halone hnext⟩
  rw [hnext, if_neg fun heq ↦ hnode (congrArg rings.ring heq), if_neg]
  rintro rfl
  exact hother (hrings.ring_prev anchor)

theorem remove_spec (hindex : index < rings.size) :
    ∃ after nodes, rings.remove index = .ok after ∧ rings.KeepsOthers after index index ∧
      rings.ring index = ↑(index :: nodes) ∧ after.isAlone index = .ok true ∧
      after.ring index = ↑[index] ∧ ∀ node ∈ nodes, after.ring node = ↑nodes := by
  obtain ⟨after, hremove, hsize, hmutual, hnext⟩ := hrings.remove_eq hindex
  obtain ⟨nodes, hring, hself, hothers⟩ := hrings.ring_remove hmutual hnext
  have halone : after.next index = index := (hnext index).trans (if_pos rfl)
  refine ⟨after, nodes, hremove, keepsOthers_of_next hrings hmutual hsize fun node hnode _ ↦ ?_,
    hring, ?_, hself, hothers⟩
  · rw [hnext, if_neg fun heq ↦ hnode (congrArg rings.ring heq), if_neg]
    rintro rfl
    exact hnode (hrings.ring_next node).symm
  · rw [isAlone_eq (hsize.symm ▸ hindex), hmutual.view_eq_alone_iff.mpr halone, beq_self_eq_true]

end Splices

end Mutual

/-- A node that stands alone is the same after a reset. -/
theorem reset_eq (halone : rings.isAlone index = .ok true) : rings.reset index = .ok rings := by
  by_cases hindex : index < rings.size
  · rw [isAlone_eq hindex, Except.ok.injEq, beq_iff_eq] at halone
    have hnode : rings.nodes[index]? = some (.alone index) := by
      rw [← halone, view, Array.getElem?_eq_getElem hindex, Option.getD_some]
    unfold reset set
    rw [if_pos hindex]
    refine congrArg (fun nodes ↦ Except.ok (Rings.mk nodes)) (Array.ext_getElem? fun other ↦ ?_)
    by_cases hother : other = index
    · rw [hother, Array.getElem?_setIfInBounds_self_of_lt hindex, hnode]
    · rw [Array.getElem?_setIfInBounds_ne (Ne.symm hother)]
  · have hnone : rings.nodes[index]? = none := Array.getElem?_eq_none (Nat.le_of_not_lt hindex)
    simp only [isAlone, node, hnone, error_bind] at halone
    cases halone

/-- The links of the nodes are a permutation and its inverse, so that every node is on one ring, and
a walk from any node comes to all others of its ring, each once, and to its end. -/
structure WellLinked (rings : Rings) : Prop where
  order : ∃ order : Equiv.Perm Nat, ∀ index < rings.size,
    rings.node index = .ok ⟨order index, order.symm index⟩ ∧
      order index < rings.size ∧ order.symm index < rings.size
  mem_ring_iff : ∀ head node, node ∈ rings.ring head ↔ rings.ring node = rings.ring head
  walk : ∀ head < rings.size, ∃ nodes, rings.ring head = ↑(head :: nodes) ∧
    (head :: nodes).Nodup ∧ rings.members head = .ok nodes ∧
    ∀ count, rings.firstMembers head count = .ok (nodes.take count)

theorem Mutual.wellLinked (hrings : rings.Mutual) : rings.WellLinked where
  order := ⟨⟨rings.next, rings.prev, hrings.prev_next, hrings.next_prev⟩, fun _ hindex ↦
    ⟨node_eq hindex, hrings.next_lt hindex, hrings.prev_lt hindex⟩⟩
  mem_ring_iff := fun _ _ ↦ hrings.mem_ring_iff
  walk := fun head hhead ↦ by
    obtain ⟨nodes, hpath, hnodup⟩ := hrings.exists_path head
    refine ⟨nodes, ring_eq_of_path hpath hnodup, hnodup, ?_,
      hrings.firstMembers_eq hpath hnodup hhead⟩
    have hlength : (head :: nodes).length ≤ rings.size := by
      rw [← List.length_range (n := rings.size)]
      refine (List.subperm_of_subset hnodup fun node hnode ↦ ?_).length_le
      exact List.mem_range.mpr (hrings.lt_of_path hpath hnodup hhead hnode)
    rw [members, hrings.firstMembers_eq hpath hnodup hhead, List.take_of_length_le]
    exact (Nat.le_succ _).trans hlength

end Rings

/-! ### Runs -/

/-- A splice, or the reset of a node. -/
inductive RingDeed
  | insertAfter (anchor index : Nat)
  | insertBefore (anchor index : Nat)
  | remove (index : Nat)
  | reset (index : Nat)

namespace RingDeed

def act (rings : Rings) : RingDeed → Except Fault Rings
  | insertAfter anchor index => rings.insertAfter anchor index
  | insertBefore anchor index => rings.insertBefore anchor index
  | remove index => rings.remove index
  | reset index => rings.reset index

/-- The nodes are there, and one that is reset stands alone. -/
def Allowed (rings : Rings) : RingDeed → Prop
  | insertAfter anchor index | insertBefore anchor index => anchor < rings.size ∧ index < rings.size
  | remove index => index < rings.size
  | reset index => rings.isAlone index = .ok true

instance (rings : Rings) : (deed : RingDeed) → Decidable (deed.Allowed rings)
  | insertAfter anchor index | insertBefore anchor index =>
    inferInstanceAs (Decidable (anchor < rings.size ∧ index < rings.size))
  | remove index => inferInstanceAs (Decidable (index < rings.size))
  | reset index => inferInstanceAs (Decidable (rings.isAlone index = .ok true))

end RingDeed

/-- Nodes that all stand alone, and deeds that come to their end. -/
inductive RingRun (count : Nat) : Rings → Prop
  | alone : RingRun count (.alone count)
  | step {rings after : Rings} (deed : RingDeed) (hrun : RingRun count rings)
      (hallowed : deed.Allowed rings) (hdeed : deed.act rings = .ok after) : RingRun count after

/-- Every deed keeps the links mutual. -/
theorem RingDeed.links_mutual {rings after : Rings} {deed : RingDeed} (hrings : rings.Mutual)
    (hallowed : deed.Allowed rings) (hdeed : deed.act rings = .ok after) :
    after.size = rings.size ∧ after.Mutual := by
  cases deed with
  | insertAfter anchor index =>
    obtain ⟨hsize, hmutual, -⟩ := hrings.of_insertAfter hallowed.1 hallowed.2 hdeed
    exact ⟨hsize, hmutual⟩
  | insertBefore anchor index =>
    have hinsert : rings.insertBefore anchor index = .ok after := hdeed
    rw [Rings.Mutual.insertBefore_eq hallowed.1] at hinsert
    obtain ⟨hsize, hmutual, -⟩ :=
      hrings.of_insertAfter (hrings.prev_lt hallowed.1) hallowed.2 hinsert
    exact ⟨hsize, hmutual⟩
  | remove index =>
    obtain ⟨done, hdone, hsize, hmutual, -⟩ := hrings.remove_eq hallowed
    obtain rfl : done = after := Except.ok.inj (hdone.symm.trans hdeed)
    exact ⟨hsize, hmutual⟩
  | reset index =>
    obtain rfl : rings = after :=
      Except.ok.inj ((Rings.reset_eq hallowed).symm.trans hdeed)
    exact ⟨rfl, hrings⟩

namespace RingRun

variable {count : Nat} {rings : Rings}

theorem links_mutual (hrun : RingRun count rings) : rings.size = count ∧ rings.Mutual := by
  induction hrun with
  | alone => exact ⟨Rings.size_alone count, Rings.mutual_alone count⟩
  | step deed _ hallowed hdeed ih =>
    obtain ⟨hsize, hmutual⟩ := RingDeed.links_mutual ih.2 hallowed hdeed
    exact ⟨hsize.trans ih.1, hmutual⟩

/-- After any run all nodes are on rings. An insertion faults just if the node is the anchor or does
not stand alone; it puts the node directly after or before the anchor. A removal takes the node out
of its ring, and neither changes a ring that it has nothing to do with. -/
theorem rings_stay_rings (hrun : RingRun count rings) :
    rings.size = count ∧ rings.WellLinked ∧
    (∀ anchor < count, ∀ index < count,
      ((∃ fault, rings.insertAfter anchor index = .error fault) ↔
        index = anchor ∨ rings.isAlone index = .ok false) ∧
      ((∃ fault, rings.insertBefore anchor index = .error fault) ↔
        index = anchor ∨ rings.isAlone index = .ok false) ∧
      (∀ after, rings.insertAfter anchor index = .ok after →
        rings.KeepsOthers after index anchor ∧ ∃ nodes, rings.ring anchor = ↑(anchor :: nodes) ∧
          after.ring anchor = ↑(anchor :: index :: nodes)) ∧
      ∀ after, rings.insertBefore anchor index = .ok after →
        rings.KeepsOthers after index anchor ∧ ∃ nodes, rings.ring anchor = ↑(anchor :: nodes) ∧
          after.ring anchor = ↑(index :: anchor :: nodes)) ∧
    ∀ index < count, ∃ after nodes, rings.remove index = .ok after ∧
      rings.KeepsOthers after index index ∧ rings.ring index = ↑(index :: nodes) ∧
      after.isAlone index = .ok true ∧ after.ring index = ↑[index] ∧
      ∀ node ∈ nodes, after.ring node = ↑nodes := by
  obtain ⟨rfl, hrings⟩ := hrun.links_mutual
  refine ⟨rfl, hrings.wellLinked, fun anchor hanchor index hindex ↦ ⟨?_, ?_, ?_, ?_⟩,
    fun index hindex ↦ hrings.remove_spec hindex⟩
  · rw [hrings.insertAfter_faults_iff hindex hanchor, hrings.isAlone_eq_false_iff hindex, eq_comm]
  · rw [hrings.insertBefore_faults_iff hindex hanchor, hrings.isAlone_eq_false_iff hindex, eq_comm]
  · exact fun after hinsert ↦ hrings.insertAfter_spec hanchor hindex hinsert
  · exact fun after hinsert ↦ hrings.insertBefore_spec hanchor hindex hinsert

/-- Two nodes are linked in after and before a third one, and the first of them is taken out again.
While it is linked it cannot be linked in again. -/
theorem rings_stay_rings_of_three : ∃ rings after : Rings, RingRun 4 rings ∧
    RingRun 4 after ∧ rings.members 0 = .ok [1, 2] ∧ after.members 0 = .ok [2] ∧
    rings.remove 1 = .ok after ∧ rings.KeepsOthers after 1 1 ∧
    ∃ fault, rings.insertBefore 3 1 = .error fault := by
  have hfirst : RingRun 4 ⟨#[⟨1, 1⟩, ⟨0, 0⟩, ⟨2, 2⟩, ⟨3, 3⟩]⟩ :=
    .step (.insertAfter 0 1) .alone (by decide) (by decide)
  have hsecond : RingRun 4 ⟨#[⟨1, 2⟩, ⟨2, 0⟩, ⟨0, 1⟩, ⟨3, 3⟩]⟩ :=
    .step (.insertBefore 0 2) hfirst (by decide) (by decide)
  obtain ⟨-, -, hinsert, hremove⟩ := rings_stay_rings hsecond
  obtain ⟨after, -, hafter, hkeeps, -⟩ := hremove 1 (by decide)
  obtain rfl : ⟨#[⟨2, 2⟩, ⟨1, 1⟩, ⟨0, 0⟩, ⟨3, 3⟩]⟩ = after :=
    Except.ok.inj (Eq.trans (by decide) hafter)
  exact ⟨_, _, hsecond, .step (.remove 1) hsecond (by decide) (by decide), by decide,
    by decide, hafter, hkeeps, (hinsert 3 (by decide) 1 (by decide)).2.1.mpr (.inr (by decide))⟩

end RingRun

end KernelMemory
