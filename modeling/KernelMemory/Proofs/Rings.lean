import KernelMemory.Proofs.Steps
import KernelMemory.Rings
import Mathlib.Data.List.Perm.Subperm
import Mathlib.Data.Set.List
import Mathlib.Order.Nat
import Mathlib.Tactic.SplitIfs

/-!
# Rings as linked lists

`Rings.view` reads a set of nodes as a function on all numbers, where a node that is not there
stands alone. The nodes are on rings when the node after the one before a node is that node again,
and the other way round (`Rings.Mutual`); the two splices, `insertAfter` and `remove`, change two
links and keep this.

`Rings.Holds` describes rings whose first nodes are the heads of lists: it names the members of
every list in their order, no node is on two lists, and whatever is on no list stands alone. Each
operation on a list is read off that description: an insertion adds a member in front
(`Holds.insertAfter`), a removal takes one out (`Holds.remove`), and a walk gives the members
(`Holds.members`).
-/

set_option autoImplicit false
set_option relaxedAutoImplicit false

namespace KernelMemory

namespace Rings

/-! ### Nodes as a function -/

/-- The node at an index; one that is not there stands alone. -/
def view (rings : Rings) (index : Nat) : RingNode :=
  (rings.nodes[index]?).getD (.alone index)

def next (rings : Rings) (index : Nat) : Nat := (rings.view index).next

def prev (rings : Rings) (index : Nat) : Nat := (rings.view index).prev

variable {rings : Rings} {index : Nat}

theorem node_eq (hindex : index < rings.size) : rings.node index = .ok (rings.view index) := by
  have hsome : rings.nodes[index]? = some rings.nodes[index] := Array.getElem?_eq_getElem hindex
  simp only [node, view, hsome, Option.getD_some]

theorem view_of_size_le (hindex : rings.size ≤ index) : rings.view index = .alone index := by
  have hnone : rings.nodes[index]? = none := Array.getElem?_eq_none hindex
  simp only [view, hnone, Option.getD_none]

/-- Writing a node changes its links alone. -/
theorem set_eq (hindex : index < rings.size) (node : RingNode) :
    ∃ after, rings.set index node = .ok after ∧ after.size = rings.size ∧
      after.next = Function.update rings.next index node.next ∧
      after.prev = Function.update rings.prev index node.prev := by
  have hsize : index < rings.nodes.size := hindex
  refine ⟨⟨rings.nodes.setIfInBounds index node⟩, ?_, ?_, ?_, ?_⟩
  · simp only [set, if_pos hindex]
  · simp only [size, Array.size_setIfInBounds]
  · funext other
    by_cases hother : other = index
    · subst hother
      simp [next, view, hsize]
    · simp [next, view, hother, Array.getElem?_setIfInBounds_ne (Ne.symm hother)]
  · funext other
    by_cases hother : other = index
    · subst hother
      simp [prev, view, hsize]
    · simp [prev, view, hother, Array.getElem?_setIfInBounds_ne (Ne.symm hother)]

theorem setNext_eq (hindex : index < rings.size) (target : Nat) :
    ∃ after, rings.setNext index target = .ok after ∧ after.size = rings.size ∧
      after.next = Function.update rings.next index target ∧ after.prev = rings.prev := by
  obtain ⟨after, hafter, hsize, hnext, hprev⟩ :=
    set_eq hindex { rings.view index with next := target }
  refine ⟨after, ?_, hsize, hnext, ?_⟩
  · simpa only [setNext, node_eq hindex, ok_bind] using hafter
  · rw [hprev]
    exact Function.update_eq_self index rings.prev

theorem setPrev_eq (hindex : index < rings.size) (target : Nat) :
    ∃ after, rings.setPrev index target = .ok after ∧ after.size = rings.size ∧
      after.next = rings.next ∧ after.prev = Function.update rings.prev index target := by
  obtain ⟨after, hafter, hsize, hnext, hprev⟩ :=
    set_eq hindex { rings.view index with prev := target }
  refine ⟨after, ?_, hsize, ?_, hprev⟩
  · simpa only [setPrev, node_eq hindex, ok_bind] using hafter
  · rw [hnext]
    exact Function.update_eq_self index rings.next

theorem isAlone_eq (hindex : index < rings.size) :
    rings.isAlone index = .ok (rings.view index == .alone index) := by
  simp only [isAlone, node_eq hindex, ok_bind, pure_eq_ok]

theorem first?_eq (hindex : index < rings.size) :
    rings.first? index =
      .ok (if rings.next index = index then none else some (rings.next index)) := by
  simp only [first?, node_eq hindex, ok_bind, pure_eq_ok, next]
  rfl

/-- Nodes that are added stand alone, so they do not show. -/
theorem view_extend (rings : Rings) (count : Nat) : (rings.extend count).view = rings.view := by
  funext index
  by_cases hold : index < rings.nodes.size
  · simp [view, extend, Array.getElem?_append_left hold]
  · have hnone : rings.nodes[index]? = none := Array.getElem?_eq_none (Nat.le_of_not_lt hold)
    simp only [view, extend, hnone, Option.getD_none,
      Array.getElem?_append_right (Nat.le_of_not_lt hold)]
    simp only [List.getElem?_toArray, List.getElem?_map]
    by_cases hnew : index - rings.nodes.size < count - rings.size
    · have hrange : rings.size + (index - rings.nodes.size) = index := by
        simp only [size]
        omega
      simp [hnew, hrange]
    · simp [List.getElem?_eq_none (l := List.range' rings.size (count - rings.size))
        (by simpa using hnew)]

theorem size_extend (rings : Rings) (count : Nat) :
    (rings.extend count).size = max rings.size count := by
  simp only [extend, size, Array.size_append, List.size_toArray, List.length_map,
    List.length_range']
  omega

theorem view_alone (count index : Nat) : (alone count).view index = .alone index := by
  by_cases hindex : index < count
  · simp [view, alone, hindex]
  · simp [view, alone, Nat.le_of_not_lt hindex]

theorem size_alone (count : Nat) : (alone count).size = count := by
  simp [alone, size]

/-! ### Splices -/

/-- The node after the one before a node is that node, and the other way round: every node is on
one ring. -/
structure Mutual (rings : Rings) : Prop where
  prev_next : ∀ index, rings.prev (rings.next index) = index
  next_prev : ∀ index, rings.next (rings.prev index) = index

theorem mutual_alone (count : Nat) : (alone count).Mutual where
  prev_next := fun index ↦ by simp [next, prev, view_alone, RingNode.alone]
  next_prev := fun index ↦ by simp [next, prev, view_alone, RingNode.alone]

theorem Mutual.extend (hrings : rings.Mutual) (count : Nat) : (rings.extend count).Mutual := by
  refine ⟨fun index ↦ ?_, fun index ↦ ?_⟩
  · simpa only [next, prev, view_extend] using hrings.prev_next index
  · simpa only [next, prev, view_extend] using hrings.next_prev index

namespace Mutual

variable (hrings : rings.Mutual)

include hrings

theorem next_eq_iff {first second : Nat} :
    rings.next first = second ↔ rings.prev second = first := by
  constructor
  · rintro rfl
    exact hrings.prev_next first
  · rintro rfl
    exact hrings.next_prev second

theorem next_inj {first second : Nat} (heq : rings.next first = rings.next second) :
    first = second := by
  rw [← hrings.prev_next first, heq, hrings.prev_next]

/-- Nodes that are there link to nodes that are there, as all others stand alone. -/
theorem next_lt (hindex : index < rings.size) : rings.next index < rings.size := by
  by_contra hbeyond
  have halone : rings.next (rings.next index) = rings.next index := by
    rw [next, view_of_size_le (Nat.le_of_not_lt hbeyond), RingNode.alone]
  have hsame := hrings.next_inj halone
  omega

theorem prev_lt (hindex : index < rings.size) : rings.prev index < rings.size := by
  by_contra hbeyond
  have halone : rings.next (rings.prev index) = rings.prev index := by
    rw [next, view_of_size_le (Nat.le_of_not_lt hbeyond), RingNode.alone]
  rw [hrings.next_prev] at halone
  omega

/-- A node whose next one is itself stands alone. -/
theorem view_eq_alone_iff : rings.view index = .alone index ↔ rings.next index = index := by
  constructor
  · intro hview
    rw [next, hview, RingNode.alone]
  · intro hnext
    have hprev : rings.prev index = index := hrings.next_eq_iff.mp hnext
    exact (RingNode.mk.injEq ..).mpr ⟨hnext, hprev⟩

/-- An insertion links a node that stands alone in after another one. -/
theorem insertAfter_eq {anchor : Nat} (hanchor : anchor < rings.size) (hindex : index < rings.size)
    (hne : anchor ≠ index) (halone : rings.next index = index) :
    ∃ after, rings.insertAfter anchor index = .ok after ∧ after.size = rings.size ∧ after.Mutual ∧
      ∀ node, after.next node =
        if node = index then rings.next anchor else if node = anchor then index
        else rings.next node := by
  have hview := hrings.view_eq_alone_iff.mpr halone
  have hnextNe : rings.next anchor ≠ index := fun heq ↦
    hne (hrings.next_inj (heq.trans halone.symm))
  obtain ⟨first, hfirst, hsizeFirst, hnextFirst, hprevFirst⟩ :=
    set_eq hindex { next := rings.next anchor, prev := anchor }
  have hnextLt : rings.next anchor < first.size := hsizeFirst ▸ hrings.next_lt hanchor
  obtain ⟨second, hsecond, hsizeSecond, hnextSecond, hprevSecond⟩ := setPrev_eq hnextLt index
  have hanchorLt : anchor < second.size := hsizeSecond ▸ hsizeFirst ▸ hanchor
  obtain ⟨third, hthird, hsizeThird, hnextThird, hprevThird⟩ := setNext_eq hanchorLt index
  have hnext : ∀ node, third.next node = if node = index then rings.next anchor
      else if node = anchor then index else rings.next node := by
    intro node
    simp only [hnextThird, hnextSecond, hnextFirst, Function.update_apply]
    grind
  have hprev : ∀ node, third.prev node = if node = index then anchor
      else if node = rings.next anchor then index else rings.prev node := by
    intro node
    simp only [hprevThird, hprevSecond, hprevFirst, Function.update_apply]
    grind
  refine ⟨third, ?_, by omega, ⟨fun node ↦ ?_, fun node ↦ ?_⟩, hnext⟩
  · simp only [insertAfter, if_neg hne, isAlone_eq hindex, hview, beq_self_eq_true, if_true,
      ok_bind, node_eq hanchor]
    change (rings.set index { next := rings.next anchor, prev := anchor } >>= fun after ↦
      after.setPrev (rings.next anchor) index >>= fun after ↦ after.setNext anchor index) = _
    rw [hfirst, ok_bind, hsecond, ok_bind, hthird]
  · have hback := hrings.prev_next node
    have hindexBack : rings.next node = index → node = index := fun heq ↦
      hrings.next_inj (heq.trans halone.symm)
    have hanchorBack : rings.next node = rings.next anchor → node = anchor := hrings.next_inj
    grind
  · have hback := hrings.next_prev node
    have hindexBack : rings.prev node = index → node = index := fun heq ↦ by
      rw [← hback, heq, halone]
    have hanchorBack : rings.prev node = anchor → node = rings.next anchor := fun heq ↦ by
      rw [← hback, heq]
    grind

/-- A removal links the neighbours of a node with each other and lets the node stand alone. -/
theorem remove_eq (hindex : index < rings.size) :
    ∃ after, rings.remove index = .ok after ∧ after.size = rings.size ∧ after.Mutual ∧
      ∀ node, after.next node =
        if node = index then index else if rings.next node = index then rings.next index
        else rings.next node := by
  obtain ⟨first, hfirst, hsizeFirst, hnextFirst, hprevFirst⟩ :=
    setNext_eq (hrings.prev_lt hindex) (rings.next index)
  have hnextLt : rings.next index < first.size := hsizeFirst ▸ hrings.next_lt hindex
  obtain ⟨second, hsecond, hsizeSecond, hnextSecond, hprevSecond⟩ :=
    setPrev_eq hnextLt (rings.prev index)
  have hindexLt : index < second.size := hsizeSecond ▸ hsizeFirst ▸ hindex
  obtain ⟨third, hthird, hsizeThird, hnextThird, hprevThird⟩ := set_eq hindexLt (.alone index)
  have hnext : ∀ node, third.next node = if node = index then index
      else if rings.next node = index then rings.next index else rings.next node := by
    intro node
    simp only [hnextThird, hnextSecond, hnextFirst, Function.update_apply, RingNode.alone]
    grind [hrings.next_eq_iff]
  have hprev : ∀ node, third.prev node = if node = index then index
      else if rings.prev node = index then rings.prev index else rings.prev node := by
    intro node
    simp only [hprevThird, hprevSecond, hprevFirst, Function.update_apply, RingNode.alone]
    grind [hrings.next_eq_iff]
  refine ⟨third, ?_, by omega, ⟨fun node ↦ ?_, fun node ↦ ?_⟩, hnext⟩
  · simp only [remove, node_eq hindex, ok_bind]
    change (rings.setNext (rings.prev index) (rings.next index) >>= fun after ↦
      after.setPrev (rings.next index) (rings.prev index) >>= fun after ↦ after.reset index) = _
    rw [hfirst, ok_bind, hsecond, ok_bind, reset, hthird]
  · have hback := hrings.prev_next node
    have hindexBack := hrings.prev_next index
    have hself : rings.next node = index ↔ rings.prev index = node := hrings.next_eq_iff
    grind [hrings.next_inj]
  · have hback := hrings.next_prev node
    have hindexBack := hrings.next_prev index
    have hself : rings.next index = node ↔ rings.prev node = index := hrings.next_eq_iff
    grind [hrings.next_prev]

end Mutual

/-! ### Paths -/

/-- The links lead from a node along the given ones to a last one. -/
def Path (next : Nat → Nat) (first : Nat) : List Nat → Nat → Prop
  | [], last => next first = last
  | node :: nodes, last => next first = node ∧ Path next node nodes last

variable {next after : Nat → Nat} {first last node : Nat} {nodes : List Nat}

/-- A path reads the links of its nodes but the last. -/
theorem Path.congr (hpath : Path next first nodes last)
    (hagree : ∀ node ∈ first :: nodes, after node = next node) : Path after first nodes last := by
  induction nodes generalizing first with
  | nil => exact (hagree first List.mem_cons_self).trans hpath
  | cons node nodes ih =>
    exact ⟨(hagree first List.mem_cons_self).trans hpath.1,
      ih hpath.2 fun other hother ↦ hagree other (List.mem_cons_of_mem _ hother)⟩

/-- A node on a path is followed by another node of it or by the last one. -/
theorem Path.next_mem (hpath : Path next first nodes last) {node : Nat}
    (hnode : node ∈ first :: nodes) : next node ∈ nodes ∨ next node = last := by
  induction nodes generalizing first with
  | nil =>
    rw [List.mem_singleton] at hnode
    exact Or.inr (hnode ▸ hpath)
  | cons second nodes ih =>
    rcases List.mem_cons.mp hnode with rfl | hlater
    · exact Or.inl (hpath.1 ▸ List.mem_cons_self)
    · rcases ih hpath.2 hlater with hmem | hlast
      · exact Or.inl (List.mem_cons_of_mem _ hmem)
      · exact Or.inr hlast

/-- No node of a path without repetition links to itself, unless it is where the path ends. -/
theorem Path.next_ne (hpath : Path next first nodes last) (hnodup : nodes.Nodup)
    (hlast : last ∉ nodes) (hnode : node ∈ nodes) : next node ≠ node := by
  induction nodes generalizing first with
  | nil => exact absurd hnode List.not_mem_nil
  | cons second nodes ih =>
    rw [List.nodup_cons] at hnodup
    rcases List.mem_cons.mp hnode with rfl | hlater
    · intro hself
      rcases hpath.2.next_mem List.mem_cons_self with hmem | heq
      · exact hnodup.1 (hself ▸ hmem)
      · exact hlast (heq ▸ hself.symm ▸ List.mem_cons_self)
    · exact ih hpath.2 hnodup.2 (fun hmem ↦ hlast (List.mem_cons_of_mem _ hmem)) hlater

/-- A node that the path does not touch can be linked in directly after the first one. -/
theorem Path.cons (hpath : Path next first nodes last)
    (hafter : ∀ other, after other =
      if other = node then next first else if other = first then node else next other)
    (hnode : node ∉ first :: nodes) (hfirst : first ∉ nodes) :
    Path after first (node :: nodes) last := by
  have hne : first ≠ node := fun heq ↦ hnode (heq ▸ List.mem_cons_self)
  refine ⟨by rw [hafter, if_neg hne, if_pos rfl], ?_⟩
  have hlink : after node = next first := by rw [hafter, if_pos rfl]
  cases nodes with
  | nil => exact hlink.trans hpath
  | cons second nodes =>
    refine ⟨hlink.trans hpath.1, hpath.2.congr fun other hother ↦ ?_⟩
    have hotherNode : other ≠ node := fun heq ↦ hnode (heq ▸ List.mem_cons_of_mem _ hother)
    have hotherFirst : other ≠ first := fun heq ↦ hfirst (heq ▸ hother)
    rw [hafter, if_neg hotherNode, if_neg hotherFirst]

/-- Away from the path a node can be linked in without a change of the path. -/
theorem Path.beside {anchor : Nat} (hpath : Path next first nodes last)
    (hafter : ∀ other, after other =
      if other = node then next anchor else if other = anchor then node else next other)
    (hnode : node ∉ first :: nodes) (hanchor : anchor ∉ first :: nodes) :
    Path after first nodes last := by
  refine hpath.congr fun other hother ↦ ?_
  have hotherNode : other ≠ node := fun heq ↦ hnode (heq ▸ hother)
  have hotherAnchor : other ≠ anchor := fun heq ↦ hanchor (heq ▸ hother)
  rw [hafter, if_neg hotherNode, if_neg hotherAnchor]

/-- A node of a path can be taken out by a link past it. -/
theorem Path.erase (hpath : Path next first nodes last)
    (hafter : ∀ other, after other =
      if other = node then node else if next other = node then next node else next other)
    (hnodup : nodes.Nodup) (hfirst : first ≠ node) (hlast : last ∉ nodes) (hnode : node ∈ nodes) :
    Path after first (nodes.erase node) last := by
  induction nodes generalizing first with
  | nil => exact absurd hnode List.not_mem_nil
  | cons second nodes ih =>
    rw [List.nodup_cons] at hnodup
    obtain ⟨hlink, hrest⟩ := hpath
    have hlastRest : last ∉ nodes := fun hmem ↦ hlast (List.mem_cons_of_mem _ hmem)
    by_cases hsecond : second = node
    · subst hsecond
      rw [List.erase_cons_head]
      have hpast : after first = next second := by rw [hafter, if_neg hfirst, if_pos hlink]
      cases nodes with
      | nil => exact hpast.trans hrest
      | cons third nodes =>
        refine ⟨hpast.trans hrest.1, hrest.2.congr fun other hother ↦ ?_⟩
        have hne : other ≠ second := fun heq ↦ hnodup.1 (heq ▸ hother)
        have hnext : next other ≠ second := by
          intro heq
          rcases hrest.2.next_mem hother with hmem | hend
          · exact hnodup.1 (heq ▸ List.mem_cons_of_mem _ hmem)
          · exact hlast (heq ▸ hend ▸ List.mem_cons_self)
        rw [hafter, if_neg hne, if_neg hnext]
    · have hmem : node ∈ nodes := (List.mem_cons.mp hnode).resolve_left (Ne.symm hsecond)
      rw [List.erase_cons_tail (by simpa using hsecond)]
      refine ⟨?_, ih hrest hnodup.2 hsecond hlastRest hmem⟩
      rw [hafter, if_neg hfirst, if_neg (hlink ▸ hsecond), hlink]

/-- A node that the path does not touch can be unlinked without a change of the path. -/
theorem Path.skip (hpath : Path next first nodes last)
    (hafter : ∀ other, after other =
      if other = node then node else if next other = node then next node else next other)
    (hnode : node ∉ first :: nodes) (hlast : last ≠ node) : Path after first nodes last := by
  refine hpath.congr fun other hother ↦ ?_
  have hother' : other ≠ node := fun heq ↦ hnode (heq ▸ hother)
  have hnext : next other ≠ node := by
    intro heq
    rcases hpath.next_mem hother with hmem | hend
    · exact hnode (heq ▸ List.mem_cons_of_mem _ hmem)
    · exact hlast (hend ▸ heq)
  rw [hafter, if_neg hother', if_neg hnext]

/-! ### Lists -/

/-- The first `heads` nodes are the heads of lists, whose members are the given nodes in order. A
node is at most once on one list, and a node on no list stands alone. -/
structure Holds (rings : Rings) (heads : Nat) (lists : Nat → List Nat) : Prop where
  mutual_links : rings.Mutual
  heads_le : heads ≤ rings.size
  path : ∀ head < heads, Path rings.next head (lists head) head
  nodup : ∀ head < heads, (lists head).Nodup
  bounds : ∀ head < heads, ∀ node ∈ lists head, heads ≤ node ∧ node < rings.size
  unique : ∀ head < heads, ∀ other < heads, ∀ node ∈ lists head, node ∈ lists other → head = other
  alone : ∀ node, heads ≤ node → (∀ head < heads, node ∉ lists head) → rings.next node = node

theorem path_alone (count head : Nat) : Path (alone count).next head [] head := by
  simp [Path, next, view_alone, RingNode.alone]

/-- At first all lists are empty. -/
theorem holds_alone {heads count : Nat} (hheads : heads ≤ count) :
    (alone count).Holds heads fun _ ↦ [] where
  mutual_links := mutual_alone count
  heads_le := by rwa [size_alone]
  path := fun head _ ↦ path_alone count head
  nodup := fun _ _ ↦ List.nodup_nil
  bounds := fun _ _ _ hmem ↦ absurd hmem List.not_mem_nil
  unique := fun _ _ _ _ _ hmem ↦ absurd hmem List.not_mem_nil
  alone := fun node _ _ ↦ path_alone count node

namespace Holds

variable {heads head : Nat} {lists : Nat → List Nat} (hrings : rings.Holds heads lists)

include hrings

theorem head_notMem (hhead : head < heads) {other : Nat} (hother : other < heads) :
    head ∉ lists other := fun hmem ↦
  absurd (hrings.bounds other hother head hmem).1 (Nat.not_le.mpr hhead)

/-- The nodes of a list come after the heads. -/
theorem exists_map (hhead : head < heads) :
    ∃ members : List Nat, lists head = members.map (heads + ·) := by
  have hrange : lists head ∈ Set.range (List.map (heads + ·)) := by
    rw [Set.range_list_map]
    intro node hnode
    exact ⟨node - heads, Nat.add_sub_cancel' (hrings.bounds head hhead node hnode).1⟩
  obtain ⟨members, hmembers⟩ := hrange
  exact ⟨members, hmembers.symm⟩

omit hrings in
theorem notMem_cons (hhead : head < heads) {node : Nat} (hnode : heads ≤ node)
    (hnone : node ∉ lists head) : node ∉ head :: lists head := by
  intro hmem
  rcases List.mem_cons.mp hmem with rfl | hlater
  · exact absurd hhead (Nat.not_lt.mpr hnode)
  · exact hnone hlater

/-- More nodes can be added, which are on no list. -/
theorem extend (count : Nat) : (rings.extend count).Holds heads lists := by
  have hnext : (rings.extend count).next = rings.next := by
    funext node
    rw [next, next, view_extend]
  have hsize : rings.size ≤ (rings.extend count).size := by
    rw [size_extend]
    exact Nat.le_max_left ..
  exact {
    mutual_links := hrings.mutual_links.extend count
    heads_le := hrings.heads_le.trans hsize
    path := fun head hhead ↦ hnext ▸ hrings.path head hhead
    nodup := hrings.nodup
    bounds := fun head hhead node hnode ↦
      (hrings.bounds head hhead node hnode).imp_right fun hlt ↦ hlt.trans_le hsize
    unique := hrings.unique
    alone := fun node hnode hnone ↦ hnext ▸ hrings.alone node hnode hnone }

/-- A node that is on no list can be put in front of one. -/
theorem insertAfter (hhead : head < heads) {node : Nat} (hnode : heads ≤ node)
    (hsize : node < rings.size) (hnone : ∀ other < heads, node ∉ lists other) :
    ∃ after, rings.insertAfter head node = .ok after ∧ after.size = rings.size ∧
      after.Holds heads (Function.update lists head (node :: lists head)) := by
  have hne : head ≠ node := fun heq ↦ absurd hhead (Nat.not_lt.mpr (heq ▸ hnode))
  obtain ⟨after, hafter, hsizeAfter, hmutual, hnext⟩ := hrings.mutual_links.insertAfter_eq
    (hhead.trans_le hrings.heads_le) hsize hne (hrings.alone node hnode hnone)
  refine ⟨after, hafter, hsizeAfter, hmutual, hsizeAfter.symm ▸ hrings.heads_le, ?_, ?_, ?_, ?_, ?_⟩
  · intro other hother
    by_cases heq : other = head
    · subst heq
      rw [Function.update_self]
      exact (hrings.path other hother).cons hnext
        (notMem_cons hother hnode (hnone other hother)) (hrings.head_notMem hother hother)
    · rw [Function.update_of_ne heq]
      refine (hrings.path other hother).beside hnext
        (notMem_cons hother hnode (hnone other hother)) fun hmem ↦ ?_
      exact (List.mem_cons.mp hmem).elim (Ne.symm heq) (hrings.head_notMem hhead hother)
  · intro other hother
    by_cases heq : other = head
    · subst heq
      rw [Function.update_self]
      exact List.nodup_cons.mpr ⟨hnone other hother, hrings.nodup other hother⟩
    · rw [Function.update_of_ne heq]
      exact hrings.nodup other hother
  · intro other hother step hstep
    rw [Function.update_apply] at hstep
    split_ifs at hstep with heq
    · rcases List.mem_cons.mp hstep with rfl | hmem
      · exact ⟨hnode, hsizeAfter.symm ▸ hsize⟩
      · exact hsizeAfter.symm ▸ hrings.bounds head hhead step hmem
    · exact hsizeAfter.symm ▸ hrings.bounds other hother step hstep
  · intro first hfirst second hsecond step hstepFirst hstepSecond
    have hunique := hrings.unique first hfirst second hsecond step
    have hnoneFirst := hnone first hfirst
    have hnoneSecond := hnone second hsecond
    grind [Function.update_apply]
  · intro step hstep hnoneStep
    have hmem := hnoneStep head hhead
    rw [Function.update_self, List.mem_cons, not_or] at hmem
    have hstepHead : step ≠ head := fun heq ↦ absurd hhead (Nat.not_lt.mpr (heq ▸ hstep))
    rw [hnext, if_neg hmem.1, if_neg hstepHead]
    refine hrings.alone step hstep fun other hother hother' ↦ ?_
    by_cases heq : other = head
    · exact hmem.2 (heq ▸ hother')
    · exact hnoneStep other hother (by rwa [Function.update_of_ne heq])

/-- A member of a list can be taken off it. -/
theorem remove (hhead : head < heads) {node : Nat} (hnode : node ∈ lists head) :
    ∃ after, rings.remove node = .ok after ∧ after.size = rings.size ∧
      after.Holds heads (Function.update lists head ((lists head).erase node)) := by
  obtain ⟨hheadsLe, hsize⟩ := hrings.bounds head hhead node hnode
  obtain ⟨after, hafter, hsizeAfter, hmutual, hnext⟩ := hrings.mutual_links.remove_eq hsize
  have hne : ∀ other < heads, other ≠ node := fun other hother heq ↦
    absurd hother (Nat.not_lt.mpr (heq ▸ hheadsLe))
  refine ⟨after, hafter, hsizeAfter, hmutual, hsizeAfter.symm ▸ hrings.heads_le, ?_, ?_, ?_, ?_, ?_⟩
  · intro other hother
    by_cases heq : other = head
    · subst heq
      rw [Function.update_self]
      exact (hrings.path other hother).erase hnext (hrings.nodup other hother) (hne other hother)
        (hrings.head_notMem hother hother) hnode
    · rw [Function.update_of_ne heq]
      refine (hrings.path other hother).skip hnext ?_ (hne other hother)
      exact notMem_cons hother hheadsLe fun hmem ↦
        heq (hrings.unique other hother head hhead node hmem hnode)
  · intro other hother
    by_cases heq : other = head
    · subst heq
      rw [Function.update_self]
      exact (hrings.nodup other hother).erase node
    · rw [Function.update_of_ne heq]
      exact hrings.nodup other hother
  · intro other hother step hstep
    rw [Function.update_apply] at hstep
    split_ifs at hstep with heq
    · exact hsizeAfter.symm ▸ hrings.bounds head hhead step (List.mem_of_mem_erase hstep)
    · exact hsizeAfter.symm ▸ hrings.bounds other hother step hstep
  · intro first hfirst second hsecond step hstepFirst hstepSecond
    have hunique := hrings.unique first hfirst second hsecond step
    grind [Function.update_apply, List.mem_of_mem_erase]
  · intro step hstep hnoneStep
    by_cases hstepNode : step = node
    · rw [hnext, if_pos hstepNode, hstepNode]
    · have halone : rings.next step = step := by
        refine hrings.alone step hstep fun other hother hmem ↦ hnoneStep other hother ?_
        by_cases heq : other = head
        · subst heq
          rw [Function.update_self]
          exact (List.mem_erase_of_ne hstepNode).mpr hmem
        · rwa [Function.update_of_ne heq]
      rw [hnext, if_neg hstepNode, if_neg (halone.symm ▸ hstepNode), halone]

/-- A node that is linked to another one is a head or on a list. -/
theorem linked {node : Nat} (hne : rings.next node ≠ node) :
    node < heads ∨ ∃ head < heads, node ∈ lists head := by
  by_contra hnone
  rw [not_or, not_exists] at hnone
  refine hne (hrings.alone node (Nat.le_of_not_lt hnone.1) fun head hhead hmem ↦ ?_)
  exact hnone.2 head ⟨hhead, hmem⟩

theorem linked_next {node : Nat} (hne : rings.next node ≠ node) :
    rings.next node < heads ∨ ∃ head < heads, rings.next node ∈ lists head :=
  hrings.linked fun heq ↦ hne (hrings.mutual_links.next_inj heq)

theorem linked_prev {node : Nat} (hne : rings.next node ≠ node) :
    rings.prev node < heads ∨ ∃ head < heads, rings.prev node ∈ lists head := by
  refine hrings.linked fun heq ↦ hne ?_
  rw [hrings.mutual_links.next_prev] at heq
  exact hrings.mutual_links.next_eq_iff.mpr heq.symm

/-- A head stands alone as long as its list is empty. -/
theorem isAlone_head (hhead : head < heads) :
    rings.isAlone head = .ok (lists head).isEmpty := by
  rw [isAlone_eq (hhead.trans_le hrings.heads_le), Except.ok.injEq, Bool.eq_iff_iff, beq_iff_eq,
    hrings.mutual_links.view_eq_alone_iff, List.isEmpty_iff]
  have hpath := hrings.path head hhead
  have hnotMem := hrings.head_notMem hhead hhead
  cases hlist : lists head with
  | nil => simpa [hlist, Path] using hpath
  | cons node nodes =>
    rw [hlist] at hpath hnotMem
    refine iff_of_false (fun hself ↦ hnotMem ?_) (List.cons_ne_nil _ _)
    exact List.mem_cons.mpr (Or.inl (hself.symm.trans hpath.1))

/-- Any other node stands alone as long as it is on no list. -/
theorem isAlone_node {node : Nat} (hnode : heads ≤ node) (hsize : node < rings.size) :
    rings.isAlone node = .ok (decide (∀ head < heads, node ∉ lists head)) := by
  rw [isAlone_eq hsize, Except.ok.injEq, Bool.eq_iff_iff, beq_iff_eq,
    hrings.mutual_links.view_eq_alone_iff, decide_eq_true_iff]
  refine ⟨fun hself head hhead hmem ↦ ?_, hrings.alone node hnode⟩
  exact (hrings.path head hhead).next_ne (hrings.nodup head hhead) (hrings.head_notMem hhead hhead)
    hmem hself

theorem first? (hhead : head < heads) : rings.first? head = .ok (lists head).head? := by
  rw [first?_eq (hhead.trans_le hrings.heads_le)]
  have hpath := hrings.path head hhead
  have hnotMem := hrings.head_notMem hhead hhead
  cases hlist : lists head with
  | nil =>
    have hself : rings.next head = head := by simpa [hlist, Path] using hpath
    rw [if_pos hself, List.head?_nil]
  | cons node nodes =>
    rw [hlist] at hpath hnotMem
    rw [if_neg, List.head?_cons, hpath.1]
    exact fun heq ↦ hnotMem (List.mem_cons.mpr (Or.inl (heq.symm.trans hpath.1)))

/-- A list is shorter than the number of nodes. -/
theorem length_lt (hhead : head < heads) : (lists head).length < rings.size := by
  have hnodup : (head :: lists head).Nodup :=
    List.nodup_cons.mpr ⟨hrings.head_notMem hhead hhead, hrings.nodup head hhead⟩
  have hsub : head :: lists head ⊆ List.range rings.size := by
    intro node hnode
    rw [List.mem_range]
    rcases List.mem_cons.mp hnode with rfl | hmem
    · exact hhead.trans_le hrings.heads_le
    · exact (hrings.bounds head hhead node hmem).2
  have hlength := (List.subperm_of_subset hnodup hsub).length_le
  rw [List.length_range, List.length_cons] at hlength
  omega

end Holds

/-- A walk gives the nodes on the path back to the head. -/
theorem membersFrom_eq {head count : Nat} (hpath : Path rings.next first nodes head)
    (hhead : head ∉ nodes) (hsize : ∀ node ∈ first :: nodes, node < rings.size)
    (hcount : nodes.length < count) : rings.membersFrom head count first = .ok nodes := by
  induction nodes generalizing first count with
  | nil =>
    obtain ⟨count, rfl⟩ : ∃ rest, count = rest + 1 := ⟨count - 1, by simp at hcount; omega⟩
    have hlink : (rings.view first).next = head := hpath
    simp only [membersFrom, node_eq (hsize first List.mem_cons_self), ok_bind, if_pos hlink,
      pure_eq_ok]
  | cons node nodes ih =>
    obtain ⟨count, rfl⟩ : ∃ rest, count = rest + 1 := ⟨count - 1, by simp at hcount; omega⟩
    have hlink : (rings.view first).next = node := hpath.1
    have hne : node ≠ head := fun heq ↦ hhead (heq ▸ List.mem_cons_self)
    have hrest : rings.membersFrom head count node = .ok nodes :=
      ih hpath.2 (fun hmem ↦ hhead (List.mem_cons_of_mem _ hmem))
        (fun other hother ↦ hsize other (List.mem_cons_of_mem _ hother)) (by simpa using hcount)
    simp only [membersFrom, node_eq (hsize first List.mem_cons_self), ok_bind, hlink, if_neg hne,
      hrest, pure_eq_ok]

theorem Holds.members {heads head : Nat} {lists : Nat → List Nat}
    (hrings : rings.Holds heads lists) (hhead : head < heads) :
    rings.members head = .ok (lists head) := by
  have hsize := hhead.trans_le hrings.heads_le
  simp only [Rings.members, firstMembers, node_eq hsize, ok_bind]
  refine membersFrom_eq (hrings.path head hhead) (hrings.head_notMem hhead hhead) ?_
    (hrings.length_lt hhead)
  intro node hnode
  rcases List.mem_cons.mp hnode with rfl | hmem
  · exact hsize
  · exact (hrings.bounds head hhead node hmem).2

end Rings

end KernelMemory
