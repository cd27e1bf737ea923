import KernelMemory.Fault

/-!
# Rings

A fixed set of numbered nodes, each of which names the node after it and the node before it. A
node that names only itself stands alone; otherwise it is on a ring with other nodes. A list is a
ring seen from one of its nodes, the head, which is not itself a member.
-/

set_option autoImplicit false
set_option relaxedAutoImplicit false

namespace KernelMemory

structure RingNode where
  next : Nat
  prev : Nat
deriving DecidableEq, Repr

namespace RingNode

/-- The node at an index when it is on no ring with others. -/
def alone (index : Nat) : RingNode := ⟨index, index⟩

end RingNode

structure Rings where
  nodes : Array RingNode
deriving DecidableEq, Repr

namespace Rings

/-- The given number of nodes, each alone. -/
def alone (count : Nat) : Rings :=
  ⟨⟨(List.range count).map RingNode.alone⟩⟩

def size (rings : Rings) : Nat := rings.nodes.size

/-- Add nodes that stand alone until there are at least `count`. -/
def extend (rings : Rings) (count : Nat) : Rings :=
  ⟨rings.nodes ++ (⟨(List.range' rings.size (count - rings.size)).map RingNode.alone⟩ :
    Array RingNode)⟩

def node (rings : Rings) (index : Nat) : Except Fault RingNode :=
  match rings.nodes[index]? with
  | some node => .ok node
  | none => .error (.indexOutOfBounds rings.size index)

def set (rings : Rings) (index : Nat) (node : RingNode) : Except Fault Rings :=
  if index < rings.size then .ok ⟨rings.nodes.setIfInBounds index node⟩
  else .error (.indexOutOfBounds rings.size index)

def setNext (rings : Rings) (index next : Nat) : Except Fault Rings := do
  rings.set index { ← rings.node index with next }

def setPrev (rings : Rings) (index prev : Nat) : Except Fault Rings := do
  rings.set index { ← rings.node index with prev }

/-- Let a node stand alone. Its neighbours are not told, so it has to be off its ring before. -/
def reset (rings : Rings) (index : Nat) : Except Fault Rings :=
  rings.set index (.alone index)

def isAlone (rings : Rings) (index : Nat) : Except Fault Bool := do
  return (← rings.node index) == .alone index

/-- Put a node that stands alone directly after another one. -/
def insertAfter (rings : Rings) (anchor index : Nat) : Except Fault Rings := do
  if anchor = index then throw .insertedAfterItself
  unless ← rings.isAlone index do throw (.alreadyLinked index)
  let next := (← rings.node anchor).next
  let rings ← rings.set index { next, prev := anchor }
  let rings ← rings.setPrev next index
  rings.setNext anchor index

/-- Put a node that stands alone directly before another one. -/
def insertBefore (rings : Rings) (anchor index : Nat) : Except Fault Rings := do
  rings.insertAfter (← rings.node anchor).prev index

/-- Take a node off its ring; it stands alone afterwards. -/
def remove (rings : Rings) (index : Nat) : Except Fault Rings := do
  let node ← rings.node index
  let rings ← rings.setNext node.prev node.next
  let rings ← rings.setPrev node.next node.prev
  rings.reset index

/-- The first member of the list with the given head. -/
def first? (rings : Rings) (head : Nat) : Except Fault (Option Nat) := do
  let next := (← rings.node head).next
  return if next = head then none else some next

/-- The members that follow a node before the head is reached, at most as many as asked for. -/
def membersFrom (rings : Rings) (head : Nat) : (count : Nat) → (index : Nat) →
    Except Fault (List Nat)
  | 0, _ => .ok []
  | count + 1, index => do
    let next := (← rings.node index).next
    if next = head then return []
    return next :: (← rings.membersFrom head count next)

/-- The first members of the list with the given head, at most as many as asked for. -/
def firstMembers (rings : Rings) (head count : Nat) : Except Fault (List Nat) := do
  let _ ← rings.node head
  rings.membersFrom head count head

/-- All members of the list with the given head: on a ring there are fewer than there are
nodes. -/
def members (rings : Rings) (head : Nat) : Except Fault (List Nat) :=
  rings.firstMembers head rings.size

end Rings

end KernelMemory
