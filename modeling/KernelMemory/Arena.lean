import KernelMemory.Fault

/-!
# Arenas

An arena stores records under indices that stay valid until the record is removed. A removed
record leaves a vacant slot; the vacant slots form a chain, last left first, and an insertion
takes the first slot of the chain before it adds a new one.
-/

set_option autoImplicit false
set_option relaxedAutoImplicit false

namespace KernelMemory

inductive Slot (α : Type)
  | taken (record : α)
  /-- A hole, with the hole that follows it in the chain. -/
  | vacant (next : Option Nat)
deriving DecidableEq, Repr

structure Arena (α : Type) where
  slots : Array (Slot α) := #[]
  /-- The first vacant slot of the chain. -/
  vacant : Option Nat := none
  /-- The number of records. -/
  size : Nat := 0
deriving DecidableEq, Repr

namespace Arena

variable {α : Type}

def empty : Arena α := {}

def isEmpty (arena : Arena α) : Bool := arena.size == 0

def get? (arena : Arena α) (index : Nat) : Option α :=
  match arena.slots[index]? with
  | some (.taken record) => some record
  | _ => none

/-- The record at an index that has to hold one. -/
def get (arena : Arena α) (index : Nat) : Except Fault α :=
  match arena.get? index with
  | some record => .ok record
  | none => .error (.noRecord index)

/-- Replace the record at an index, if there is one. -/
def set? (arena : Arena α) (index : Nat) (record : α) : Option (Arena α) :=
  (arena.get? index).map fun _ ↦
    { arena with slots := arena.slots.setIfInBounds index (.taken record) }

/-- Replace the record at an index that has to hold one. -/
def set (arena : Arena α) (index : Nat) (record : α) : Except Fault (Arena α) :=
  match arena.set? index record with
  | some arena => .ok arena
  | none => .error (.noRecord index)

def modify (arena : Arena α) (index : Nat) (change : α → α) : Except Fault (Arena α) := do
  arena.set index (change (← arena.get index))

/-- Store a record and give its index. -/
def insert (arena : Arena α) (record : α) : Except Fault (Nat × Arena α) :=
  match arena.vacant with
  | none =>
    .ok (arena.slots.size,
      { arena with slots := arena.slots.push (.taken record), size := arena.size + 1 })
  | some index =>
    match arena.slots[index]? with
    | some (.vacant next) =>
      .ok (index,
        { slots := arena.slots.setIfInBounds index (.taken record)
          vacant := next
          size := arena.size + 1 })
    | some (.taken _) => .error (.vacancyTaken index)
    | none => .error (.indexOutOfBounds arena.slots.size index)

/-- Take the record at an index out of the arena, if there is one. -/
def remove? (arena : Arena α) (index : Nat) : Option (α × Arena α) :=
  (arena.get? index).map fun record ↦
    (record,
      { slots := arena.slots.setIfInBounds index (.vacant arena.vacant)
        vacant := some index
        size := arena.size - 1 })

/-- Take out the record at an index that has to hold one. -/
def remove (arena : Arena α) (index : Nat) : Except Fault (α × Arena α) :=
  match arena.remove? index with
  | some result => .ok result
  | none => .error (.noRecord index)

/-- The records with their indices, by ascending index. -/
def toList (arena : Arena α) : List (Nat × α) :=
  (List.range arena.slots.size).filterMap fun index ↦
    (arena.get? index).map fun record ↦ (index, record)

end Arena

end KernelMemory
