import KernelMemory.AllocError
import KernelMemory.ByteCount
import KernelMemory.Fault
import KernelMemory.Log

/-!
# Events

What a run lets an observer see besides its answers: the calls to a page supplier with what came
of them, and the notices that are logged. A notice keeps the facts; `Notice.record` words them.
-/

set_option autoImplicit false
set_option relaxedAutoImplicit false

namespace KernelMemory

-- Powers of numbers mean the same beside a library that has powers of its own.
attribute [local instance (high)] instPowNat

/-- A stretch of memory that a supplier hands out. -/
structure Region where
  base : Nat
  size : Nat
deriving DecidableEq, Repr

inductive Notice
  | framesAdded (start order : Nat)
  | frameAllocated (frame order : Nat)
  /-- The order is that of the free block the frame ended up in. -/
  | frameFreed (frame order : Nat)
  | invalidFrame (frame : Nat)
  | regionNotFreed (base : Nat) (error : AllocError)
  | regionUnknown (base : Nat)
  | pageAdded (base size : Nat)
  | pageReleased (base size : Nat)
  /-- A page given back because its whole heap ends. -/
  | pageDropped (base : Nat)
  | regionMisaligned (base : Nat)
  | watermarkNotReached (error : AllocError)
  | invalidPointer (address : Nat)
  | heapReplaced
deriving DecidableEq, Repr

namespace Notice

def level : Notice → LogLevel
  | frameAllocated .. | frameFreed .. => .trace
  | framesAdded .. | pageAdded .. | pageReleased .. | pageDropped .. => .debug
  | watermarkNotReached .. | heapReplaced => .warn
  | invalidFrame .. | regionNotFreed .. | regionUnknown .. | regionMisaligned ..
  | invalidPointer .. => .error

/-- The part of the memory system that a notice is logged under. -/
def origin : Notice → String
  | framesAdded .. | frameAllocated .. | frameFreed .. | invalidFrame .. => "windy_mem::mem::buddy"
  | regionNotFreed .. | regionUnknown .. => "windy_mem::mem::supplier"
  | pageAdded .. | pageReleased .. | pageDropped .. | regionMisaligned ..
  | watermarkNotReached .. | invalidPointer .. => "windy_mem::mem::heap"
  | heapReplaced => "windy_mem::sync"

def message : Notice → String
  | framesAdded start order =>
    s!"Adding frames {start}..{start + 2 ^ order} as order {order} block"
  | frameAllocated frame order => s!"Allocated frame {frame} with order {order}"
  | frameFreed frame order => s!"Freed frame {frame} as order {order} block"
  | invalidFrame frame => s!"Tried to free invalid frame {frame}"
  | regionNotFreed base error =>
    s!"Failed to release heap page at {hexText base}: {error.message}"
  | regionUnknown base => s!"Released heap page {hexText base} is not backed by a frame"
  | pageAdded base size => s!"Added heap page at {hexText base} with {byteText size}"
  | pageReleased base size => s!"Releasing heap page at {hexText base} ({byteText size})"
  | pageDropped base => s!"Releasing heap page at {hexText base}"
  | regionMisaligned base => s!"Page supplier returned misaligned region at {hexText base}"
  | watermarkNotReached error => s!"Failed to grow heap above watermark: {error.message}"
  | invalidPointer address => s!"Tried to free invalid heap pointer {hexText address}"
  | heapReplaced => "Replaced an already initialized heap"

def record (notice : Notice) : LogRecord where
  level := notice.level
  message := notice.message
  fixedPath := some notice.origin

end Notice

inductive Event
  | supplied (size : Nat) (region : Region)
  | refused (size : Nat) (error : AllocError)
  | released (base : Nat)
  | noted (notice : Notice)
deriving DecidableEq, Repr

namespace Event

/-- The line a logger with the given filter writes for an event. -/
def line? (filter : LogFilter) : Event → Option String
  | noted notice => if filter.admits notice.level then some notice.record.line else none
  | _ => none

end Event

end KernelMemory
