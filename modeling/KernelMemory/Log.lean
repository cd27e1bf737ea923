/-!
# Log records

A logger writes each record up to its level as one line into a sink. A sink may refuse every
write, and then the record is lost without further notice. One logger can be installed for the
whole program; a second installation is refused.
-/

set_option autoImplicit false
set_option relaxedAutoImplicit false

namespace KernelMemory

inductive LogLevel
  | error
  | warn
  | info
  | debug
  | trace
deriving DecidableEq, Repr

namespace LogLevel

/-- Graver levels come first. -/
def rank : LogLevel → Nat
  | error => 1
  | warn => 2
  | info => 3
  | debug => 4
  | trace => 5

def name : LogLevel → String
  | error => "ERROR"
  | warn => "WARN"
  | info => "INFO"
  | debug => "DEBUG"
  | trace => "TRACE"

/-- The name set flush right in five columns. -/
def column (level : LogLevel) : String :=
  String.ofList (List.replicate (5 - level.name.length) ' ') ++ level.name

end LogLevel

/-- The most detailed level that is let through; `none` lets nothing through. -/
abbrev LogFilter := Option LogLevel

def LogFilter.admits (filter : LogFilter) (level : LogLevel) : Bool :=
  match filter with
  | none => false
  | some most => level.rank ≤ most.rank

/-- A message with the module path it comes from, which may be known at compile time (`fixedPath`),
at run time (`path`) or not at all. -/
structure LogRecord where
  level : LogLevel
  message : String
  path : Option String := none
  fixedPath : Option String := none
deriving DecidableEq, Repr

namespace LogRecord

def origin (record : LogRecord) : String :=
  (record.fixedPath.orElse fun _ ↦ record.path).getD "<n/a>"

/-- The line of a record, without its end. -/
def line (record : LogRecord) : String :=
  s!"[ {record.level.column} ] [{record.origin}] {record.message}"

end LogRecord

/-- Text that was written, or a sink that takes nothing. -/
inductive LogSink
  | text (written : String)
  | broken
deriving DecidableEq, Repr

namespace LogSink

def write (sink : LogSink) (addition : String) : LogSink :=
  match sink with
  | text written => text (written ++ addition)
  | broken => broken

def contents : LogSink → String
  | text written => written
  | broken => ""

end LogSink

structure Logger where
  filter : LogFilter
  sink : LogSink
deriving DecidableEq, Repr

namespace Logger

def enabled (logger : Logger) (level : LogLevel) : Bool :=
  logger.filter.admits level

/-- What logging a record adds to a sink that takes it. -/
def entry (logger : Logger) (record : LogRecord) : String :=
  if logger.enabled record.level then record.line ++ "\n" else ""

def log (logger : Logger) (record : LogRecord) : Logger :=
  { logger with sink := logger.sink.write (logger.entry record) }

end Logger

/-- The place for the one logger of a program. -/
structure LoggerSlot where
  installed : Option Logger := none
deriving DecidableEq, Repr

namespace LoggerSlot

/-- Fails with `none` if a logger is installed already. -/
def install? (slot : LoggerSlot) (logger : Logger) : Option LoggerSlot :=
  match slot.installed with
  | none => some { installed := some logger }
  | some _ => none

end LoggerSlot

end KernelMemory
