/-!
Log events. Operations return the events that they cause as data; what is shown is decided by the
caller.
-/

namespace Disassembler

inductive Level where
  | debug
  | info
  | warning
  | error
  | critical
  deriving DecidableEq, Repr

def Level.severity : Level → Nat
  | .debug => 10
  | .info => 20
  | .warning => 30
  | .error => 40
  | .critical => 50

def Level.name : Level → String
  | .debug => "DEBUG"
  | .info => "INFO"
  | .warning => "WARNING"
  | .error => "ERROR"
  | .critical => "CRITICAL"

/-- The part of the program that an event comes from. -/
inductive Origin where
  | commandLine
  | loader
  | listing
  | decoder
  | symbols
  | tracer
  deriving DecidableEq, Repr

def Origin.name : Origin → String
  | .commandLine => "retrodasm.cli"
  | .loader => "retrodasm.listing.commands"
  | .listing => "retrodasm.listing.formatter"
  | .decoder => "retrodasm.decoding.engine"
  | .symbols => "retrodasm.xref"
  | .tracer => "retrodasm.tracing"

structure Event where
  level : Level
  origin : Origin
  message : String
  deriving DecidableEq, Repr

def Event.line (e : Event) : String := e.level.name ++ " " ++ e.origin.name ++ ": " ++ e.message

/-- The lines shown at a threshold, each ended by a line feed. -/
def Event.shown (threshold : Nat) (events : List Event) : String :=
  String.join ((events.filter fun e => threshold ≤ e.level.severity).map fun e => e.line ++ "\n")

end Disassembler
