import Disassembler.Fault
import Disassembler.Log
import Disassembler.Text.Blank
import Disassembler.Text.Case
import Disassembler.Value

/-!
Settings: taken from the environment, then changed one by one.
-/

namespace Disassembler

/-- The environment variables that are looked at; an unset one is `none`. -/
structure Environment where
  checkStack : Option String := none
  logLevel : Option String := none
  trace : Option String := none
  deriving DecidableEq, Repr, Inhabited

/-- A variable cannot hold a NUL character. -/
def Environment.check (env : Environment) : Except Fault Unit :=
  if [env.checkStack, env.logLevel, env.trace].any fun value =>
    value.any (·.toList.contains '\x00') then
    .error .nulInVariable
  else .ok ()

structure Settings where
  /-- whether every match must use up its deferred units -/
  checkStack : Value := .flag true
  logLevel : String := "WARNING"
  traceFile : Value := .nothing
  deriving DecidableEq, Repr, Inhabited

namespace Settings

/-- The texts that turn a flag off, whatever their case. -/
def offWords : List String := ["0", "false", "off", ""]

def flagOf (text : String) : Bool := !offWords.contains (Text.fold (Text.trim text))

/-- Text that is more than blanks, without the blanks around it. -/
def textOf (text : String) : Option String :=
  if Text.trim text = "" then none else some (Text.trim text)

def ofEnvironment (env : Environment) : Settings :=
  { checkStack := .flag ((env.checkStack.map flagOf).getD true)
    logLevel := (env.logLevel.bind textOf).getD "WARNING"
    traceFile := ((env.trace.bind textOf).map .text).getD .nothing }

def names : List String := ["check_stack", "log_level", "trace_file"]

/-- Change the setting of a name. Every value can turn a flag on or off or take the place of a file
name; a level must be text. -/
def change (s : Settings) (name : String) (value : Value) : Except Fault Settings :=
  match name, value with
  | "check_stack", value => .ok { s with checkStack := value }
  | "log_level", .text level => .ok { s with logLevel := level }
  | "log_level", _ => .error .levelNotText
  | "trace_file", value => .ok { s with traceFile := value }
  | _, _ => .error (.unknownSetting name)

/-- The name that stands for the settings as a whole; it can never be changed. -/
def wholeName : String := "self"

/-- Make changes by name, where `nothing` leaves a setting as it is. The names are looked at before
the values. -/
def changeAll (s : Settings) (changes : List (String × Value)) : Except Fault Settings :=
  let changes := changes.filter fun (name, value) => name = wholeName ∨ value ≠ .nothing
  match changes.find? fun change => !names.contains change.1 with
  | some (name, _) => .error (.unknownSetting name)
  | none => changes.foldlM (fun s (name, value) => s.change name value) s

/-- Whether deferred units are checked. -/
def balance (s : Settings) : Bool := !s.checkStack.isEmpty

/-- Where a trace goes, if one is wanted. -/
def tracePath? (s : Settings) : Option String :=
  match s.traceFile with
  | .text path => if path = "" then none else some path
  | _ => none

/-- The levels by name. -/
def levels : List (String × Nat) :=
  [("CRITICAL", 50), ("FATAL", 50), ("ERROR", 40), ("WARN", 30), ("WARNING", 30), ("INFO", 20),
    ("DEBUG", 10), ("NOTSET", 0)]

/-- The least severity that is shown; a level of no known name stands for warnings. -/
def severity (s : Settings) : Nat := (levels.lookup (Text.upper s.logLevel)).getD 30

/-- The same after being asked to say more: once for information, twice for everything. -/
def threshold (s : Settings) : Nat → Nat
  | 0 => s.severity
  | 1 => min s.severity Level.info.severity
  | _ => Level.debug.severity

end Settings

end Disassembler
