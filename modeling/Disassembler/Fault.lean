import Disassembler.Path
import Disassembler.Text.Template

/-!
Everything that can go wrong, as causes; the wording of each stands in `Fault.message`.
-/

namespace Disassembler

open Text (TemplateFlaw)

inductive Fault where
  /-- a read past the end of the input, at an address if one is known -/
  | endOfInput (address : Option Int)
  | duplicateLabel (address : Int) (existing new : String)
  | unitWidth (width : Int)
  | textTooLong (limit : Int)
  | stackOverflow
  | stackUnderflow
  | unknownRule (shown table : String)
  /-- a rule that leads to a table that is not there -/
  | unknownTable (name : String)
  | noTables
  | unconsumed (count : Nat) (address : Int)
  | template (flaw : TemplateFlaw)
  /-- something too large -/
  | excess (excess : Excess)
  /-- something other than text was to be written -/
  | notText
  /-- a byte was asked for where the input has none -/
  | noByte
  /-- a number that stands for no kind of reference -/
  | referenceKind (code : Int)
  /-- a shift by a negative number of bits -/
  | negativeShift
  | unknownArchitecture (name : String) (known : List String)
  /-- an environment variable with a NUL character -/
  | nulInVariable
  | unknownSetting (name : String)
  /-- a level that is no text -/
  | levelNotText
  | includesTooDeep (file : Path)
  | unopenable (file : Path) (reason : OpenError)
  | notUnicode (file : Path)
  | unclosedNote (file : Path) (address : Nat)
  | malformedCommand (file : Path) (line : Nat) (text : String)
  | terminatorTooLarge (file : Path) (line : Nat) (value : Nat)
  | labelClash (file : Path) (line : Nat) (address : Int) (existing new : String)
  | commentClash (file : Path) (line : Nat) (address : Int)
  | noInputFile
  | noSegments
  | unreadableImage (file : Path) (reason : OpenError)
  | unreadable (file : Path) (reason : OpenError)
  | unwritable (file : Path) (reason : OpenError)
  | noTraceBackend
  /-- any other reason to give up -/
  | aborted (reason : String)
  deriving DecidableEq, Repr

namespace Fault

/-- The families of faults that callers tell apart. -/
inductive Family where
  | endOfInput
  | duplicateLabel
  | configuration
  | table
  | general
  /-- arguments that do not fit -/
  | argument
  /-- a value outside its domain -/
  | value
  /-- an operation that a value does not have -/
  | operation
  /-- a place that is not there -/
  | index
  /-- a name that stands for nothing -/
  | key
  | unicode
  | excess (excess : Excess)
  | file (reason : OpenError)
  deriving DecidableEq, Repr

def family : Fault → Family
  | endOfInput _ => .endOfInput
  | duplicateLabel .. => .duplicateLabel
  | unitWidth _ | textTooLong _ | stackOverflow | stackUnderflow | unknownRule .. | unconsumed .. =>
    .table
  | template .arguments | notText | unknownSetting _ => .argument
  | template .conversion | referenceKind _ | negativeShift | nulInVariable => .value
  | unopenable _ .nulInName | unreadableImage _ .nulInName => .value
  | unreadable _ .nulInName | unwritable _ .nulInName => .value
  | unreadable _ reason | unwritable _ reason => .file reason
  | levelNotText => .operation
  | excess e => .excess e
  | template .tooWide => .excess .memory
  | noByte | noTables => .index
  | unknownTable _ => .key
  | notUnicode _ => .unicode
  | aborted _ => .general
  | _ => .configuration

/-- A fatal fault of the disassembler itself; the others are mistakes in how it is called. -/
def isReported (fault : Fault) : Bool :=
  match fault.family with
  | .endOfInput | .duplicateLabel | .configuration | .table | .general => true
  | _ => false

def clash (address : Int) (existing new : String) : String :=
  "multiple labels for same address " ++ Text.address address ++ ": '" ++ existing ++
    "' and '" ++ new ++ "'"

/-- A place in a command file. -/
def place (file : Path) (line : Nat) : String := file.toString ++ ":" ++ Text.decimal line ++ ": "

def message : Fault → String
  | endOfInput none => "run out of input file"
  | endOfInput (some address) => "run out of input file at " ++ Text.address address
  | duplicateLabel address existing new => clash address existing new
  | unitWidth width => "unsupported instruction unit width " ++ Text.decimal width
  | textTooLong limit => "instruction text exceeds " ++ Text.decimal limit ++ " characters"
  | stackOverflow => "deferred unit stack overflow"
  | stackUnderflow => "deferred unit stack underflow"
  | unknownRule shown table => "unknown rule " ++ shown ++ " in " ++ table
  | unknownTable name => "unknown table " ++ name
  | noTables => "no tables"
  | unconsumed count address =>
    Text.decimal count ++ " deferred unit(s) left unconsumed at " ++ Text.address address
  | template .arguments => "template and arguments do not match"
  | template .conversion => "unknown conversion in template"
  | template .tooWide => "no room for the width of a conversion"
  | excess .word => "too large to count"
  | excess .memory => "no room"
  | notText => "only text can be written"
  | noByte => "no byte to read"
  | referenceKind code => Text.decimal code ++ " is not a valid kind of reference"
  | negativeShift => "negative shift count"
  | unknownArchitecture name known =>
    "unknown architecture '" ++ name ++ "' (known: " ++ ", ".intercalate known ++ ")"
  | nulInVariable => "NUL character in an environment variable"
  | unknownSetting name => "unknown setting " ++ name
  | levelNotText => "a level is named by text"
  | includesTooDeep file => file.toString ++ ": includes nested too deeply"
  | unopenable file reason =>
    "failed to open list command file \"" ++ file.toString ++ "\": " ++ reason.reason
  | notUnicode file => file.toString ++ " is not valid UTF-8"
  | unclosedNote file address =>
    file.toString ++ ": note at " ++ Text.address address ++ " is not closed with '.'"
  | malformedCommand file line text => place file line ++ "malformed command '" ++ text ++ "'"
  | terminatorTooLarge file line value =>
    place file line ++ "string terminator " ++ String.ofList (Text.digits 16 true value) ++
      " is not a byte"
  | labelClash file line address existing new => place file line ++ clash address existing new
  | commentClash file line address =>
    place file line ++ "multiple comments for same address " ++ Text.address address
  | noInputFile => "no input file specified"
  | noSegments => "empty list file"
  | unreadableImage file _ => "failed to open input file " ++ file.toString
  | unreadable file reason => reason.reason ++ ": " ++ file.toString
  | unwritable file reason => reason.reason ++ ": " ++ file.toString
  | noTraceBackend =>
    "tracing needs the 'retrobus-perfetto' package (pip install retrodasm[trace])"
  | aborted reason => reason

/-- A computation that succeeds has succeeded in both of its parts. -/
theorem bind_eq_ok {α β : Type} {r : Except Fault α} {f : α → Except Fault β} {b : β}
    (h : r >>= f = .ok b) : ∃ a, r = .ok a ∧ f a = .ok b := by
  cases r with
  | error fault => cases h
  | ok a => exact ⟨a, rfl, h⟩

end Fault

end Disassembler
