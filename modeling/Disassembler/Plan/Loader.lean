import Disassembler.Action
import Disassembler.Plan.Basic
import Disassembler.Symbol.Table
import Disassembler.Text.Line

/-!
Loading a command file: its directives, and those of the files it includes, are applied in order to
a symbol table and a plan. A failed load leaves what was applied before the failure.
-/

namespace Disassembler

/-- What a path gives when it is read. -/
abbrev Files := Path → Except OpenError (List UInt8)

structure Loading where
  symbols : SymbolTable
  plan : Plan := {}
  log : List Event := []
  deriving DecidableEq, Repr, Inhabited

abbrev Loader := Action Loading

namespace Loader

def say (events : List Event) : Loader Unit := modify fun s => { s with log := s.log ++ events }

def onPlan (f : Plan → Plan) : Loader Unit := modify fun s => { s with plan := f s.plan }

/-- Generate a label unless there is one. -/
def autoLabel (address : Int) : Loader Unit := do
  say ((← get).symbols.autoLabelEvents address)
  modify fun s => { s with symbols := (s.symbols.autoLabel address).2 }

/-- Bind a label; a clash is reported with its place. -/
def bindLabel (file : Path) (line : Nat) (address : Int) (name : String) : Loader Unit := do
  let s ← get
  match s.symbols.bind address name with
  | .ok symbols =>
    say (s.symbols.bindEvents address name)
    modify fun s => { s with symbols }
  | .error (.duplicateLabel address existing new) =>
    throw (.labelClash file line address existing new)
  | .error fault => throw fault

def label (file : Path) (line : Nat) (address : Int) : Option String → Loader Unit
  | none => autoLabel address
  | some name => bindLabel file line address name

/-- Add to one of the two sorts of comments. A comment outside the range is dropped; a second one
for the same address is refused. -/
def addComment (get : Plan → Comments) (put : Comments → Plan → Plan) (file : Path) (line : Nat)
    (address : Int) (text : String) : Loader Unit := fun s =>
  if s.symbols.inRange address then
    match (get s.plan).at? address with
    | some _ => .error (.commentClash file line address) s
    | none => .ok () { s with plan := put ((get s.plan).insert address text) s.plan }
  else .ok () s

def addLineComment : Path → Nat → Int → String → Loader Unit :=
  addComment (·.lineComments) fun lineComments plan => { plan with lineComments }

def addBlockComment : Path → Nat → Int → String → Loader Unit :=
  addComment (·.blockComments) fun blockComments plan => { plan with blockComments }

/-- Start a segment. Its name is a label; a procedure without a name gets a generated one. -/
def startSegment (file : Path) (line : Nat) (mode : SegmentMode) (address : Int)
    (name : Option String) : Loader Unit := do
  match name with
  | some name => bindLabel file line address name
  | none => if mode = .procs then autoLabel address else pure ()
  onPlan (·.addSegment ⟨address, mode, name⟩)

/-- Apply a directive that takes up one line. -/
def apply (file : Path) (line : Nat) : Directive → Loader Unit
  | .segment mode address name => startSegment file line mode address name
  | .label address name => label file line address name
  | .comment address (some text) => addLineComment file line address text
  | .comment _ none => pure ()
  | .range low high =>
    modify fun s => { s with symbols := s.symbols.setRange (some low) (some high) }
  | .terminator value =>
    if value < 256 then onPlan fun plan => { plan with terminator := value.toUInt8 }
    else throw (.terminatorTooLarge file line value)
  | .inputFile name => onPlan fun plan => { plan with inputFile := some (file.relativeTo name) }
  | .note .. => pure ()
  | .embed _ => pure ()

/-- A block note that is being read. -/
structure OpenNote where
  address : Nat
  lines : List String

/-- Empty lines and lines that start with a number sign say nothing. -/
def isSilent (line : List Char) : Bool := line.isEmpty || line.head? == some '#'

/-- Go through numbered lines. The lines of an open note are taken as they stand, up to a line that
starts with a full stop. -/
def readLines (embed : Path → Loader Unit) (file : Path) :
    Nat → List (List Char) → Option OpenNote → Loader Unit
  | _, [], none => pure ()
  | _, [], some note => throw (.unclosedNote file note.address)
  | n, raw :: rest, some note =>
    if raw.head? = some '.' then do
      addBlockComment file n note.address ("\n".intercalate note.lines)
      readLines embed file (n + 1) rest none
    else readLines embed file (n + 1) rest
      (some { note with lines := note.lines ++ [String.ofList raw] })
  | n, raw :: rest, none =>
    let line := Text.dropBlanks raw
    if isSilent line then readLines embed file (n + 1) rest none
    else
      match Directive.ofChars? line with
      | none => throw (.malformedCommand file n (String.ofList line))
      | some directive => do
        say [⟨.debug, .loader, Fault.place file n ++ directive.inspect⟩]
        match directive with
        | .note address text => readLines embed file (n + 1) rest (some ⟨address, text.toList⟩)
        | .embed name =>
          embed (file.relativeTo name)
          readLines embed file (n + 1) rest none
        | directive =>
          apply file n directive
          readLines embed file (n + 1) rest none

/-- The text of a file. -/
def readText (files : Files) (file : Path) : Loader (List Char) := do
  let bytes ← Action.lift ((files file).mapError (.unopenable file))
  match String.fromUTF8? ⟨bytes.toArray⟩ with
  | some text => return text.toList
  | none => throw (.notUnicode file)

/-- Includes may be nested this deep. -/
def maxDepth : Nat := 16

/-- Read a command file and everything it includes. `levels` bounds the nesting of the includes,
this file counted. -/
def readFile (files : Files) (levels : Nat) (isIncluded : Bool) (file : Path) : Loader Unit :=
  match levels with
  | 0 => throw (.includesTooDeep file)
  | levels + 1 => do
    let text ← readText files file
    onPlan fun plan => { plan with sources := plan.sources ++ [file] }
    say (if isIncluded then [⟨.info, .loader, "including " ++ file.toString⟩] else [])
    readLines (readFile files levels true) file 1 (Text.lines text) none

/-- Load a command file; the image must be named. -/
def loadFile (files : Files) (file : Path) : Loader Plan := do
  readFile files (maxDepth + 1) false file
  let plan := (← get).plan
  if plan.inputFile.isSome then return plan else throw .noInputFile

end Loader

/-- Load a command file into a symbol table. -/
def load (files : Files) (file : Path) (symbols : SymbolTable) : Except Fault Plan × Loading :=
  Action.outcome (Loader.loadFile files file { symbols })

end Disassembler
