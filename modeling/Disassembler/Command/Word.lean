import Disassembler.Text.Decimal
import Disassembler.Text.Quoted

/-!
The words of a command line: operands, options in their spellings, and the divider after which every
word is an operand.
-/

namespace Disassembler.Command

inductive Switch where
  | help
  | output
  | verbose
  | trace
  | checkStack (on : Bool)
  | listArchs
  deriving DecidableEq, Repr

namespace Switch

def takesValue : Switch → Bool
  | output | trace => true
  | _ => false

/-- The name of a switch in messages. -/
def name : Switch → String
  | help => "-h/--help"
  | output => "-o/--output"
  | verbose => "-v/--verbose"
  | trace => "--trace"
  | checkStack _ => "--check-stack/--no-check-stack"
  | listArchs => "--list-archs"

def spellings : List (String × Switch) :=
  [("-h", help), ("--help", help), ("-o", output), ("--output", output), ("-v", verbose),
    ("--verbose", verbose), ("--trace", trace), ("--check-stack", checkStack true),
    ("--no-check-stack", checkStack false), ("--list-archs", listArchs)]

def ofSpelling? (s : String) : Option Switch := spellings.lookup s

/-- The switch of one letter. -/
def ofLetter? (c : Char) : Option Switch := ofSpelling? (String.ofList ['-', c])

end Switch

/-- What is wrong with a command line. -/
inductive UsageError where
  | ambiguous (word : String) (choices : List String)
  | expectsValue (switch : Switch)
  | ignoredValue (switch : Switch) (value : String)
  | unrecognized (words : List String)
  | operandsRequired
  deriving DecidableEq, Repr

def UsageError.reason : UsageError → String
  | ambiguous word choices =>
    "ambiguous option: " ++ word ++ " could match " ++ ", ".intercalate choices
  | expectsValue switch => "argument " ++ switch.name ++ ": expected one argument"
  | ignoredValue switch value =>
    "argument " ++ switch.name ++ ": ignored explicit argument " ++ Text.quoted value
  | unrecognized words => "unrecognized arguments: " ++ " ".intercalate words
  | operandsRequired => "ARCH and LISTFILE are required"

def UsageError.message (e : UsageError) : String := "retrodasm: error: " ++ e.reason

/-- What is written in the same word behind a switch. -/
inductive Attached where
  | nothing
  /-- behind an equals sign -/
  | value (text : List Char)
  /-- right behind the letter of a switch: a value, or further letters -/
  | tail (text : List Char)
  deriving DecidableEq, Repr

inductive Word where
  | operand (text : String)
  | divider
  | short (switch : Switch) (attached : Attached)
  | long (switch : Switch) (attached : Attached)
  /-- looks like an option and is none -/
  | unknown (text : String)
  deriving DecidableEq, Repr

namespace Word

/-- The text before the first equals sign, and the text after it if there is one. -/
def splitEquals (cs : List Char) : List Char × Attached :=
  match cs.dropWhile (· ≠ '=') with
  | [] => (cs, .nothing)
  | _ :: rest => (cs.takeWhile (· ≠ '='), .value rest)

def isNumberBody (cs : List Char) : Bool :=
  (!cs.isEmpty && cs.all Text.isDecimalDigit) ||
    match cs.dropWhile Text.isDecimalDigit with
    | '.' :: fraction => !fraction.isEmpty && fraction.all Text.isDecimalDigit
    | _ => false

/-- A minus sign and a decimal number; a line feed at the end does not count. -/
def isNegativeNumber : List Char → Bool
  | '-' :: cs => isNumberBody cs || (cs.getLast? == some '\n' && isNumberBody cs.dropLast)
  | _ => false

def withSwitch (spelling : String) (switch : Switch) (attached : Attached) : Word :=
  if "--".toList.isPrefixOf spelling.toList then .long switch attached else .short switch attached

/-- A word that is the beginning of no option: a negative number and a word with a blank are
operands. -/
def plain (s : String) : Word :=
  if isNegativeNumber s.toList || s.toList.contains ' ' then .operand s else .unknown s

/-- A long option may be cut short as long as it can be told from the others. -/
def abbreviated (s : String) : Except UsageError Word :=
  let (stem, attached) := splitEquals s.toList
  match Switch.spellings.filter fun (spelling, _) => stem.isPrefixOf spelling.toList with
  | [] => .ok (plain s)
  | [(_, switch)] => .ok (.long switch attached)
  | choices => .error (.ambiguous s (choices.map (·.1)))

/-- Read a word that starts with a minus sign and is no spelling of an option as it stands. -/
def ofDashed (s : String) : Except UsageError Word :=
  match splitEquals s.toList, s.toList with
  | (_, _), ['-'] => .ok (.operand s)
  | (stem, .value text), cs =>
    match Switch.ofSpelling? (String.ofList stem) with
    | some switch => .ok (withSwitch (String.ofList stem) switch (.value text))
    | none => ofTail s cs
  | (_, _), cs => ofTail s cs
where
  /-- Letters may stand behind one minus sign; a long option stands behind two. -/
  ofTail (s : String) : List Char → Except UsageError Word
    | '-' :: '-' :: _ => abbreviated s
    | '-' :: c :: tail =>
      match Switch.ofLetter? c with
      | some switch => .ok (.short switch (.tail tail))
      | none => .ok (plain s)
    | _ => .ok (plain s)

def ofString (s : String) : Except UsageError Word :=
  match Switch.ofSpelling? s with
  | some switch => .ok (withSwitch s switch .nothing)
  | none => if s.toList.head? = some '-' then ofDashed s else .ok (.operand s)

/-- Read the words of a command line. -/
def ofArguments : List String → Except UsageError (List Word)
  | [] => .ok []
  | s :: rest =>
    if s = "--" then .ok (.divider :: rest.map .operand)
    else do return (← ofString s) :: (← ofArguments rest)

end Word

end Disassembler.Command
