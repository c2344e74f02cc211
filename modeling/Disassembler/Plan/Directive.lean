import Disassembler.Text.Blank
import Disassembler.Text.Quoted

/-!
Directives: the lines of a command file. A line starts with a one-letter command:

* `f` the input image, `i` another command file read in place, `t` the string terminator, `r` the
  range of the cross-references;
* `c a b s w v p e` the start of a segment, with an address and an optional name;
* `l` a label, `k` a line comment, `n` a block note, each with an address and an optional text.
-/

namespace Disassembler

/-- How a segment of the image is shown. -/
inductive SegmentMode where
  | code
  | bytes
  | strings
  /-- nothing is shown from here on -/
  | stop
  | words
  | chars
  /-- code that starts a procedure -/
  | procs
  | vectors
  deriving DecidableEq, Repr, Inhabited

namespace SegmentMode

def all : List SegmentMode := [code, bytes, strings, stop, words, chars, procs, vectors]

def letter : SegmentMode → Char
  | code => 'c'
  | bytes => 'b'
  | strings => 's'
  | stop => 'e'
  | words => 'w'
  | chars => 'a'
  | procs => 'p'
  | vectors => 'v'

def name : SegmentMode → String
  | code => "CODE"
  | bytes => "BYTES"
  | strings => "STRINGS"
  | stop => "END"
  | words => "WORDS"
  | chars => "CHARS"
  | procs => "PROCS"
  | vectors => "VECTORS"

def ofLetter? (c : Char) : Option SegmentMode := all.find? fun mode => mode.letter = c

end SegmentMode

inductive Directive where
  | segment (mode : SegmentMode) (address : Nat) (name : Option String)
  | label (address : Nat) (name : Option String)
  | comment (address : Nat) (text : Option String)
  | note (address : Nat) (text : Option String)
  | range (low high : Nat)
  | terminator (value : Nat)
  | inputFile (name : String)
  /-- read another command file here -/
  | embed (name : String)
  deriving DecidableEq, Repr

namespace Directive

def command : Directive → Char
  | segment mode _ _ => mode.letter
  | label .. => 'l'
  | comment .. => 'k'
  | note .. => 'n'
  | range .. => 'r'
  | terminator _ => 't'
  | inputFile _ => 'f'
  | embed _ => 'i'

def address? : Directive → Option Nat
  | segment _ address _ => some address
  | label address _ => some address
  | comment address _ => some address
  | note address _ => some address
  | range low _ => some low
  | terminator value => some value
  | inputFile _ => none
  | embed _ => none

def text? : Directive → Option String
  | segment _ _ name => name
  | label _ name => name
  | comment _ text => text
  | note _ text => text
  | range .. => none
  | terminator _ => none
  | inputFile name => some name
  | embed name => some name

def end? : Directive → Option Nat
  | range _ high => some high
  | _ => none

/-! ## Grammar -/

/-- What separates the parts of a line. -/
def isGap (c : Char) : Bool := c = ' ' || c = '\t'

def isHexDigit (c : Char) : Bool :=
  ('0' ≤ c && c ≤ '9') || ('A' ≤ c && c ≤ 'F') || ('a' ≤ c && c ≤ 'f')

def hexDigitValue (c : Char) : Nat :=
  if c ≤ '9' then c.toNat - '0'.toNat else if c ≤ 'F' then c.toNat - 'A'.toNat + 10
    else c.toNat - 'a'.toNat + 10

/-- The value of a row of hexadecimal digits. -/
def hexValue (cs : List Char) : Nat := cs.foldl (fun n c => 16 * n + hexDigitValue c) 0

/-- Text starts and ends with a character that is not blank and holds no line feed. -/
def isText (cs : List Char) : Bool :=
  cs.head?.any (!Text.isBlank ·) && cs.getLast?.any (!Text.isBlank ·) && !cs.contains '\n'

/-- A number after an optional gap, and what follows it. -/
def number? (cs : List Char) : Option (Nat × List Char) :=
  let cs := cs.dropWhile isGap
  if cs.takeWhile isHexDigit = [] then none
  else some (hexValue (cs.takeWhile isHexDigit), cs.dropWhile isHexDigit)

/-- A text after an optional gap, up to the end of the line. -/
def wholeText? (cs : List Char) : Option String :=
  let cs := cs.dropWhile isGap
  if isText cs then some (String.ofList cs) else none

/-- Nothing, or a text after a gap. -/
def optionalText? : List Char → Option (Option String)
  | [] => some none
  | c :: cs => if isGap c then (wholeText? cs).map some else none

/-- An address and an optional text. -/
def addressed? (build : Nat → Option String → Directive) (cs : List Char) : Option Directive := do
  let (address, rest) ← number? cs
  return build address (← optionalText? rest)

/-- Two numbers with a comma between them. -/
def range? (cs : List Char) : Option Directive := do
  let (low, rest) ← number? cs
  match rest.dropWhile isGap with
  | ',' :: rest =>
    let (high, rest) ← number? rest
    if rest = [] then some (range low high) else none
  | _ => none

def terminator? (cs : List Char) : Option Directive := do
  let (value, rest) ← number? cs
  if rest = [] then some (terminator value) else none

/-- Read one line that has been stripped of blanks. -/
def ofChars? : List Char → Option Directive
  | [] => none
  | c :: cs =>
    match SegmentMode.ofLetter? c with
    | some mode => addressed? (segment mode) cs
    | none =>
      match c with
      | 'l' => addressed? label cs
      | 'k' => addressed? comment cs
      | 'n' => addressed? note cs
      | 'r' => range? cs
      | 't' => terminator? cs
      | 'f' => (wholeText? cs).map inputFile
      | 'i' => (wholeText? cs).map embed
      | _ => none

def ofString? (line : String) : Option Directive := ofChars? line.toList

/-! ## Display -/

def shownOr (f : α → String) : Option α → String
  | some a => f a
  | none => "None"

/-- A directive with the names of its fields. -/
def inspect (d : Directive) : String :=
  "Directive(command=" ++ Text.quoted (String.ofList [d.command]) ++
    ", address=" ++ shownOr (fun n : Nat => Text.decimal n) d.address? ++
    ", text=" ++ shownOr Text.quoted d.text? ++
    ", end=" ++ shownOr (fun n : Nat => Text.decimal n) d.end? ++ ")"

end Directive

end Disassembler
