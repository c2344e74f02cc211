import Disassembler.Listing.Block

/-!
The lines of a listing: rows with their labels and comments, between a banner and the
cross-references.
-/

namespace Disassembler

/-- A note may take up several lines of text. -/
inductive Line where
  | text (s : String)
  | label (name : String)
  | note (address : Int) (text : String)
  | row (row : Row) (comment : Option String)
  deriving DecidableEq, Repr

namespace Line

/-- A semicolon starts every line of a remark. -/
def remark (s : String) : String :=
  "; " ++ String.ofList (s.toList.flatMap fun c => if c = '\n' then ['\n', ';', ' '] else [c])

def commentColumn : Nat := 60

/-- A comment starts in its column, or after one blank if the line reaches beyond it. Without a
comment the line ends at its last character that is not blank. -/
def withComment (line : String) : Option String → String
  | none => Text.trimEnd line
  | some comment =>
    line ++ String.ofList (List.replicate (max 1 (commentColumn - line.length)) ' ') ++
      remark comment

/-- The text of a line; `width` is the width of the column of instruction bytes. -/
def toString (width : Int) : Line → String
  | text s => s
  | label name => name ++ ":"
  | note _ s => remark s
  | row r comment =>
    match r.body with
    | .code _ => withComment (r.text width) comment
    | _ => r.text width

end Line

namespace Listing

def noteLines (l : Listing) (address : Int) : List Line :=
  ((l.plan.blockComments.at? address).map (Line.note address)).toList

/-- An empty label is not shown. -/
def labelLines (symbols : SymbolTable) (address : Int) : List Line :=
  (((symbols.label? address).filter (· ≠ "")).map Line.label).toList

/-- A line of code has its note in front of it. -/
def rowLines (l : Listing) (symbols : SymbolTable) (row : Row) : List Line :=
  match row.body with
  | .code _ =>
    l.noteLines row.address ++ labelLines symbols row.address ++
      [.row row (l.plan.lineComments.at? row.address)]
  | _ => labelLines symbols row.address ++ [.row row none]

def ruleOf (n : Nat) : Line := .text (String.ofList (List.replicate n '-'))

/-- The name of a procedure is that of its segment, or else the label where it starts. -/
def procedureName (symbols : SymbolTable) (b : Block) : String :=
  ((b.segment.name.filter (· ≠ "")).or (symbols.label? b.start)).getD ""

/-- A procedure has a header unless there is a note where it starts. -/
def headerLines (l : Listing) (symbols : SymbolTable) (b : Block) : List Line :=
  if b.segment.mode = .procs ∧ l.plan.blockComments.at? b.start = none then
    [ruleOf 64, .text ("        Function: " ++ procedureName symbols b), .text ""]
  else []

/-- Data has its note in front of the whole block. -/
def leadLines (l : Listing) (b : Block) : List Line :=
  if b.kind = .code then [] else l.noteLines b.start

def blockLines (l : Listing) (symbols : SymbolTable) (b : Block) : List Line :=
  l.headerLines symbols b ++ l.leadLines b ++ b.rows.flatMap (l.rowLines symbols)

/-- An empty line stands before every block but the second of two blocks of code. -/
def gapLines (previous : Option RowKind) (kind : RowKind) : List Line :=
  if kind = .code ∧ previous = some .code then [] else [.text ""]

def blocksLines (l : Listing) (symbols : SymbolTable) : Option RowKind → List Block → List Line
  | _, [] => []
  | previous, b :: rest =>
    gapLines previous b.kind ++ l.blockLines symbols b ++ l.blocksLines symbols (some b.kind) rest

/-- Bytes in the banner have small letters. -/
def smallByte (b : UInt8) : String :=
  String.ofList (({ Text.byteStyle with capital := false } : Text.NumeralStyle).layout b.toNat)

def inputName (l : Listing) : String := (l.plan.inputFile.map Path.toString).getD ""

/-- What is said of the image, which has `size` bytes and is loaded at `start`. -/
def banner (l : Listing) (size : Nat) (start : Int) : List Line :=
  [.text ("    " ++ l.arch.profile.name ++ " -- " ++ l.arch.profile.description ++
    " Disassembler --"),
    ruleOf 65,
    .text ("    Input file       : " ++ l.inputName),
    ruleOf 65,
    .text "",
    .text ("   Processing \"" ++ l.inputName ++ "\" (" ++ Text.decimal size ++ " bytes)"),
    .text ("   Disassembly start address: 0x" ++ Text.address start),
    .text ("   String terminator: 0x" ++ smallByte l.plan.terminator)]

/-- What stands between the rows and the report. -/
def reportHeader : List Line := [.text "", .text "", .text "XREFS :", .text ""]

def lines (l : Listing) (size : Nat) (start : Int) (symbols : SymbolTable) (blocks : List Block) :
    List Line :=
  l.banner size start ++ l.blocksLines symbols none blocks ++ reportHeader

end Listing

end Disassembler
