import Disassembler.Decoder.Instruction

/-!
The rows of a listing. A row shows the bytes of the image from its address on.
-/

namespace Disassembler

/-- The sorts of rows. -/
inductive RowKind where
  | code
  | bytes
  | strings
  | words
  | vectors
  | chars
  deriving DecidableEq, Repr

/-- What a row shows of its bytes. -/
inductive RowBody where
  | code (instruction : Instruction)
  | bytes
  /-- the bytes in front of a terminator -/
  | string (run : List UInt8)
  | words (values : List Nat)
  /-- one word, as a label if its value has one -/
  | vector (shown : String)
  | chars
  deriving DecidableEq, Repr

structure Row where
  address : Int
  /-- the bytes that the row takes up -/
  bytes : List UInt8
  body : RowBody
  deriving DecidableEq, Repr

namespace Row

def bytesPerRow : Nat := 16

def itemsPerRow : Nat := 8

def isPlain (b : UInt8) : Bool := 0x20 ≤ b && b < 0x7F

def plain (b : UInt8) : Char := Char.ofNat b.toNat

/-- Bytes as pairs of digits, each with a blank behind it. -/
def hexCells (bytes : List UInt8) : List Char :=
  bytes.flatMap fun b => (Text.byte b).toList ++ [' ']

def dataWord : String := "DB      "

def wordWord : String := "DW      "

/-- The readable side of a row of bytes. -/
def gutter (bytes : List UInt8) : List Char := bytes.map fun b => if isPlain b then plain b else '.'

def bytesText (bytes : List UInt8) : String :=
  dataWord ++ String.ofList ((hexCells bytes).rightpad (bytesPerRow * 3) ' ' ++ "      ".toList ++
    gutter bytes)

/-- A byte of a string: itself, or a backslash and two digits. -/
def stringCell (b : UInt8) : List Char :=
  if isPlain b then [plain b] else '\\' :: (Text.byte b).toList

def stringText (run : List UInt8) : String :=
  dataWord ++ "'" ++ String.ofList (run.flatMap stringCell) ++ "'"

def wordsText (values : List Nat) : String :=
  wordWord ++ " ".intercalate (values.map fun v : Nat => Text.address v)

/-- A byte of a row of characters: itself in quotes, or two digits. -/
def charCell (b : UInt8) : List Char :=
  if isPlain b then ['\'', plain b, '\'', ','] else (Text.byte b).toList ++ [',']

def charsText (bytes : List UInt8) : String := dataWord ++ String.ofList (bytes.flatMap charCell)

/-- The bytes of an instruction, in a column that is `width` bytes wide, and its text. -/
def codeText (width : Int) (i : Instruction) : String :=
  String.ofList ((hexCells i.raw).rightpad (width * 3).toNat ' ') ++ "   " ++ i.text

/-- Whether there can be a column that is `width` bytes wide. -/
def checkWidth (width : Int) : Except Fault Unit :=
  (Capacity.checkWidth (width * 3)).mapError .excess

def margin (address : Int) : String := "    " ++ Text.address address ++ ":    "

def text (width : Int) (row : Row) : String :=
  margin row.address ++
    match row.body with
    | .code i => codeText width i
    | .bytes => bytesText row.bytes
    | .string run => stringText run
    | .words values => wordsText values
    | .vector shown => wordWord ++ shown
    | .chars => charsText row.bytes

end Row

end Disassembler
