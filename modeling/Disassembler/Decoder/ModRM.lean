import Disassembler.Decoder.Basic

/-!
Operands of the 8086 that depend on a ModRM byte, on a segment override or on the size of the
operation.
-/

namespace Disassembler.ModRM

def segmentRegisters : List String := ["ES", "CS", "SS", "DS"]

def wordRegisters : List String := ["AX", "CX", "DX", "BX", "SP", "BP", "SI", "DI"]

def byteRegisters : List String := ["AL", "CL", "DL", "BL", "AH", "CH", "DH", "BH"]

def bases : List String := ["BX + SI", "BX + DI", "BP + SI", "BP + DI", "SI", "DI", "BP", "BX"]

def register (wide : Bool) (n : Nat) : String :=
  (if wide then wordRegisters else byteRegisters).getD n ""

def sizeLetter (wide : Bool) : String := if wide then "W" else "B"

/-- Use up a segment override. -/
def segment : Decoder Unit := do
  match ← Decoder.takeEffect "seg" with
  | some name => Decoder.write "%s:" [name]
  | none => pure ()

/-- The memory operand at an absolute address. -/
def absolute (site : Site) (kind : RefKind) (wide : Bool) : Decoder Unit := do
  let target ← Decoder.readWord
  segment
  Decoder.address site kind target "0%04X" (sizeLetter wide ++ "[%s]")

/-- The operand that the `mod` and `rm` fields select. -/
def effectiveAddress (site : Site) (kind : RefKind) (wide : Bool) (mod rm : Nat) : Decoder Unit :=
  if mod = 3 then Decoder.write "%s" [.text (register wide rm)]
  else if mod = 0 ∧ rm = 6 then absolute site kind wide
  else if mod = 0 then do
    segment
    Decoder.write "%s[%s]" [.text (sizeLetter wide), .text (bases.getD rm "")]
  else if mod = 1 then do
    let displacement ← Decoder.readByte
    segment
    Decoder.write "%s[%s + 0%02X]" [.text (sizeLetter wide), .text (bases.getD rm ""),
      .number displacement]
  else do
    let displacement ← Decoder.readWord
    segment
    Decoder.write "%s[%s + 0%04X]" [.text (sizeLetter wide), .text (bases.getD rm ""),
      .number displacement]

/-- What an opcode says about its ModRM byte. -/
structure Form where
  wide : Bool
  /-- the register is the destination and stands first -/
  toRegister : Bool
  /-- the `reg` field names a segment register -/
  isSegment : Bool
  /-- the `reg` field selects the operation, so that there is no register operand -/
  selectsOperation : Bool
  deriving DecidableEq, Repr

def operationGroups : List Nat :=
  [0xFF, 0xFE, 0x8F, 0xD0, 0xD1, 0xD2, 0xD3, 0x80, 0x81, 0x83, 0xC6, 0xC7, 0xF6, 0xF7]

def Form.ofOpcode (opcode : Nat) : Form where
  wide := opcode % 2 = 1 || [0xC4, 0x8C, 0x8E].contains opcode
  toRegister := opcode / 2 % 2 = 1 || [0xC4, 0x8D, 0xC5].contains opcode
  isSegment := [0x8C, 0x8E].contains opcode
  selectsOperation := operationGroups.contains opcode || opcode % 256 / 8 = 0x1B

/-- The register operand that the `reg` field names. -/
def Form.register (form : Form) (reg : Nat) : Decoder Unit :=
  Decoder.write "%s"
    [.text (if form.isSegment then segmentRegisters.getD (reg % 4) ""
      else ModRM.register form.wide reg)]

/-- The operands that a ModRM byte describes. -/
def operands (site : Site) (kind : RefKind) (opcode : Nat) : Decoder Unit := do
  let form := Form.ofOpcode opcode
  let modrm ← Decoder.readByte
  let memory := effectiveAddress site kind form.wide (modrm / 64 % 4) (modrm % 8)
  let register := form.register (modrm / 8 % 8)
  if form.selectsOperation then memory
  else if form.toRegister then do
    register
    Decoder.comma
    memory
  else do
    memory
    Decoder.comma
    register

/-- The size bits of an opcode that takes an immediate: 1 for a word, 3 for a byte widened to a
word, else a byte. Moves and tests have no widened form. -/
def immediateSize (opcode : Nat) : Nat :=
  if opcode / 2 = 0x63 ∨ opcode / 2 = 0x7B then opcode % 2 else opcode % 4

/-- The immediate operand of an instruction group. -/
def immediate (opcode : Nat) : Decoder Unit :=
  if immediateSize opcode = 1 then do Decoder.number "0%04X" (← Decoder.readWord)
  else if immediateSize opcode = 3 then do Decoder.number "0%04X" ((← Decoder.readSigned) % 65536)
  else do Decoder.number "0%02X" (← Decoder.readByte)

/-- A far pointer, the offset before the segment. -/
def farPointer : Decoder Unit := do
  let offset ← Decoder.readWord
  let segment ← Decoder.readWord
  Decoder.write "0%04X:0%04X" [.number segment, .number offset]

end Disassembler.ModRM
