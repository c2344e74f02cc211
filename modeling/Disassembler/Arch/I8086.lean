import Disassembler.Decoder.Rule

/-!
The Intel 8086. Segment overrides and repetitions are prefixes: they leave an effect for a later
operand or for the mnemonic and the walk starts again. Where the `reg` field of the ModRM byte
selects the operation, the rules look at that byte without reading it.
-/

namespace Disassembler.I8086

def profile : Profile where
  name := "i8086"
  description := "Intel 8086"
  maxLength := 6
  mnemonicWidth := 8

/-! ## Operands -/

/-- A register in the low four bits, the byte registers first. -/
def reg : Operand := .field 0 4 (ModRM.byteRegisters ++ ModRM.wordRegisters)

def reg16 : Operand := .field 0 3 ModRM.wordRegisters

def acc : Operand := .field 0 1 ["AL", "AX"]

def segmentReg : Operand := .field 3 2 ModRM.segmentRegisters

def imm8 : Operand := .imm8 "0%02X"

def imm16 : Operand := .abs16 "0%04X" "%s"

/-- A stack adjustment: a count, never an address. -/
def count16 : Operand := .imm16 "0%04X"

def disp8 : Operand := .rel8 "0%04X" "%s"

def disp16 : Operand := .rel16 "0%04X" "%s"

/-- The operand of a shift, by one or by `CL`. -/
def shiftCount : Operand := .list [.modrm, .field 1 1 ["1", "CL"]]

def modrmImm : Operand := .list [.modrm, .groupImmediate]

/-! ## Rules -/

def one (name : String) (operand : Operand) (opcode : Int) (kind : RefKind := .none) : Rule :=
  .exact ⟨name, operand, kind⟩ opcode

def many (name : String) (operand : Operand) (mask value : Int) (kind : RefKind := .none) : Rule :=
  .mask ⟨name, operand, kind⟩ mask value

def plain (name : String) (opcode : Int) : Rule := one name .none opcode

/-- An operation that the `reg` field selects, under each of several opcodes. -/
def group (name : String) (extension : Int) (opcodes : List Int) (operand : Operand := .modrm)
    (kind : RefKind := .none) : List Rule :=
  opcodes.map fun opcode => .maskNext ⟨name, operand, kind⟩ opcode 0x38 extension

/-- An operation on the accumulator with an immediate operand. -/
def accumulator (name : String) (opcode : Nat) : List Rule :=
  [one name (.list [acc, imm8]) opcode, one name (.list [acc, imm16]) (opcode ||| 1 : Nat)]

def immediates : List Int := [0x80, 0x81, 0x83]

def unary : List Int := [0xFE, 0xFF]

def unaryGroup : List Int := [0xF6, 0xF7]

def shifts : List Int := [0xD0, 0xD1, 0xD2, 0xD3]

def transfers : List Rule :=
  [plain "NOP" 0x90,
    many "MOV" (.list [acc, .direct]) 0xFE 0xA0 .data,
    many "MOV" (.list [.direct, acc]) 0xFE 0xA2 .data,
    many "MOV" (.list [reg, imm8]) 0xF8 0xB0,
    many "MOV" (.list [reg, imm16]) 0xF8 0xB8 .imm,
    many "MOV" .modrm 0xFC 0x88 .data,
    many "MOV" .modrm 0xFD 0x8C,
    many "MOV" modrmImm 0xFE 0xC6 .data,
    many "IN" (.list [acc, imm8]) 0xFE 0xE4 .io,
    many "IN" (.list [acc, .literal "DX"]) 0xFE 0xEC,
    many "OUT" (.list [imm8, acc]) 0xFE 0xE6 .io,
    many "OUT" (.list [.literal "DX", acc]) 0xFE 0xEE,
    many "PUSH" reg16 0xF8 0x50,
    many "PUSH" segmentReg 0xE7 0x06,
    .maskNext ⟨"PUSH", .modrm, .data⟩ 0xFF 0x38 0x30,
    many "POP" reg16 0xF8 0x58,
    many "POP" segmentReg 0xE7 0x07,
    .maskNext ⟨"POP", .modrm, .data⟩ 0x8F 0x38 0x00,
    many "XCHG" (.list [.literal "AX", reg16]) 0xF8 0x90,
    many "XCHG" .modrm 0xFE 0x86 .data,
    plain "XLAT" 0xD7,
    one "LEA" .modrm 0x8D .data,
    one "LDS" .modrm 0xC5 .data,
    one "LES" .modrm 0xC4 .data,
    plain "LAHF" 0x9F, plain "SAHF" 0x9E, plain "PUSHF" 0x9C, plain "POPF" 0x9D]

def arithmetic : List Rule :=
  accumulator "ADD" 0x04 ++ accumulator "ADC" 0x14 ++ accumulator "SUB" 0x2C ++
  accumulator "SBB" 0x1C ++ accumulator "CMP" 0x3C ++ accumulator "AND" 0x24 ++
  accumulator "TEST" 0xA8 ++ accumulator "OR" 0x0C ++ accumulator "XOR" 0x34 ++
  group "ADD" 0x00 immediates modrmImm ++ group "ADC" 0x10 immediates modrmImm ++
  group "SUB" 0x28 immediates modrmImm ++ group "SBB" 0x18 immediates modrmImm ++
  group "CMP" 0x38 immediates modrmImm ++ group "AND" 0x20 [0x80, 0x81] modrmImm ++
  group "OR" 0x08 [0x80, 0x81] modrmImm ++ group "XOR" 0x30 [0x80, 0x81] modrmImm ++
  group "TEST" 0x00 unaryGroup modrmImm ++
  [many "ADD" .modrm 0xFC 0x00 .data, many "ADC" .modrm 0xFC 0x10 .data,
    many "SUB" .modrm 0xFC 0x28 .data, many "SBB" .modrm 0xFC 0x18 .data,
    many "CMP" .modrm 0xFC 0x38 .data, many "AND" .modrm 0xFC 0x20 .data,
    many "TEST" .modrm 0xFE 0x84 .data, many "OR" .modrm 0xFC 0x08 .data,
    many "XOR" .modrm 0xFC 0x30 .data] ++
  [many "INC" reg16 0xF8 0x40] ++ group "INC" 0x00 unary ++
  [many "DEC" reg16 0xF8 0x48] ++ group "DEC" 0x08 unary ++
  group "NOT" 0x10 unaryGroup ++ group "NEG" 0x18 unaryGroup ++ group "MUL" 0x20 unaryGroup ++
  group "IMUL" 0x28 unaryGroup ++ group "DIV" 0x30 unaryGroup ++ group "IDIV" 0x38 unaryGroup ++
  [plain "AAA" 0x37, plain "DAA" 0x27, plain "AAS" 0x3F, plain "DAS" 0x2F,
    .maskNext ⟨"AAM", .skip, .none⟩ 0xD4 0xFF 0x0A, .maskNext ⟨"AAD", .skip, .none⟩ 0xD5 0xFF 0x0A,
    plain "CBW" 0x98, plain "CWD" 0x99]

def rotations : List Rule :=
  group "ROL" 0x00 shifts shiftCount ++ group "ROR" 0x08 shifts shiftCount ++
  group "RCL" 0x10 shifts shiftCount ++ group "RCR" 0x18 shifts shiftCount ++
  group "SHL" 0x20 shifts shiftCount ++ group "SHR" 0x28 shifts shiftCount ++
  group "SAR" 0x38 shifts shiftCount

def strings : List Rule :=
  [.lead (.set "lead" (.text "REPNZ ")) .none 0xF2, .lead (.set "lead" (.text "REP ")) .none 0xF3,
    plain "MOVSB" 0xA4, plain "MOVSW" 0xA5, plain "CMPSB" 0xA6, plain "CMPSW" 0xA7,
    plain "SCASB" 0xAE, plain "SCASW" 0xAF, plain "LODSB" 0xAC, plain "LODSW" 0xAD,
    plain "STOSB" 0xAA, plain "STOSW" 0xAB]

/-- The conditional jumps in the order of their condition codes. -/
def conditionalJumps : List (String × Int) :=
  [("JO", 0x70), ("JNO", 0x71), ("JB", 0x72), ("JNB", 0x73), ("JE", 0x74), ("JNE", 0x75),
    ("JBE", 0x76), ("JNBE", 0x77), ("JS", 0x78), ("JNS", 0x79), ("JP", 0x7A), ("JNP", 0x7B),
    ("JL", 0x7C), ("JNL", 0x7D), ("JLE", 0x7E), ("JNLE", 0x7F)]

def control : List Rule :=
  [one "CALL" disp16 0xE8 .call, one "CALL" .farPointer 0x9A .call] ++
  group "CALL" 0x10 [0xFF] .modrm .call ++ group "CALL" 0x18 [0xFF] .modrm .call ++
  [one "JMP" disp8 0xEB .jump, one "JMP" disp16 0xE9 .jump, one "JMP" .farPointer 0xEA .jump] ++
  group "JMP" 0x20 [0xFF] .modrm .jump ++ group "JMP" 0x28 [0xFF] .modrm .jump ++
  [plain "RETN" 0xC3, one "RETN" count16 0xC2, plain "RETF" 0xCB, one "RETF" count16 0xCA] ++
  conditionalJumps.map (fun (name, opcode) => one name disp8 opcode .jump) ++
  [one "LOOP" disp8 0xE2 .jump, one "LOOPZ" disp8 0xE1 .jump, one "LOOPNZ" disp8 0xE0 .jump,
    one "JCXZ" disp8 0xE3 .jump,
    one "INT" imm8 0xCD, plain "INT3" 0xCC, plain "INTO" 0xCE, plain "IRET" 0xCF]

def processor : List Rule :=
  [plain "CLC" 0xF8, plain "CMC" 0xF5, plain "STC" 0xF9, plain "CLD" 0xFC, plain "STD" 0xFD,
    plain "CLI" 0xFA, plain "STI" 0xFB, plain "HLT" 0xF4, plain "WAIT" 0x9B,
    many "ESC" .modrm 0xF8 0xD8, plain "LOCK" 0xF0,
    .lead (.set "seg" (.text "ES")) .none 0x26, .lead (.set "seg" (.text "CS")) .none 0x2E,
    .lead (.set "seg" (.text "SS")) .none 0x36, .lead (.set "seg" (.text "DS")) .none 0x3E]

def root : Table where
  name := "i8086"
  rules := transfers ++ arithmetic ++ rotations ++ strings ++ control ++ processor

def arch : Architecture := { profile, root }

end Disassembler.I8086
