import Disassembler.Decoder.Rule

/-!
The MOS Technology 6502.
-/

namespace Disassembler.Mos6502

def profile : Profile where
  name := "mos6502"
  description := "MOS Technology 6502"
  maxLength := 3
  mnemonicWidth := 8

/-! ## Operands -/

def imm8 : Operand := .imm8 "#$%02X"

def zeroPage : Operand := .abs8 "$%02X" "%s"

def zeroPageX : Operand := .list [zeroPage, .literal "X"]

def zeroPageY : Operand := .list [zeroPage, .literal "Y"]

def abs16 : Operand := .abs16 "$%04X" "%s"

def abs16X : Operand := .list [abs16, .literal "X"]

def abs16Y : Operand := .list [abs16, .literal "Y"]

def indirect : Operand := .abs16 "$%04X" "(%s)"

def indirectX : Operand := .list [.abs8 "$%02X" "(%s", .literal "X)"]

def indirectY : Operand := .list [.abs8 "$%02X" "(%s)", .literal "Y"]

def rel8 : Operand := .rel8 "$%04X" "%s"

/-! ## Rules -/

def plain (name : String) (opcode : Int) : Rule := .exact ⟨name, .none, .none⟩ opcode

def immediate (name : String) (opcode : Int) : Rule := .exact ⟨name, imm8, .none⟩ opcode

/-- An instruction that refers to memory through a pointer. -/
def memory (name : String) (operand : Operand) (opcode : Int) : Rule :=
  .exact ⟨name, operand, .ptr⟩ opcode

/-- The eight addressing modes of an operation on the accumulator. -/
def accumulator (name : String) (base : Nat) : List Rule :=
  [immediate name (0x09 ||| base : Nat),
    memory name zeroPage (0x05 ||| base : Nat),
    memory name zeroPageX (0x15 ||| base : Nat),
    memory name abs16 (0x0D ||| base : Nat),
    memory name abs16X (0x1D ||| base : Nat),
    memory name abs16Y (0x19 ||| base : Nat),
    memory name indirectX (0x01 ||| base : Nat),
    memory name indirectY (0x11 ||| base : Nat)]

/-- The five addressing modes of a shift. -/
def shift (name : String) (base : Nat) : List Rule :=
  [plain name (0x0A ||| base : Nat),
    memory name zeroPage (0x06 ||| base : Nat),
    memory name zeroPageX (0x16 ||| base : Nat),
    memory name abs16 (0x0E ||| base : Nat),
    memory name abs16X (0x1E ||| base : Nat)]

def branch (name : String) (opcode : Int) : Rule := .exact ⟨name, rel8, .jump⟩ opcode

def loadsAndStores : List Rule :=
  accumulator "LDA" 0xA0 ++
  [immediate "LDX" 0xA2, memory "LDX" zeroPage 0xA6, memory "LDX" zeroPageY 0xB6,
    memory "LDX" abs16 0xAE, memory "LDX" abs16Y 0xBE,
    immediate "LDY" 0xA0, memory "LDY" zeroPage 0xA4, memory "LDY" zeroPageX 0xB4,
    memory "LDY" abs16 0xAC, memory "LDY" abs16X 0xBC,
    memory "STA" zeroPage 0x85, memory "STA" zeroPageX 0x95, memory "STA" abs16 0x8D,
    memory "STA" abs16X 0x9D, memory "STA" abs16Y 0x99, memory "STA" indirectX 0x81,
    memory "STA" indirectY 0x91,
    memory "STX" zeroPage 0x86, memory "STX" zeroPageY 0x96, memory "STX" abs16 0x8E,
    memory "STY" zeroPage 0x84, memory "STY" zeroPageX 0x94, memory "STY" abs16 0x8C]

def transfersAndStack : List Rule :=
  [plain "TAX" 0xAA, plain "TAY" 0xA8, plain "TXA" 0x8A, plain "TYA" 0x98, plain "TSX" 0xBA,
    plain "TXS" 0x9A, plain "PHA" 0x48, plain "PHP" 0x08, plain "PLA" 0x68, plain "PLP" 0x28]

def arithmetic : List Rule :=
  accumulator "AND" 0x20 ++ accumulator "EOR" 0x40 ++ accumulator "ORA" 0x00 ++
  [memory "BIT" zeroPage 0x24, memory "BIT" abs16 0x2C] ++
  accumulator "ADC" 0x60 ++ accumulator "SBC" 0xE0 ++ accumulator "CMP" 0xC0 ++
  [immediate "CPX" 0xE0, memory "CPX" zeroPage 0xE4, memory "CPX" abs16 0xEC,
    immediate "CPY" 0xC0, memory "CPY" zeroPage 0xC4, memory "CPY" abs16 0xCC]

def counting : List Rule :=
  [memory "INC" zeroPage 0xE6, memory "INC" zeroPageX 0xF6, memory "INC" abs16 0xEE,
    memory "INC" abs16X 0xFE,
    memory "DEC" zeroPage 0xC6, memory "DEC" zeroPageX 0xD6, memory "DEC" abs16 0xCE,
    memory "DEC" abs16X 0xDE,
    plain "INX" 0xE8, plain "INY" 0xC8, plain "DEX" 0xCA, plain "DEY" 0x88]

def shifts : List Rule :=
  shift "ASL" 0x00 ++ shift "LSR" 0x40 ++ shift "ROL" 0x20 ++ shift "ROR" 0x60

def control : List Rule :=
  [.exact ⟨"JMP", abs16, .jump⟩ 0x4C, memory "JMP" indirect 0x6C, .exact ⟨"JSR", abs16, .call⟩ 0x20,
    plain "RTS" 0x60,
    branch "BCC" 0x90, branch "BCS" 0xB0, branch "BEQ" 0xF0, branch "BMI" 0x30,
    branch "BNE" 0xD0, branch "BPL" 0x10, branch "BVC" 0x50, branch "BVS" 0x70]

def flagsAndSystem : List Rule :=
  [plain "CLC" 0x18, plain "CLD" 0xD8, plain "CLI" 0x58, plain "CLV" 0xB8, plain "SEC" 0x38,
    plain "SED" 0xF8, plain "SEI" 0x78, plain "BRK" 0x00, plain "NOP" 0xEA, plain "RTI" 0x40]

def root : Table where
  name := "mos6502"
  rules := loadsAndStores ++ transfersAndStack ++ arithmetic ++ counting ++ shifts ++ control ++
    flagsAndSystem

def arch : Architecture := { profile, root }

end Disassembler.Mos6502
