import Disassembler.Decoder.Rule

/-!
The Zilog Z80. The base page leads to four others: CB (bit operations), ED (extended operations) and
the DD and FD pages of the index registers. After DD CB and FD CB the displacement stands before the
last opcode, so it is deferred on the way to the bit tables and their operands take it back.
-/

namespace Disassembler.Z80

def profile : Profile where
  name := "z80"
  description := "Zilog Z80"
  maxLength := 4
  mnemonicWidth := 8

/-! ## Operands -/

def registers : List String := ["B", "C", "D", "E", "H", "L", "(HL)", "A"]

/-- A register in the low three bits. -/
def reg : Operand := .field 0 3 registers

/-- A register in bits three to five. -/
def reg2 : Operand := .field 3 3 registers

def pair : Operand := .field 4 2 ["BC", "DE", "HL", "SP"]

def indirectPair : Operand := .field 4 2 ["(BC)", "(DE)", "(HL)", "(SP)"]

def bitNumber : Operand := .field 3 3 ["0", "1", "2", "3", "4", "5", "6", "7"]

def condition : Operand := .field 3 3 ["NZ", "Z", "NC", "C", "PO", "PE", "P", "M"]

/-- A relative jump has only the first four conditions. -/
def shortCondition : Operand := .field 3 2 ["NZ", "Z", "NC", "C"]

def restart : Operand := .field 3 3 ["$00", "$08", "$10", "$18", "$20", "$28", "$30", "$38"]

def imm8 : Operand := .imm8 "#$%02X"

def imm16 : Operand := .abs16 "#$%04X" "%s"

def addr16 : Operand := .abs16 "$%04X" "%s"

def mem16 : Operand := .abs16 "$%04X" "(%s)"

def mem8 : Operand := .abs8 "$%02X" "(%s)"

def rel8 : Operand := .rel8 "$%04X" "%s"

def text (s : String) : Operand := .literal s

/-! ## Rules -/

def one (name : String) (operand : Operand) (opcode : Int) (kind : RefKind := .none) : Rule :=
  .exact ⟨name, operand, kind⟩ opcode

def many (name : String) (operand : Operand) (mask value : Int) (kind : RefKind := .none) : Rule :=
  .mask ⟨name, operand, kind⟩ mask value

def plain (name : String) (opcode : Int) : Rule := one name .none opcode

/-- Rotations and shifts with their place in the bit pages. -/
def rotations : List (String × Nat) :=
  [("RLC", 0x00), ("RRC", 0x08), ("RL", 0x10), ("RR", 0x18),
    ("SLA", 0x20), ("SRA", 0x28), ("SLL", 0x30), ("SRL", 0x38)]

/-- Operations on the accumulator with their place in the base page. -/
def accumulator : List (String × Nat) :=
  [("ADD", 0x00), ("ADC", 0x08), ("SUB", 0x10), ("SBC", 0x18),
    ("AND", 0x20), ("XOR", 0x28), ("OR", 0x30), ("CP", 0x38)]

def bitPage : Table where
  name := "z80.cb"
  rules :=
    rotations.map (fun (name, base) => many name reg 0xF8 base .reg) ++
    [many "BIT" (.list [bitNumber, reg]) 0xC0 0x40 .reg,
      many "RES" (.list [bitNumber, reg]) 0xC0 0x80 .reg,
      many "SET" (.list [bitNumber, reg]) 0xC0 0xC0 .reg]

/-- The returns stand before the loads, whose masks would take them. -/
def extendedPage : Table where
  name := "z80.ed"
  rules :=
    [many "ADC" (.list [text "HL", pair]) 0xCF 0x4A, many "SBC" (.list [text "HL", pair]) 0xCF 0x42,
      plain "NEG" 0x44,
      plain "LDI" 0xA0, plain "CPI" 0xA1, plain "INI" 0xA2, plain "OUTI" 0xA3,
      plain "LDIR" 0xB0, plain "CPIR" 0xB1, plain "INIR" 0xB2, plain "OTIR" 0xB3,
      plain "RRD" 0x67, plain "RLD" 0x6F,
      plain "LDD" 0xA8, plain "CPD" 0xA9, plain "IND" 0xAA, plain "OUTD" 0xAB,
      plain "LDDR" 0xB8, plain "CPDR" 0xB9, plain "INDR" 0xBA, plain "OTDR" 0xBB,
      plain "RETI" 0x4D, plain "RETN" 0x45,
      many "LD" (.list [mem16, pair]) 0xCF 0x43 .ptr,
        many "LD" (.list [pair, mem16]) 0xCF 0x4B .ptr] ++
    [0x40, 0x50, 0x60].map (fun opcode => one "IN" (.list [reg2, text "(C)"]) opcode .io) ++
    [many "IN" (.list [reg2, text "(C)"]) 0xCF 0x48 .io] ++
    [0x41, 0x51, 0x61].map (fun opcode => one "OUT" (.list [text "(C)", reg2]) opcode .io) ++
    [many "OUT" (.list [text "(C)", reg2]) 0xCF 0x49 .io,
      one "LD" (text "I, A") 0x47, one "LD" (text "A, I") 0x57,
      one "LD" (text "R, A") 0x4F, one "LD" (text "A, R") 0x5F,
      one "IM" (text "0") 0x46, one "IM" (text "1") 0x56, one "IM" (text "2") 0x5E]

/-- The bit table of an index register. -/
def indexBits (table register : String) : Table :=
  let off := Operand.indexedDeferred register
  { name := table
    rules :=
      rotations.flatMap (fun (name, base) =>
        [one name off (base ||| 0x06 : Nat) .reg, many name (.list [off, reg]) 0xF8 base .reg]) ++
      [many "BIT" (.list [bitNumber, off]) 0xC0 0x40 .reg,
        many "RES" (.list [bitNumber, off]) 0xC7 0x86 .reg,
        many "RES" (.list [bitNumber, off, reg]) 0xC0 0x80 .reg,
        many "SET" (.list [bitNumber, off]) 0xC7 0xC6 .reg,
        many "SET" (.list [bitNumber, off, reg]) 0xC0 0xC0 .reg] }

/-- The page of an index register, which leads to its bit table. -/
def indexPage (table bits register : String) : Table :=
  let index := text register
  let off := Operand.indexed register
  { name := table
    rules :=
      [one "LD" (.list [index, imm16]) 0x21 .imm,
        one "LD" (.list [mem16, index]) 0x22 .direct,
        one "LD" (.list [index, mem16]) 0x2A .direct,
        one "LD" (.list [text "SP", index]) 0xF9 .reg,
        .range ⟨"LD", .list [off, reg], .reg⟩ 0x70 0x75,
        one "LD" (.list [off, reg]) 0x77 .reg,
        one "LD" (.list [off, imm8]) 0x36 .imm,
        .undef 0x76,
        many "LD" (.list [reg2, off]) 0xC7 0x46 .reg,
        one "POP" index 0xE1 .reg,
        one "PUSH" index 0xE5 .reg,
        one "EX" (.list [text "(SP)", index]) 0xE3 .reg,
        one "INC" index 0x23 .reg,
        one "INC" off 0x34 .reg,
        one "DEC" index 0x2B .reg,
        one "DEC" off 0x35 .reg,
        one "ADD" (.list [index, index]) 0x29 .reg,
        many "ADD" (.list [index, pair]) 0xCF 0x09 .reg] ++
      accumulator.map (fun (name, base) => one name (.list [text "A", off])
        (0x86 ||| base : Nat) .reg) ++
      [one "JP" (text ("(" ++ register ++ ")")) 0xE9 .reg, .push bits 0xCB 1] }

def root : Table where
  name := "z80"
  rules :=
    [plain "HALT" 0x76,
      many "LD" (.list [reg2, reg]) 0xC0 0x40 .ptr,
      many "LD" (.list [reg2, imm8]) 0xC7 0x06 .imm,
      many "LD" (.list [pair, imm16]) 0xCF 0x01 .imm,
      many "LD" (.list [indirectPair, text "A"]) 0xEF 0x02 .ptr,
      many "LD" (.list [text "A", indirectPair]) 0xEF 0x0A .ptr,
      one "LD" (.list [mem16, text "HL"]) 0x22 .ptr,
      one "LD" (.list [text "HL", mem16]) 0x2A .ptr,
      one "LD" (.list [mem16, text "A"]) 0x32 .ptr,
      one "LD" (.list [text "A", mem16]) 0x3A .ptr,
      one "POP" (text "AF") 0xF1 .reg,
      many "POP" pair 0xCF 0xC1 .reg,
      one "PUSH" (text "AF") 0xF5 .reg,
      many "PUSH" pair 0xCF 0xC5 .reg,
      one "IN" (.list [text "A", mem8]) 0xDB .io,
      one "OUT" (.list [mem8, text "A"]) 0xD3 .io,
      one "LD" (text "SP, HL") 0xF9] ++
    accumulator.map (fun (name, base) => many name (.list [text "A", reg]) 0xF8
      (0x80 ||| base : Nat)) ++
    accumulator.map (fun (name, base) => one name (.list [text "A", imm8])
      (0xC6 ||| base : Nat) .imm) ++
    [plain "RLCA" 0x07, plain "RRCA" 0x0F, plain "RLA" 0x17, plain "RRA" 0x1F,
      plain "DAA" 0x27, plain "CPL" 0x2F, plain "SCF" 0x37, plain "CCF" 0x3F,
      many "INC" reg2 0xC7 0x04 .reg,
      many "DEC" reg2 0xC7 0x05 .reg,
      many "INC" pair 0xCF 0x03,
      many "DEC" pair 0xCF 0x0B,
      many "ADD" (.list [text "HL", pair]) 0xCF 0x09,
      plain "RET" 0xC9,
      many "RET" condition 0xC7 0xC0,
      one "DJNZ" rel8 0x10 .jump,
      one "JP" addr16 0xC3 .jump,
      many "JP" (.list [condition, addr16]) 0xC7 0xC2 .jump,
      one "JP" (text "(HL)") 0xE9 .reg,
      one "CALL" addr16 0xCD .call,
      many "CALL" (.list [condition, addr16]) 0xC7 0xC4 .call,
      one "JR" rel8 0x18 .jump,
      many "JR" (.list [shortCondition, rel8]) 0xE7 0x20 .jump,
      plain "NOP" 0x00,
      plain "DI" 0xF3,
      plain "EI" 0xFB,
      plain "EXX" 0xD9,
      one "EX" (text "DE, HL") 0xEB,
      one "EX" (text "AF, AF'") 0x08,
      one "EX" (text "(SP), HL") 0xE3,
      many "RST" restart 0xC7 0xC7,
      .sub "z80.cb" 0xCB,
      .sub "z80.ix" 0xDD,
      .sub "z80.ed" 0xED,
      .sub "z80.iy" 0xFD]

def arch : Architecture where
  profile := profile
  root := root
  pages :=
    [bitPage, extendedPage,
      indexPage "z80.ix" "z80.ixcb" "IX", indexBits "z80.ixcb" "IX",
      indexPage "z80.iy" "z80.iycb" "IY", indexBits "z80.iycb" "IY"]

end Disassembler.Z80
