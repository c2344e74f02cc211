import Disassembler.Decoder.ModRM
import Disassembler.Displacement

/-!
Operands, as data. An operand says how the part of an instruction after the mnemonic is read and
written; `Operand.render` carries it out for the unit that selected the instruction. The templates
in it are filled by `Text.fill`, which knows the conversions of the instruction tables and refuses
all others.
-/

namespace Disassembler

inductive Operand where
  | none
  /-- text as it stands -/
  | literal (text : String)
  /-- two operands with a separator between them -/
  | pair (first : Operand) (separator : String) (second : Operand)
  /-- an immediate byte -/
  | imm8 (template : String)
  /-- an immediate word -/
  | imm16 (template : String)
  /-- an address of one byte -/
  | abs8 (format wrap : String)
  /-- an address of one word -/
  | abs16 (format wrap : String)
  /-- a displacement of one byte from the address after it -/
  | rel8 (format wrap : String)
  /-- a displacement of one word from the address after it -/
  | rel16 (format wrap : String)
  /-- a deferred unit -/
  | deferred (template : String)
  /-- the selecting unit itself -/
  | opcode (template : String)
  /-- one more unit -/
  | unit (template : String)
  /-- the next unit, left unread -/
  | peek (template : String)
  /-- defer the selecting unit -/
  | push
  /-- leave an effect for a later operand -/
  | set (key : String) (value : Value)
  /-- use up an effect and write it; `fallback` stands in for an effect that is not there -/
  | take (key : String) (fallback : Value)
  /-- refer to the address that the selecting unit gives -/
  | refer
  /-- the name that `width` bits of the selecting unit choose, counted from bit `shift` -/
  | field (shift width : Nat) (names : List String)
  /-- an index register with a displacement byte -/
  | indexed (register : String)
  /-- an index register with a deferred displacement -/
  | indexedDeferred (register : String)
  /-- a byte that is read and not shown -/
  | skip
  /-- a memory operand at an absolute address, its size in the lowest bit of the selecting unit -/
  | direct
  | farPointer
  | modrm
  /-- the immediate of an instruction group -/
  | groupImmediate
  deriving DecidableEq, Repr, Inhabited

namespace Operand

/-- Operands from left to right with a separator between each two. -/
def seq (separator : String) : List Operand → Operand
  | [] => none
  | [o] => o
  | o :: os => pair o separator (seq separator os)

def list : List Operand → Operand := seq ", "

/-- An index register and a displacement read as a signed byte. -/
def offset (register : String) (displacement : Nat) : Decoder Unit :=
  if displacement < 128 then Decoder.write "(%s+$%02X)" [.text register, .number displacement]
  else Decoder.write "(%s-$%02X)" [.text register, .number (256 - displacement)]

/-- The address that a displacement of `bits` bits leads to from the next unread byte. -/
def relative (site : Site) (kind : RefKind) (displacement bits : Nat) (format wrap : String) :
    Decoder Unit := do
  Decoder.address site kind (Displacement.target (← Decoder.here) displacement bits) format wrap

def render (site : Site) (kind : RefKind) (selector : Nat) : Operand → Decoder Unit
  | none => pure ()
  | literal s => Decoder.text s
  | pair first separator second => do
    render site kind selector first
    Decoder.separator separator
    render site kind selector second
  | imm8 template => do Decoder.number template (← Decoder.readByte)
  | imm16 template => do Decoder.number template (← Decoder.readWord)
  | abs8 format wrap => do Decoder.address site kind (← Decoder.readByte) format wrap
  | abs16 format wrap => do Decoder.address site kind (← Decoder.readWord) format wrap
  | rel8 format wrap => do relative site kind (← Decoder.readByte) 8 format wrap
  | rel16 format wrap => do relative site kind (← Decoder.readWord) 16 format wrap
  | deferred template => do Decoder.number template (← Decoder.pop)
  | opcode template => Decoder.number template selector
  | unit template => do Decoder.number template (← Decoder.fetch)
  | peek template => do Decoder.number template (← Decoder.peek)
  | push => Decoder.push selector
  | set key value => Decoder.setEffect key value
  | take key fallback => do Decoder.value ((← Decoder.takeEffect key).getD fallback)
  | refer => Decoder.record site selector kind
  | field shift width names =>
    Decoder.write "%s" [.text (names.getD (selector / 2 ^ shift % 2 ^ width) "")]
  | indexed register => do offset register (← Decoder.readByte)
  | indexedDeferred register => do offset register ((← Decoder.pop) % 256).toNat
  | skip => do let _ ← Decoder.readByte
  | direct => ModRM.absolute site kind (selector % 2 = 1)
  | farPointer => ModRM.farPointer
  | modrm => ModRM.operands site kind selector
  | groupImmediate => ModRM.immediate selector

end Operand

end Disassembler
