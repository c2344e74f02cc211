import Disassembler.Listing.Row
import Disassembler.Trace.Tracer

/-!
The trace of a row: a slice for each instruction. The instructions that no rule matched are counted.
-/

namespace Disassembler

/-- The first word of the text. -/
def Instruction.head (i : Instruction) : String :=
  match i.text.toList.takeWhile (· ≠ ' ') with
  | [] => "?"
  | cs => String.ofList cs

def Row.isUnknown (row : Row) : Bool :=
  match row.body with
  | .code i => !i.found
  | _ => false

/-- Count an instruction that no rule matched. -/
def Tracer.countUnknown (row : Row) (state : Nat × Tracer) : Nat × Tracer :=
  if row.isUnknown then
    (state.1 + 1, state.2.count Tracer.counterName (.number (state.1 + 1))) else state

/-- An instruction lasts as many ticks as it has bytes. -/
def Tracer.row (state : Nat × Tracer) (row : Row) : Nat × Tracer :=
  match row.body with
  | .code i =>
    let (unknown, t) := Tracer.countUnknown row state
    t.slice "Instructions" i.head [("addr", .number row.address)] fun t =>
      (unknown, t.advance i.length)
  | _ => state

end Disassembler
