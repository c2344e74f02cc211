import Disassembler.Decoder.Walk
import Disassembler.Text.Blank

/-!
Decoding one instruction, and decoding an image from end to end.
-/

namespace Disassembler

/-- A decoded instruction. When no rule matched, `found` is false and the text is `???`. -/
structure Instruction where
  text : String
  address : Int
  next : Int
  raw : List UInt8
  found : Bool
  deriving DecidableEq, Repr

def Instruction.length (i : Instruction) : Int := i.next - i.address

/-- Everything that decoding one instruction leaves, also when it fails. -/
structure Decoded where
  result : Except Fault Instruction
  cursor : Cursor
  symbols : SymbolTable
  peeks : Nat
  log : List Event

def unknownMnemonic : String := "???"

namespace Decoder

/-- If no rule matched, say so. -/
def settle (site : Site) : Bool → Decoder Unit
  | true => pure ()
  | false => do
    note ("no match at " ++ Text.address site.address)
    mnemonic site unknownMnemonic

/-- The instruction that has been written. If `balance` is set, a match must have used up every
deferred unit; a failed match may leave some. -/
def conclude (balance : Bool) (site : Site) (found : Bool) : Decoder Instruction := fun s =>
  if balance && found && s.stack.size ≠ 0 then .error (.unconsumed s.stack.size site.address) s
  else
    .ok
      { text := Text.trimEnd s.out.toString
        address := site.address
        next := s.cursor.addr
        raw := s.cursor.captured
        found }
      s

def instruction (arch : Architecture) (balance : Bool) (site : Site) : Decoder Instruction := do
  let unit ← fetch
  let found ← Walk.walk arch site arch.root unit
  settle site found
  conclude balance site found

end Decoder

/-- The site of the instruction at a cursor. -/
def Architecture.site (arch : Architecture) (cursor : Cursor) : Site :=
  ⟨cursor.addr, arch.profile.mnemonicWidth⟩

/-- The state that decoding starts in. -/
def Decoding.start (cursor : Cursor) (symbols : SymbolTable) : Decoding :=
  { cursor := cursor.beginInstruction, symbols }

def Decoded.of (result : Except Fault Instruction) (s : Decoding) : Decoded :=
  { result, cursor := s.cursor, symbols := s.symbols, peeks := s.peeks, log := s.log }

/-- Decode the instruction at a cursor. -/
def decode (arch : Architecture) (balance : Bool) (cursor : Cursor)
    (symbols : SymbolTable) : Decoded :=
  match Decoder.instruction arch balance (arch.site cursor) (.start cursor symbols) with
  | .ok i s => .of (.ok i) s
  | .error e s => .of (.error e) s

/-! ## Every instruction reads some input -/

namespace Decoder

theorem forward_settle (site : Site) (found : Bool) : Forward (settle site found) := by
  cases found with
  | true => exact forward_pure _
  | false => exact forward_bind (forward_note _) fun _ => forward_mnemonic _ _

theorem forward_conclude (balance : Bool) (site : Site) (found : Bool) :
    Forward (conclude balance site found) := by
  refine Still.forward fun s => ?_
  unfold conclude
  split <;> rfl

theorem instruction_shortens {arch : Architecture} {balance : Bool} {site : Site} {s t : Decoding}
    {i : Instruction} (h : instruction arch balance site s = .ok i t) :
    t.cursor.rest.length < s.cursor.rest.length := by
  exact Walk.fetch_bind_shortens (fun _ => forward_bind (Walk.forward_walk _ _ _ _) fun _ =>
    forward_bind (forward_settle _ _) fun _ => forward_conclude _ _ _) h

end Decoder

/-- A decoded instruction has been read: less input is left. -/
theorem decode_shortens {arch : Architecture} {balance : Bool} {cursor : Cursor}
    {symbols : SymbolTable} {i : Instruction}
    (h : (decode arch balance cursor symbols).result = .ok i) :
    (decode arch balance cursor symbols).cursor.rest.length < cursor.rest.length := by
  unfold decode at h ⊢
  cases hr : Decoder.instruction arch balance (arch.site cursor) (.start cursor symbols) with
  | error e t => rw [hr] at h; cases h
  | ok j t => exact Decoder.instruction_shortens hr

/-! ## Decoding a whole image -/

/-- Decode until the input ends or an instruction fails; every outcome, in order. -/
def sweep (arch : Architecture) (balance : Bool) (cursor : Cursor) (symbols : SymbolTable) :
    List Decoded :=
  if cursor.atEnd then []
  else
    let d := decode arch balance cursor symbols
    match h : d.result with
    | .error _ => [d]
    | .ok _ =>
      have := decode_shortens h
      d :: sweep arch balance d.cursor d.symbols
termination_by cursor.rest.length

end Disassembler
