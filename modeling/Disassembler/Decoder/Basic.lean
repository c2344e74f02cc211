import Disassembler.Cursor
import Disassembler.Decoder.Deferred
import Disassembler.Decoder.Output
import Disassembler.Symbol.Table

/-!
The state of decoding one instruction, and the steps that operands and rules are made of.
-/

namespace Disassembler

/-- What stays fixed while one instruction is decoded: the address of its first unit, which is the
source of every reference made by it, and the width of the mnemonic column. -/
structure Site where
  address : Int := 0
  mnemonicWidth : Int := 8
  deriving DecidableEq, Repr, Inhabited

/-- `effects` holds what prefixes have left for later operands, one value for each key; `peeks`
counts the looks at the next unit. -/
structure Decoding where
  cursor : Cursor
  symbols : SymbolTable
  out : Output := {}
  stack : Deferred := {}
  effects : List (String × Value) := []
  peeks : Nat := 0
  log : List Event := []
  deriving DecidableEq, Repr, Inhabited

abbrev Decoder := Action Decoding

namespace Decoder

variable {α : Type}

def onCursor (m : Action Cursor α) : Decoder α :=
  Action.on (·.cursor) (fun cursor s => { s with cursor }) m

def onOutput (m : Action Output α) : Decoder α := Action.on (·.out) (fun out s => { s with out }) m

def onStack (m : Action Deferred α) : Decoder α :=
  Action.on (·.stack) (fun stack s => { s with stack }) m

def note (message : String) : Decoder Unit :=
  modify fun s => { s with log := s.log ++ [⟨.debug, .decoder, message⟩] }

/-! ## Input -/

def fetch : Decoder Nat := onCursor Cursor.fetch

/-- Look at the next unit; a look that fails counts too. -/
def peek : Decoder Nat := do
  modify fun s => { s with peeks := s.peeks + 1 }
  onCursor Cursor.peek

def readByte : Decoder Nat := onCursor Cursor.readByte

def readSigned : Decoder Int := onCursor Cursor.readSigned

def readWord : Decoder Nat := onCursor Cursor.readWord

/-- The address of the next unread byte. -/
def here : Decoder Int := return (← get).cursor.addr

/-! ## Deferred units -/

def push (unit : Int) : Decoder Unit := onStack (Deferred.push unit)

def pop : Decoder Int := onStack Deferred.pop

/-! ## Effects of prefixes -/

/-- A later effect under the same key replaces an earlier one. -/
def setEffect (key : String) (value : Value) : Decoder Unit :=
  modify fun s => { s with effects := (key, value) :: s.effects.filter (·.1 ≠ key) }

/-- Use up the effect under a key, so that it applies once. -/
def takeEffect (key : String) : Decoder (Option Value) := do
  let s ← get
  set { s with effects := s.effects.filter (·.1 ≠ key) }
  return s.effects.lookup key

/-! ## Output -/

def text (s : String) : Decoder Unit := onOutput (Output.text s)

def value (v : Value) : Decoder Unit := onOutput (Output.value v)

def write (template : String) (args : List Value) : Decoder Unit :=
  onOutput (Output.write template args)

def number (template : String) (value : Int) : Decoder Unit := write template [.number value]

def separator (s : String) : Decoder Unit := onOutput (Output.separator s)

def comma : Decoder Unit := separator ", "

/-- Write a mnemonic after what a prefix left under `lead`. -/
def mnemonic (site : Site) (name : String) : Decoder Unit := do
  value ((← takeEffect "lead").getD .nothing)
  onOutput (Output.mnemonic name site.mnemonicWidth)

def record (site : Site) (target : Int) (kind : RefKind) : Decoder Unit :=
  modify fun s => { s with symbols := s.symbols.record target site.address kind }

/-- Write an address, or its label, where `wrap` has its hole, and record a reference to it. -/
def address (site : Site) (kind : RefKind) (value : Int) (format : String := "%04X")
    (wrap : String := "%s") : Decoder Unit := do
  let (before, after) := Text.splitAtHole wrap.toList
  text (String.ofList before)
  let shown ← Action.lift ((Text.fill format [.number value]).mapError .template)
  let label := (← get).symbols.label? value
  onOutput (Output.append (.address value shown label))
  text (String.ofList after)
  record site value kind

end Decoder

end Disassembler
