import Disassembler.Action

/-!
A cursor reads an image from front to back. It knows the address of the next unread byte and keeps
the first bytes of the instruction that is being read.
-/

namespace Disassembler

/-- Instructions are read in units of one or two bytes. -/
inductive UnitWidth where
  | byte
  | word
  deriving DecidableEq, Repr, Inhabited

def UnitWidth.size : UnitWidth → Nat
  | .byte => 1
  | .word => 2

def UnitWidth.ofInt (n : Int) : Except Fault UnitWidth :=
  if n = 1 then .ok .byte else if n = 2 then .ok .word else .error (.unitWidth n)

inductive ByteOrder where
  | little
  | big
  deriving DecidableEq, Repr, Inhabited

/-- The number that a run of bytes stands for. -/
def ByteOrder.value : ByteOrder → List UInt8 → Nat
  | .little, bytes => bytes.foldr (fun b n => n * 256 + b.toNat) 0
  | .big, bytes => bytes.foldl (fun n b => n * 256 + b.toNat) 0

/-- How a machine's units are read, and how many bytes of an instruction are kept. -/
structure Layout where
  width : UnitWidth := .byte
  order : ByteOrder := .little
  maxLength : Int := 8
  deriving DecidableEq, Repr, Inhabited

structure Cursor where
  layout : Layout
  /-- the number of bytes of the whole image -/
  size : Nat
  /-- the bytes not read yet -/
  rest : List UInt8
  /-- the address of the next unread byte -/
  addr : Int
  /-- its offset in the image -/
  idx : Nat
  captured : List UInt8 := []
  deriving DecidableEq, Repr, Inhabited

namespace Cursor

/-- A new cursor at an offset of an image. -/
def start (layout : Layout) (image : List UInt8) (addr : Int := 0) (idx : Nat := 0) : Cursor :=
  { layout, size := image.length, rest := image.drop idx, addr, idx }

/-- Negative when the cursor was placed past the end. -/
def remaining (c : Cursor) : Int := c.size - c.idx

def atEnd (c : Cursor) : Bool := c.rest.isEmpty

/-- How many more bytes of the instruction can be kept. -/
def room (c : Cursor) : Nat := (c.layout.maxLength - c.captured.length).toNat

/-- Move over `n` bytes, keeping as many of them as there is room for. -/
def advance (c : Cursor) (n : Nat) : Cursor :=
  { c with
    rest := c.rest.drop n
    addr := c.addr + n
    idx := c.idx + n
    captured := c.captured ++ (c.rest.take n).take c.room }

/-- Forget the bytes kept so far. -/
def beginInstruction (c : Cursor) : Cursor := { c with captured := [] }

/-- The bytes up to an address, or all that are left. -/
def before (c : Cursor) : Option Int → List UInt8
  | none => c.rest
  | some stop => c.rest.take (stop - c.addr).toNat

/-- The next `n` bytes, if there are as many. -/
def look (n : Nat) : Action Cursor (List UInt8) := fun c =>
  if (c.rest.take n).length = n then .ok (c.rest.take n) c else .error (.endOfInput (some c.addr)) c

def take (n : Nat) : Action Cursor (List UInt8) := fun c =>
  if (c.rest.take n).length = n then .ok (c.rest.take n) (c.advance n)
  else .error (.endOfInput (some c.addr)) c

/-- Read one unit. -/
def fetch : Action Cursor Nat := fun c => (c.layout.order.value <$> take c.layout.width.size) c

/-- The unit that `fetch` would read. -/
def peek : Action Cursor Nat := fun c => (c.layout.order.value <$> look c.layout.width.size) c

def readByte : Action Cursor Nat := fun c => (c.layout.order.value <$> take 1) c

/-- A byte as a number from -128 to 127. -/
def signed (byte : Nat) : Int := if byte < 128 then (byte : Int) else (byte : Int) - 256

def readSigned : Action Cursor Int := signed <$> readByte

/-- Read two bytes in the machine's byte order. -/
def readWord : Action Cursor Nat := fun c => (c.layout.order.value <$> take 2) c

/-! ## Enough bytes, or too few -/

variable {c d : Cursor} {n : Nat}

theorem look_of_le (h : n ≤ c.rest.length) : look n c = .ok (c.rest.take n) c := by
  rw [look, if_pos (by rw [List.length_take]; omega)]

theorem look_of_lt (h : c.rest.length < n) : look n c = .error (.endOfInput (some c.addr)) c := by
  rw [look, if_neg (by rw [List.length_take]; omega)]

theorem take_of_le (h : n ≤ c.rest.length) : take n c = .ok (c.rest.take n) (c.advance n) := by
  rw [take, if_pos (by rw [List.length_take]; omega)]

theorem take_of_lt (h : c.rest.length < n) : take n c = .error (.endOfInput (some c.addr)) c := by
  rw [take, if_neg (by rw [List.length_take]; omega)]

/-- A read that succeeds has found the bytes that it asks for. -/
theorem map_take_eq_ok {α : Type} {f : List UInt8 → α} {a : α} (h : (f <$> take n) c = .ok a d) :
    n ≤ c.rest.length ∧ a = f (c.rest.take n) ∧ d = c.advance n := by
  obtain ⟨bytes, htake, rfl⟩ := Action.map_eq_ok h
  rcases Nat.lt_or_ge c.rest.length n with hlt | hle
  · rw [take_of_lt hlt] at htake
    cases htake
  · rw [take_of_le hle] at htake
    cases htake
    exact ⟨hle, rfl, rfl⟩

end Cursor

end Disassembler
