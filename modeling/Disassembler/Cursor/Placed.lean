import Disassembler.Cursor

/-!
A cursor placed at any offset of an image. In front of the image offsets count back from its end,
and a read gives the bytes between its two ends, if there are any.
-/

namespace Disassembler

/-- A cursor in front of an image. -/
structure Ahead where
  layout : Layout
  image : List UInt8
  addr : Int
  /-- how many bytes lie between the cursor and the first byte of the image -/
  distance : Nat
  captured : List UInt8 := []
  deriving DecidableEq, Repr

inductive Placed where
  | inside (cursor : Cursor)
  | ahead (cursor : Ahead)
  deriving DecidableEq, Repr

namespace Ahead

/-- Where in the image a read starts. -/
def first (a : Ahead) : Nat := a.image.length - a.distance

/-- Where in the image a read of `n` bytes ends. -/
def last (a : Ahead) (n : Nat) : Nat :=
  if n < a.distance then a.image.length - (a.distance - n) else n - a.distance

/-- What a read of `n` bytes gives; nothing, as a rule, when it reaches the front of the image. -/
def bytes (a : Ahead) (n : Nat) : List UInt8 := (a.image.take (a.last n)).drop a.first

/-- Whether a read of `n` bytes ends before the image does. -/
def reaches (a : Ahead) (n : Nat) : Bool := n ≤ a.distance + a.image.length

/-- Move over `n` bytes. -/
def advance (a : Ahead) (n : Nat) : Placed :=
  let addr := a.addr + n
  let captured := a.captured ++ (a.bytes n).take (a.layout.maxLength - a.captured.length).toNat
  if n < a.distance then .ahead { a with addr, captured, distance := a.distance - n }
  else .inside { Cursor.start a.layout a.image addr (n - a.distance) with captured }

/-- Read `n` bytes. -/
def take (a : Ahead) (n : Nat) : EStateM.Result Fault Placed (List UInt8) :=
  if a.reaches n then .ok (a.bytes n) (a.advance n)
    else .error (.endOfInput (some a.addr)) (.ahead a)

end Ahead

namespace Placed

variable {α : Type}

/-- A new cursor at an offset. -/
def start (layout : Layout) (image : List UInt8) (addr idx : Int) : Placed :=
  if idx < 0 then .ahead { layout, image, addr, distance := idx.natAbs }
  else .inside (Cursor.start layout image addr idx.toNat)

def layout : Placed → Layout
  | inside c => c.layout
  | ahead a => a.layout

def addr : Placed → Int
  | inside c => c.addr
  | ahead a => a.addr

def idx : Placed → Int
  | inside c => c.idx
  | ahead a => -a.distance

def captured : Placed → List UInt8
  | inside c => c.captured
  | ahead a => a.captured

def remaining : Placed → Int
  | inside c => c.remaining
  | ahead a => a.image.length + a.distance

def atEnd : Placed → Bool
  | inside c => c.atEnd
  | ahead _ => false

def beginInstruction : Placed → Placed
  | inside c => inside c.beginInstruction
  | ahead a => ahead { a with captured := [] }

/-- An action of the cursor inside the image, and what takes its place in front of it. -/
def act (m : Action Cursor α) (outside : Ahead → EStateM.Result Fault Placed α) : Action Placed α
  | inside c =>
    match m c with
    | .ok a c => .ok a (inside c)
    | .error fault c => .error fault (inside c)
  | ahead a => outside a

/-- The number that `n` bytes in front of the image stand for. -/
def numberOf (n : Nat) (a : Ahead) : EStateM.Result Fault Placed Nat :=
  match a.take n with
  | .ok bytes p => .ok (a.layout.order.value bytes) p
  | .error fault p => .error fault p

/-- The byte in front of the image, which need not be there. -/
def byteOf (a : Ahead) : EStateM.Result Fault Placed Nat :=
  match a.take 1 with
  | .ok (b :: _) p => .ok b.toNat p
  | .ok [] p => .error .noByte p
  | .error fault p => .error fault p

def fetch : Action Placed Nat := fun p => act Cursor.fetch (numberOf p.layout.width.size) p

def peek : Action Placed Nat := fun p =>
  match act Cursor.peek (numberOf p.layout.width.size) p with
  | .ok n _ => .ok n p
  | .error fault _ => .error fault p

def readByte : Action Placed Nat := act Cursor.readByte byteOf

def readSigned : Action Placed Int := Cursor.signed <$> readByte

def readWord : Action Placed Nat := act Cursor.readWord (numberOf 2)

end Placed

end Disassembler
