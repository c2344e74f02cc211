import Disassembler.Fault
import Disassembler.Log
import Disassembler.Symbol.Reference

/-!
The symbol table: labels and incoming references by address.

Labels are bound before decoding starts; decoding reads them and appends references. An optional
range of interest bounds the addresses that are recorded.
-/

namespace Disassembler

/-- What is known of one address. A generated label is marked `auto`. -/
structure Entry where
  address : Int
  label : Option String := none
  auto : Bool := false
  refs : List Reference := []
  deriving DecidableEq, Repr

/-- Entries stand in ascending order of their addresses. -/
structure SymbolTable where
  low : Option Int := none
  high : Option Int := none
  entries : List Entry := []
  deriving DecidableEq, Repr, Inhabited

/-- Names that start with three underscores are reserved for generated labels. -/
def isAutoName (name : String) : Bool := ['_', '_', '_'].isPrefixOf name.toList

def autoName (address : Int) : String := "___" ++ Text.address address

namespace Entry

/-- Change the entry at `address`, which is put in its place first if it is missing. -/
def update (address : Int) (f : Entry → Entry) : List Entry → List Entry
  | [] => [f { address }]
  | e :: es =>
    if address < e.address then f { address } :: e :: es
    else if address = e.address then f e :: es
    else e :: update address f es

def bind (name : String) (auto : Bool) (e : Entry) : Entry := { e with label := some name, auto }

def addReference (ref : Reference) (e : Entry) : Entry := { e with refs := e.refs ++ [ref] }

end Entry

namespace SymbolTable

def setRange (t : SymbolTable) (low high : Option Int) : SymbolTable := { t with low, high }

/-- Both ends belong to the range; a missing end does not bound it. -/
def inRange (t : SymbolTable) (address : Int) : Bool :=
  t.low.all (· ≤ address) && t.high.all (address ≤ ·)

def get? (t : SymbolTable) (address : Int) : Option Entry :=
  t.entries.find? fun e => e.address = address

def contains (t : SymbolTable) (address : Int) : Bool := (t.get? address).isSome

def size (t : SymbolTable) : Nat := t.entries.length

def label? (t : SymbolTable) (address : Int) : Option String := (t.get? address).bind (·.label)

def references (t : SymbolTable) (address : Int) : List Reference :=
  ((t.get? address).map (·.refs)).getD []

def update (t : SymbolTable) (address : Int) (f : Entry → Entry) : SymbolTable :=
  { t with entries := Entry.update address f t.entries }

/-- Attach a name to an address. A second label replaces a generated one and clashes with any other;
an address outside the range is left alone. -/
def bind (t : SymbolTable) (address : Int) (name : String) (auto : Bool := false) :
    Except Fault SymbolTable :=
  if t.inRange address then
    match t.get? address with
    | some { label := some existing, auto := false, .. } =>
      .error (.duplicateLabel address existing name)
    | _ => .ok (t.update address (Entry.bind name (auto || isAutoName name)))
  else .ok t

/-- Name an address with a generated label unless it has one; the label it has in the end. -/
def autoLabel (t : SymbolTable) (address : Int) : Option String × SymbolTable :=
  match t.label? address with
  | some existing => (some existing, t)
  | none =>
    if t.inRange address then
      (some (autoName address), t.update address (Entry.bind (autoName address) true))
    else (none, t)

/-- The label of an address, or the address itself laid out by a template. The template has one of
the conversions that `Text.convert` knows; with any other it is refused. -/
def format (t : SymbolTable) (address : Int) (template : String := "%04X") : Except Fault String :=
  match t.label? address with
  | some label => .ok label
  | none => (Text.fill template [.number address]).mapError .template

/-- Note that `source` refers to `target`. -/
def record (t : SymbolTable) (target source : Int) (kind : RefKind) : SymbolTable :=
  if kind = .none ∨ t.inRange target = false then t
  else t.update target (Entry.addReference ⟨source, kind⟩)

/-- The same for a kind given by its number. A number that is no kind is refused, but the entry of
the target has been made by then. -/
def recordCode (t : SymbolTable) (target source code : Int) : Except Fault Unit × SymbolTable :=
  match RefKind.ofCode? code with
  | some kind => (.ok (), t.record target source kind)
  | none =>
    if t.inRange target then (.error (.referenceKind code), t.update target id) else (.ok (), t)

/-- The entries from an address on, or all of them. -/
def targets (t : SymbolTable) (start : Option Int := none) : List Entry :=
  t.entries.filter fun e => start.all (· ≤ e.address)

def labels (t : SymbolTable) : List (Int × String) :=
  t.entries.filterMap fun e => e.label.map (e.address, ·)

/-! ## Events -/

/-- What binding a label has to say. -/
def bindEvents (t : SymbolTable) (address : Int) (name : String) : List Event :=
  if t.inRange address then
    match t.get? address with
    | some { label := some existing, auto := true, .. } =>
      [⟨.debug, .symbols, "replacing auto-label " ++ existing ++ " with " ++ name⟩]
    | _ => []
  else
    [⟨.debug, .symbols,
      "label " ++ name ++ " at " ++ Text.address address ++ " outside xref range, ignored"⟩]

/-- What generating a label has to say. -/
def autoLabelEvents (t : SymbolTable) (address : Int) : List Event :=
  if (t.label? address).isNone && t.inRange address then
    [⟨.debug, .symbols, "auto-label " ++ autoName address⟩]
  else []

end SymbolTable

end Disassembler
