import Disassembler.Action

/-!
The deferred units: a bounded stack that carries units fetched during dispatch to the operands.
-/

namespace Disassembler

/-- The unit pushed last stands first. -/
structure Deferred where
  depth : Int := 16
  items : List Int := []
  deriving DecidableEq, Repr, Inhabited

namespace Deferred

def push (unit : Int) : Action Deferred Unit := fun d =>
  if d.items.length < d.depth then .ok () { d with items := unit :: d.items }
  else .error .stackOverflow d

def pop : Action Deferred Int := fun d =>
  match d.items with
  | [] => .error .stackUnderflow d
  | unit :: items => .ok unit { d with items }

def size (d : Deferred) : Nat := d.items.length

end Deferred

end Disassembler
