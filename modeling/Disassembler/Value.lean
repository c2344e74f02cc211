import Disassembler.Text.Numeral
import Disassembler.Text.Quoted

/-!
Values of any sort. They stand where a caller may hand over what they like and only its text, its
being empty, or handing it back matters.
-/

namespace Disassembler

mutual

inductive Value where
  | nothing
  | flag (on : Bool)
  | number (value : Int)
  | text (value : String)
  | list (items : Values)
  | record (fields : Fields)
  deriving DecidableEq, Repr

inductive Values where
  | nil
  | cons (head : Value) (tail : Values)
  deriving DecidableEq, Repr

/-- Values under names, in order. -/
inductive Fields where
  | nil
  | cons (name : String) (value : Value) (rest : Fields)
  deriving DecidableEq, Repr

end

instance : Inhabited Value := ⟨.nothing⟩

def Values.ofList : List Value → Values
  | [] => .nil
  | v :: vs => .cons v (ofList vs)

def Values.toList : Values → List Value
  | .nil => []
  | .cons v vs => v :: toList vs

def Fields.ofList : List (String × Value) → Fields
  | [] => .nil
  | (name, v) :: rest => .cons name v (ofList rest)

def Fields.toList : Fields → List (String × Value)
  | .nil => []
  | .cons name v rest => (name, v) :: toList rest

theorem Values.toList_ofList (vs : List Value) : (ofList vs).toList = vs := by
  induction vs with
  | nil => rfl
  | cons v vs ih => simp [ofList, toList, ih]

theorem Fields.toList_ofList (fs : List (String × Value)) : (ofList fs).toList = fs := by
  induction fs with
  | nil => rfl
  | cons f fs ih => simp [ofList, toList, ih]

/-! ## Text of values -/

mutual

/-- A value as it is shown inside a message: text in quotes. -/
def Value.shown : Value → String
  | .nothing => "None"
  | .flag true => "True"
  | .flag false => "False"
  | .number value => Text.decimal value
  | .text value => Text.quoted value
  | .list items => "[" ++ ", ".intercalate items.shown ++ "]"
  | .record fields => "\x7b" ++ ", ".intercalate fields.shown ++ "\x7d"

def Values.shown : Values → List String
  | .nil => []
  | .cons v vs => v.shown :: vs.shown

def Fields.shown : Fields → List String
  | .nil => []
  | .cons name v rest => (Text.quoted name ++ ": " ++ v.shown) :: rest.shown

end

namespace Value

/-- A value written out on its own: text as it stands. -/
def plain : Value → String
  | text value => value
  | v => v.shown

/-- The number that a value can stand for. -/
def number? : Value → Option Int
  | number value => some value
  | flag true => some 1
  | flag false => some 0
  | _ => none

/-- Whether a value counts as not given. -/
def isEmpty : Value → Bool
  | nothing => true
  | flag on => !on
  | number value => value = 0
  | text value => value = ""
  | list items => items = .nil
  | record fields => fields = .nil

end Value

end Disassembler
