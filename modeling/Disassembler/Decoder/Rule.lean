import Disassembler.Decoder.Operand
import Disassembler.Text.Quoted

/-!
Decode tables. A table is an ordered list of rules; the first rule that accepts a unit decides, so
that overlapping rules are told apart by their position. Tables refer to each other by name, in
cycles if need be, and of several tables with one name the last is meant.
-/

namespace Disassembler

/-- What a matching rule writes: a mnemonic, operands, and the kind of the references they make. -/
structure Insn where
  mnemonic : String
  operand : Operand := .none
  kind : RefKind := .none
  deriving DecidableEq, Repr

/-- The containers in which rules can be grouped. -/
inductive Grouping where
  | list
  | tuple
  | iterator
  deriving DecidableEq, Repr

/-- The text of a group whose members are shown as `members`. -/
def Grouping.shown : Grouping → List String → String
  | list, members => "[" ++ ", ".intercalate members ++ "]"
  | tuple, [member] => "(" ++ member ++ ",)"
  | tuple, members => "(" ++ ", ".intercalate members ++ ")"
  | iterator, _ => "<list_iterator object>"

/-- Something in a table that is not a rule. -/
inductive Foreign where
  | value (value : Value)
  /-- a group that stands inside another group, with the texts of its members -/
  | group (grouping : Grouping) (members : List String)
  deriving DecidableEq, Repr

def Foreign.shown : Foreign → String
  | value v => v.shown
  | group grouping members => grouping.shown members

inductive Rule where
  /-- one unit value -/
  | exact (insn : Insn) (opcode : Int)
  /-- the unit values from `low` to `high` -/
  | range (insn : Insn) (low high : Int)
  /-- the unit values that are `value` under `mask` -/
  | mask (insn : Insn) (mask value : Int)
  /-- one unit value followed by a unit that is `value` under `mask` -/
  | maskNext (insn : Insn) (opcode mask value : Int)
  /-- any of several unit values followed by a unit that is `mode` under `mask` -/
  | memMod (insn : Insn) (mode : Int) (opcodes : List Int) (mask : Int)
  /-- go on in another table with the next unit -/
  | sub (table : String) (opcode : Int)
  /-- defer `count` units and go on in another table with the next one -/
  | push (table : String) (opcode count : Int)
  /-- carry out an effect and start again with the next unit -/
  | lead (effect : Operand) (kind : RefKind) (opcode : Int)
  /-- no instruction here -/
  | undef (opcode : Int)
  | foreign (value : Foreign)
  deriving DecidableEq, Repr

/-- A unit under a mask; the bits of a negative mask go on without end. -/
def masked (unit : Nat) : Int → Nat
  | .ofNat mask => unit &&& mask
  | .negSucc mask => unit - (unit &&& mask)

/-- The test that a rule makes on the unit itself. Something foreign stops any unit. -/
def Rule.accepts (unit : Nat) : Rule → Bool
  | exact _ opcode => unit = opcode
  | range _ low high => low ≤ unit && unit ≤ high
  | mask _ bits value => masked unit bits = value
  | maskNext _ opcode _ _ => unit = opcode
  | memMod _ _ opcodes _ => opcodes.contains unit
  | sub _ opcode => unit = opcode
  | push _ opcode _ => unit = opcode
  | lead _ _ opcode => unit = opcode
  | undef opcode => unit = opcode
  | foreign _ => true

/-- The opcodes whose next unit carries a memory modifier, unless a rule says otherwise. -/
def memModOpcodes : List Int := [0x06, 0x0A, 0x16, 0x17]

def memModMask : Int := 0x8F

structure Table where
  name : String
  rules : List Rule
  deriving DecidableEq, Repr, Inhabited

/-- What a table is built from: single rules and groups of them. -/
inductive RuleGroup where
  | one (rule : Rule)
  | many (rules : List Rule)
  deriving DecidableEq, Repr

namespace RuleGroup

def rules : RuleGroup → List Rule
  | one rule => [rule]
  | many rules => rules

/-- A value among the rules: the items of a list stand on their own. -/
def ofValue : Value → RuleGroup
  | .list items => many (items.toList.map fun item => .foreign (.value item))
  | v => one (.foreign (.value v))

end RuleGroup

/-- A table of rules and groups of rules, in their order. -/
def Table.ofGroups (name : String) (groups : List RuleGroup) : Table :=
  ⟨name, groups.flatMap RuleGroup.rules⟩

/-- A table of a name and a number of rules at a glance. -/
def Table.glance (name : String) (size : Nat) : String :=
  "DecodeTable(" ++ Text.quoted name ++ ", " ++ Text.decimal size ++ " rules)"

def Table.inspect (t : Table) : String := Table.glance t.name t.rules.length

/-- A rule at a glance; `size` tells how many rules the tables have that it leads to. -/
def Rule.inspect (size : String → Nat) : Rule → String
  | exact insn opcode =>
    "Insn(" ++ Text.quoted insn.mnemonic ++ ", opc=" ++ Text.decimal opcode ++ ")"
  | range insn low high =>
    "Range(" ++ Text.quoted insn.mnemonic ++ ", lo=" ++ Text.decimal low ++ ", hi=" ++
      Text.decimal high ++ ")"
  | mask insn bits value =>
    "Mask(" ++ Text.quoted insn.mnemonic ++ ", mask=" ++ Text.decimal bits ++ ", value=" ++
      Text.decimal value ++ ")"
  | maskNext insn opcode bits value =>
    "MaskNext(" ++ Text.quoted insn.mnemonic ++ ", opc=" ++ Text.decimal opcode ++ ", mask=" ++
      Text.decimal bits ++ ", value=" ++ Text.decimal value ++ ")"
  | memMod insn mode _ _ =>
    "MemMod(" ++ Text.quoted insn.mnemonic ++ ", mode=" ++ Text.decimal mode ++ ")"
  | sub table opcode =>
    "SubTable(table=" ++ Table.glance table (size table) ++ ", opc=" ++ Text.decimal opcode ++ ")"
  | push table opcode count =>
    "PushTable(table=" ++ Table.glance table (size table) ++ ", opc=" ++ Text.decimal opcode ++
      ", count=" ++ Text.decimal count ++ ")"
  | lead _ _ opcode => "Prefix(opc=" ++ Text.decimal opcode ++ ")"
  | undef opcode => "Undef(opc=" ++ Text.decimal opcode ++ ")"
  | foreign value => value.shown

/-- The table that a rule leads to. -/
def Rule.target? : Rule → Option String
  | sub table _ => some table
  | push table _ _ => some table
  | _ => none

namespace Table

/-- The table of a name. -/
def named? (tables : List Table) (name : String) : Option Table :=
  tables.find? fun t => t.name = name

/-- Put a table in the place of the one that has its name, or after all others. -/
def put (tables : List Table) (t : Table) : List Table :=
  match tables with
  | [] => [t]
  | u :: rest => if u.name = t.name then t :: rest else u :: put rest t

/-- Each name once, in the order in which the names come up, with the last table of that name. -/
def collect (tables : List Table) : List Table := tables.foldl put []

/-- The tables by name; a rule that leads to a name without a table is refused. -/
def link (tables : List Table) : Except Fault (List Table) :=
  let known := collect tables
  let targets := tables.flatMap fun t => t.rules.filterMap Rule.target?
  match targets.find? fun name => (named? known name).isNone with
  | some name => .error (.unknownTable name)
  | none => .ok known

end Table

/-- A machine by name, with what its listings and its cursor need. -/
structure Profile where
  name : String
  description : String
  maxLength : Int
  mnemonicWidth : Int
  order : ByteOrder := .little
  unitWidth : Int := 1
  deriving DecidableEq, Repr, Inhabited

/-- A profile with the table that decoding starts in and the tables that it leads to. -/
structure Architecture where
  profile : Profile
  root : Table
  pages : List Table := []
  deriving DecidableEq, Repr, Inhabited

namespace Architecture

/-- The table of a name; a name that no table has stands for an empty table. -/
def table (arch : Architecture) (name : String) : Table :=
  (Table.named? (arch.root :: arch.pages) name).getD ⟨name, []⟩

/-- The machine whose decoding starts in the first of some tables. -/
def ofTables (profile : Profile) (tables : List Table) : Except Fault Architecture := do
  match ← Table.link tables with
  | [] => .error .noTables
  | root :: pages => return ⟨profile, root, pages⟩

/-- A cursor over an image that is loaded at an address. -/
def cursor (arch : Architecture) (image : List UInt8) (address : Int := 0) :
    Except Fault Cursor := do
  let width ← UnitWidth.ofInt arch.profile.unitWidth
  return Cursor.start ⟨width, arch.profile.order, arch.profile.maxLength⟩ image address

end Architecture

end Disassembler
