/-!
References: an address is referred to from a source address, for a reason.
-/

namespace Disassembler

/-- Why an address is referred to; `none` stands for no reference at all. -/
inductive RefKind where
  | none
  | jump
  | call
  | imm
  | table
  | direct
  | data
  | ptr
  | reg
  | io
  deriving DecidableEq, Repr, Inhabited

namespace RefKind

def tag : RefKind → String
  | none => ""
  | jump => "Jump"
  | call => "Call"
  | imm => "Imm"
  | table => "Table"
  | direct => "Direct"
  | data => "Data"
  | ptr => "Ptr"
  | reg => "Reg"
  | io => "IO"

def code : RefKind → Int
  | none => -1
  | jump => 0
  | call => 1
  | imm => 2
  | table => 3
  | direct => 4
  | data => 5
  | ptr => 6
  | reg => 7
  | io => 8

def all : List RefKind := [none, jump, call, imm, table, direct, data, ptr, reg, io]

def ofCode? (n : Int) : Option RefKind := all.find? fun k => k.code = n

end RefKind

structure Reference where
  source : Int
  kind : RefKind
  deriving DecidableEq, Repr

end Disassembler
