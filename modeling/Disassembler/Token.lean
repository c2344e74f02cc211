import Disassembler.Fault

/-!
Tokens: the pieces that the text of an instruction is made of.
-/

namespace Disassembler

inductive Token where
  /-- a mnemonic, filled up to a column width -/
  | mnemonic (name : String) (width : Int)
  | separator (text : String)
  | text (text : String)
  /-- an address, shown as its label if it has one -/
  | address (value : Int) (text : String) (label : Option String)
  deriving DecidableEq, Repr

namespace Token

def toString : Token → String
  | mnemonic name width => String.ofList (name.toList.rightpad width.toNat ' ')
  | separator s => s
  | text s => s
  | address _ s label => label.getD s

/-- The number of characters. -/
def length : Token → Nat
  | mnemonic name width => max name.length width.toNat
  | separator s => s.length
  | text s => s.length
  | address _ s label => (label.getD s).length

theorem length_toString (t : Token) : t.toString.length = t.length := by
  cases t with
  | mnemonic name width =>
    simp only [toString, length, List.rightpad, String.length_ofList, List.length_append,
      List.length_replicate, String.length_toList]
    omega
  | separator s => rfl
  | text s => rfl
  | address value s label => rfl

/-- A token has a text unless it is too wide. -/
def check : Token → Except Fault Unit
  | mnemonic _ width => (Capacity.checkWidth width).mapError .excess
  | _ => .ok ()

/-- The token with its sort, for looking at. -/
def inspect : Token → String
  | mnemonic name _ => "TInstr(" ++ name ++ ")"
  | separator s => "TSep(" ++ s ++ ")"
  | text s => "TText(" ++ s ++ ")"
  | address value _ _ =>
    "TAddr(" ++ (if value < 0 then "-" else "") ++ "0x" ++
      String.ofList (Text.digits 16 false value.natAbs) ++ ")"

/-- The text of a row of tokens. -/
def join (tokens : List Token) : String := String.join (tokens.map toString)

end Token

end Disassembler
