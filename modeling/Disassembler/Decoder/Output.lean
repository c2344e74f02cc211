import Disassembler.Action
import Disassembler.Token

/-!
The text of one instruction, written token by token up to a limit.
-/

namespace Disassembler

/-- `length` counts every token offered, also those that were refused. -/
structure Output where
  limit : Int := 256
  parts : List Token := []
  length : Nat := 0
  deriving DecidableEq, Repr, Inhabited

namespace Output

/-- Offer a token that has a text. Once the length passes the limit nothing is kept any more. -/
def offer (t : Token) : Action Output Unit := fun o =>
  if (o.length + t.length : Nat) ≤ o.limit then
    .ok () { o with parts := o.parts ++ [t], length := o.length + t.length }
  else .error (.textTooLong o.limit) { o with length := o.length + t.length }

/-- Offer a token; one without a text does not count. -/
def append (t : Token) : Action Output Unit := do
  Action.lift t.check
  offer t

def mnemonic (name : String) (width : Int) : Action Output Unit := append (.mnemonic name width)

def separator (text : String) : Action Output Unit := append (.separator text)

/-- Write text as it stands; empty text leaves no token. -/
def text (s : String) : Action Output Unit := if s = "" then pure () else append (.text s)

/-- Write a value that should be text. An empty value of any sort leaves no token. -/
def value : Value → Action Output Unit
  | .text s => text s
  | v => if v.isEmpty then pure () else throw .notText

/-- Write a template filled with arguments. A conversion that `Text.convert` does not know is
refused. -/
def write (template : String) (args : List Value) : Action Output Unit := do
  text (← Action.lift ((Text.fill template args).mapError .template))

def toString (o : Output) : String := Token.join o.parts

end Output

end Disassembler
