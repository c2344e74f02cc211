/-!
Letter case, as far as ASCII text can tell. A character whose folded, lower or upper form is ASCII
is replaced by that form; every other form holds a character outside ASCII, so the character may
stay as it is: comparing the result with an ASCII text gives the same answer.
-/

namespace Disassembler.Text

/-- The Latin ligatures and the letters that stand for several. -/
def spelledOut (c : Char) : Option (List Char) :=
  match c.toNat with
  | 0xFB00 => some ['f', 'f']
  | 0xFB01 => some ['f', 'i']
  | 0xFB02 => some ['f', 'l']
  | 0xFB03 => some ['f', 'f', 'i']
  | 0xFB04 => some ['f', 'f', 'l']
  | 0xFB05 => some ['s', 't']
  | 0xFB06 => some ['s', 't']
  | 0xDF => some ['s', 's']
  | _ => none

/-- The form that ignores case: the long s, the Kelvin sign and the capital sharp s are letters
too. -/
def foldChar (c : Char) : List Char :=
  match c.toNat with
  | 0x17F => ['s']
  | 0x212A => ['k']
  | 0x1E9E => ['s', 's']
  | _ => (spelledOut c).getD [c.toLower]

def upperChar (c : Char) : List Char :=
  match c.toNat with
  | 0x131 => ['I']
  | 0x17F => ['S']
  | _ => ((spelledOut c).map (·.map Char.toUpper)).getD [c.toUpper]

def lowerChar (c : Char) : Char := if c.toNat = 0x212A then 'k' else c.toLower

def fold (s : String) : String := String.ofList (s.toList.flatMap foldChar)

def upper (s : String) : String := String.ofList (s.toList.flatMap upperChar)

def lower (s : String) : String := String.ofList (s.toList.map lowerChar)

end Disassembler.Text
