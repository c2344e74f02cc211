/-!
Numerals: the digits of a number in a base, with a sign and padding to a width.
-/

namespace Disassembler.Text

/-- The digits of `n`, most significant first; the letters above nine are capitals if `capital` is
set. -/
def digits (base : Nat) (capital : Bool) (n : Nat) : List Char :=
  (Nat.toDigits base n).map fun c => if capital then c.toUpper else c

/-- How a number is laid out: its base, the case of its letters, and the width it is filled up to.
Zeros stand between the sign and the digits, blanks before the sign. -/
structure NumeralStyle where
  base : Nat
  capital : Bool := true
  zeros : Bool := false
  width : Nat := 0
  deriving DecidableEq, Repr

/-- A negative number is written as a minus sign and its magnitude; the sign counts in the width. -/
def NumeralStyle.layout (style : NumeralStyle) (value : Int) : List Char :=
  let sign := if value < 0 then ['-'] else []
  let body := digits style.base style.capital value.natAbs
  if style.zeros then sign ++ body.leftpad (style.width - sign.length) '0'
  else (sign ++ body).leftpad style.width ' '

/-- Addresses are shown with at least four hexadecimal digits. -/
def addressStyle : NumeralStyle := { base := 16, zeros := true, width := 4 }

/-- Bytes are shown with two hexadecimal digits. -/
def byteStyle : NumeralStyle := { base := 16, zeros := true, width := 2 }

def address (value : Int) : String := String.ofList (addressStyle.layout value)

def byte (value : UInt8) : String := String.ofList (byteStyle.layout value.toNat)

def decimal (value : Int) : String :=
  String.ofList (({ base := 10 } : NumeralStyle).layout value)

end Disassembler.Text
