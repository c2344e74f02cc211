/-!
Blank characters, and text without the blanks at its ends.
-/

namespace Disassembler.Text

/-- The white space of Unicode together with the four separator controls U+001C to U+001F. -/
def isBlank (c : Char) : Bool :=
  let n := c.toNat
  (9 ≤ n && n ≤ 13) || (28 ≤ n && n ≤ 32) || n == 0x85 || n == 0xA0 || n == 0x1680 ||
    (0x2000 ≤ n && n ≤ 0x200A) || n == 0x2028 || n == 0x2029 || n == 0x202F || n == 0x205F ||
    n == 0x3000

def dropEndBlanks (cs : List Char) : List Char := (cs.reverse.dropWhile isBlank).reverse

def dropBlanks (cs : List Char) : List Char := dropEndBlanks (cs.dropWhile isBlank)

/-- Text without its trailing blanks. -/
def trimEnd (s : String) : String := String.ofList (dropEndBlanks s.toList)

/-- Text without its leading and trailing blanks. -/
def trim (s : String) : String := String.ofList (dropBlanks s.toList)

end Disassembler.Text
