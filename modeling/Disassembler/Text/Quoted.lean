import Disassembler.Text.Numeral
import Disassembler.Text.Printable

/-!
Quoted text: how a text is shown inside a message so that its ends and its odd characters are seen.
-/

namespace Disassembler.Text

/-- Single quotes, unless the text holds a single quote and no double quote. -/
def quoteMark (cs : List Char) : Char :=
  if cs.contains '\'' && !cs.contains '"' then '"' else '\''

def hexEscape (letter : Char) (width : Nat) (c : Char) : List Char :=
  '\\' :: letter :: NumeralStyle.layout ⟨16, false, true, width⟩ c.toNat

/-- A character inside quotes: the mark and the backslash are escaped, and so is everything that
does not print. -/
def quoteChar (mark c : Char) : List Char :=
  if c = mark ∨ c = '\\' then ['\\', c]
  else if c = '\t' then ['\\', 't']
  else if c = '\n' then ['\\', 'n']
  else if c = '\r' then ['\\', 'r']
  else if isPrintable c then [c]
  else if c.toNat < 0x100 then hexEscape 'x' 2 c
  else if c.toNat < 0x10000 then hexEscape 'u' 4 c
  else hexEscape 'U' 8 c

def quoted (s : String) : String :=
  let mark := quoteMark s.toList
  String.ofList (mark :: s.toList.flatMap (quoteChar mark) ++ [mark])

end Disassembler.Text
