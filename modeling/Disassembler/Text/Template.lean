import Disassembler.Capacity
import Disassembler.Value

/-!
Templates: text with conversions such as `%s`, `%d` and `%02X`, each filled by one argument. The
conversions are `%s`, `%d`, `%x` and `%X`, with a zero flag and a width or without, and `%%`; the
instruction tables, the symbols and the messages need no others. A template with any other one, such
as `%o`, `%c`, `%r`, `%+d` or `%-4d`, is refused.
-/

namespace Disassembler.Text

/-- Why a template cannot be filled. -/
inductive TemplateFlaw where
  /-- an argument is missing, left over, or of the wrong sort -/
  | arguments
  /-- a conversion is cut short or unknown, or its width is no count -/
  | conversion
  /-- there is no room for the width of a conversion -/
  | tooWide
  deriving DecidableEq, Repr

/-- One conversion: `zeros` and `width` stand between the percent sign and the letter. -/
def convert (letter : Char) (zeros : Bool) (width : Nat) (arg : Value) :
    Except TemplateFlaw (List Char) :=
  if letter = 's' then
    if Capacity.room < width then .error .tooWide else .ok (arg.plain.toList.leftpad width ' ')
  else if letter = 'd' then number ⟨10, false, zeros, width⟩
  else if letter = 'x' then number ⟨16, false, zeros, width⟩
  else if letter = 'X' then number ⟨16, true, zeros, width⟩
  else .error .conversion
where
  /-- Only what stands for a number can be laid out as one. -/
  number (style : NumeralStyle) : Except TemplateFlaw (List Char) :=
    match arg.number? with
    | some value =>
      if Capacity.room < style.width then .error .tooWide else .ok (style.layout value)
    | none => .error .arguments

/-- Fill a template from left to right. The first argument is the conversion being read, if any: its
zero flag and its width so far, once one of them stands behind the percent sign. Two percent signs
side by side are one percent sign. -/
def expand : Option (Option (Bool × Nat)) → List Char → List Value → Except TemplateFlaw (List Char)
  | none, [], [] => .ok []
  | none, [], _ :: _ => .error .arguments
  | none, c :: cs, args =>
    if c = '%' then expand (some none) cs args
    else (expand none cs args).map (c :: ·)
  | some _, [], _ => .error .conversion
  | some spec, c :: cs, args =>
    let (zeros, width) := spec.getD (false, 0)
    if c = '%' ∧ spec = none then (expand none cs args).map ('%' :: ·)
    else if c = '0' ∧ width = 0 then expand (some (some (true, 0))) cs args
    else if c.isDigit then
      let width := 10 * width + (c.toNat - 48)
      if Capacity.maxCount < width then .error .conversion
        else expand (some (some (zeros, width))) cs args
    else
      match args with
      | [] => .error .arguments
      | arg :: args =>
        match convert c zeros width arg with
        | .error flaw => .error flaw
        | .ok text => (expand none cs args).map (text ++ ·)

/-- Fill a template. Without arguments it is taken as it stands, percent signs included. -/
def fill (template : String) (args : List Value) : Except TemplateFlaw String :=
  if args.isEmpty then .ok template else (expand none template.toList args).map String.ofList

/-- The text before and after the first `%s`; all of it stands before when there is none. -/
def splitAtHole : List Char → List Char × List Char
  | [] => ([], [])
  | '%' :: 's' :: cs => ([], cs)
  | c :: cs => let (before, after) := splitAtHole cs; (c :: before, after)

end Disassembler.Text
