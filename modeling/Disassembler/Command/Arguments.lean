import Disassembler.Command.Word

/-!
The meaning of a command line: what each word asks for, and which words fill the two operands.
-/

namespace Disassembler.Command

/-- One thing that a command line asks for. -/
inductive Item where
  | operand (text : String)
  | divider
  | unknown (text : String)
  | flag (switch : Switch)
  | value (switch : Switch) (text : String)
  deriving DecidableEq, Repr

/-- Why reading a command line stops early. -/
inductive Stop where
  | help
  | usage (error : UsageError)
  deriving DecidableEq, Repr

/-- The items of one word, and a switch whose value has to come in the next word. -/
structure Reading where
  items : List Item := []
  pending : Option Switch := none
  deriving DecidableEq, Repr

namespace Reading

def cons (item : Item) (r : Reading) : Reading := { r with items := item :: r.items }

/-- A switch with nothing behind it. -/
def alone (switch : Switch) : Reading :=
  if switch.takesValue then { pending := some switch } else { items := [.flag switch] }

/-- A switch with its value in the same word; there the value `--` stands for an empty one. -/
def valued (switch : Switch) (text : List Char) : Reading :=
  { items := [.value switch (if text = ['-', '-'] then "" else String.ofList text)] }

/-- A switch with text right behind its letter. A switch that takes no value lets another letter
follow. -/
def withTail (switch : Switch) : List Char → Except UsageError Reading
  | [] => .ok (alone switch)
  | c :: cs =>
    if switch.takesValue then .ok (valued switch (c :: cs))
    else
      match Switch.ofLetter? c with
      | none => .error (.ignoredValue switch (String.ofList (c :: cs)))
      | some next => (withTail next cs).map (cons (.flag switch))

/-- A long switch with text behind an equals sign. -/
def withValue (switch : Switch) (text : List Char) : Except UsageError Reading :=
  if switch.takesValue then .ok (valued switch text)
  else .error (.ignoredValue switch (String.ofList text))

/-- A short switch with text behind an equals sign. A switch that takes no value passes over the
sign: what follows are further letters, and there must be one. -/
def withLetters (switch : Switch) (text : List Char) : Except UsageError Reading :=
  if switch.takesValue || text.isEmpty then withValue switch text else withTail switch text

def ofWord : Word → Except UsageError Reading
  | .operand text => .ok { items := [.operand text] }
  | .divider => .ok { items := [.divider] }
  | .unknown text => .ok { items := [.unknown text] }
  | .short switch .nothing | .long switch .nothing => .ok (alone switch)
  | .short switch (.value text) => withLetters switch text
  | .long switch (.value text) => withValue switch text
  | .short switch (.tail text) | .long switch (.tail text) => withTail switch text

/-- Asking for help stops the reading. -/
def finish (items : List Item) : Except Stop (List Item) :=
  if items.contains (.flag .help) then .error .help else .ok items

end Reading

namespace Item

/-- Read words in order. A switch without its value takes the next word, which must be an
operand. -/
def ofWords : List Word → Except Stop (List Item)
  | [] => .ok []
  | word :: rest => do
    let reading ← (Reading.ofWord word).mapError .usage
    match reading.pending, rest with
    | none, rest => return (← Reading.finish reading.items) ++ (← ofWords rest)
    | some switch, .operand text :: rest =>
      return (← Reading.finish (reading.items ++ [.value switch text])) ++ (← ofWords rest)
    | some switch, _ => .error (.usage (.expectsValue switch))

def isOperand : Item → Bool
  | operand _ | divider => true
  | _ => false

def isDivider : Item → Bool
  | divider => true
  | _ => false

/-- The word of an item that nothing has a use for. -/
def surplus? : Item → Option String
  | operand text => some text
  | divider => some "--"
  | unknown text => some text
  | _ => none

/-- An operand with the dividers around it, out of a run of operands and dividers, and what follows.
The first `--` among these words is not the operand. -/
def slot (run : List Item) : Option String × List Item :=
  let after := ((run.dropWhile isDivider).drop 1).dropWhile isDivider
  let words := (run.take (run.length - after.length)).filterMap surplus?
  ((words.erase "--").head?, after)

end Item

structure Arguments where
  arch : Option String := none
  listFile : Option String := none
  output : Option String := none
  verbose : Nat := 0
  trace : Option String := none
  checkStack : Option Bool := none
  listArchs : Bool := false
  deriving DecidableEq, Repr

namespace Arguments

/-- A later switch replaces an earlier one; asking to say more adds up. -/
def apply (a : Arguments) : Item → Arguments
  | .flag .verbose => { a with verbose := a.verbose + 1 }
  | .flag (.checkStack on) => { a with checkStack := some on }
  | .flag .listArchs => { a with listArchs := true }
  | .value .output text => { a with output := some text }
  | .value .trace text => { a with trace := some text }
  | _ => a

/-- The two operands are taken from the first run of operands; no other operand has a use. -/
def ofItems (items : List Item) : Except UsageError Arguments :=
  let before := items.takeWhile (! ·.isOperand)
  let run := (items.drop before.length).takeWhile Item.isOperand
  let after := items.drop (before.length + run.length)
  let (arch, rest) := Item.slot run
  let (listFile, rest) := Item.slot rest
  match (before ++ rest ++ after).filterMap Item.surplus? with
  | [] => .ok { items.foldl apply {} with arch, listFile }
  | surplus => .error (.unrecognized surplus)

/-- Read a command line. -/
def ofStrings (argv : List String) : Except Stop Arguments := do
  let words ← (Word.ofArguments argv).mapError .usage
  let items ← Item.ofWords words
  (ofItems items).mapError .usage

end Arguments

end Disassembler.Command
