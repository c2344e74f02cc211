import Disassembler.Symbol.Table

/-!
The cross-reference report: one block for each address that is referred to, its references in the
order in which they were recorded.
-/

namespace Disassembler.SymbolTable

def reportRule : String := String.ofList (List.replicate 27 '-')

def referenceText (ref : Reference) : String :=
  String.ofList (ref.kind.tag.toList.rightpad 6 ' ') ++ " @ " ++ Text.address ref.source

/-- An empty label is not shown. -/
def labelNote : Option String → String
  | none => ""
  | some label => if label = "" then "" else "   (" ++ label ++ ")"

/-- The address and the label stand on the first line of a block, and an empty line ends it. -/
def blockLines (e : Entry) : List String :=
  match e.refs with
  | [] => []
  | first :: others =>
    (Text.address e.address ++ ": " ++ referenceText first ++ labelNote e.label) ::
      others.map (fun ref => "      " ++ referenceText ref) ++ [""]

def reportLines (t : SymbolTable) : List String :=
  reportRule :: "" :: t.entries.flatMap blockLines ++ [reportRule, ""]

def report (t : SymbolTable) : String := "\n".intercalate t.reportLines ++ "\n"

end Disassembler.SymbolTable
