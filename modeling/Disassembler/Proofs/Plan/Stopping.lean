import Disassembler.Proofs.Plan.Agenda

/-!
Where a load stops. Every item of an agenda that has a line stands on that line of its file, and a
fault that names a line names that of the item that was refused. So a load that fails has done
exactly what stands before the line in its message.
-/

namespace Disassembler

/-! ## Lines in messages -/

def Fault.location? : Fault → Option Location
  | malformedCommand file line _ => some ⟨file, line⟩
  | terminatorTooLarge file line _ => some ⟨file, line⟩
  | labelClash file line _ _ _ => some ⟨file, line⟩
  | commentClash file line _ => some ⟨file, line⟩
  | _ => none

/-- The message of a fault on a line starts with the line. -/
theorem Fault.message_of_location? {fault : Fault} {l : Location} (h : fault.location? = some l) :
    ∃ reason, fault.message = Fault.place l.file l.line ++ reason := by
  have hregroup : ∀ place a b c : String, ∃ reason, place ++ a ++ b ++ c = place ++ reason :=
    fun place a b c =>
      ⟨a ++ b ++ c, by rw [String.append_assoc, String.append_assoc, String.append_assoc]⟩
  cases fault with
  | malformedCommand file line text =>
    cases h
    exact hregroup _ _ _ _
  | terminatorTooLarge file line value =>
    cases h
    exact hregroup _ _ _ _
  | labelClash file line address existing new =>
    cases h
    exact ⟨clash address existing new, rfl⟩
  | commentClash file line address =>
    cases h
    exact ⟨_, String.append_assoc⟩
  | _ => cases h

section

variable {d : Draft} {symbols : SymbolTable} {l : Location} {address : Int} {fault : Fault}

theorem error_of_map {α β : Type} {f : α → β} {result : Except Fault α}
    (h : result.map f = .error fault) : result = .error fault := by
  cases result with
  | error other =>
    cases h
    rfl
  | ok a => cases h

theorem Comments.location?_of_add {comments : Comments} {text : String}
    (h : comments.add symbols l address text = .error fault) : fault.location? = some l := by
  unfold add at h
  split at h
  · cases h
  · cases h
    rfl

theorem SymbolTable.location?_of_labelled {name : Option String}
    (h : symbols.labelled l address name = .error fault) : fault.location? = some l := by
  cases name with
  | none => cases h
  | some name =>
    simp only [labelled] at h
    split at h
    · cases h
    · cases h
      rfl

/-- A directive is refused with its line. -/
theorem Directive.location?_of_perform {directive : Directive}
    (h : directive.perform l d = .error fault) : fault.location? = some l := by
  cases directive with
  | segment mode address name =>
    have hlabel := error_of_map h
    split at hlabel
    · cases hlabel
    · exact SymbolTable.location?_of_labelled hlabel
  | label address name => exact SymbolTable.location?_of_labelled (error_of_map h)
  | comment address text =>
    cases text with
    | none => cases h
    | some text => exact Comments.location?_of_add (error_of_map h)
  | terminator value =>
    simp only [perform] at h
    split at h
    · cases h
    · cases h
      rfl
  | _ => cases h

end

/-- A refusal is reported for the line of the item. -/
theorem Item.location?_of_apply {item : Item} {d : Draft} {fault : Fault} {l : Location}
    (h : item.apply d = .error fault) (hl : fault.location? = some l) :
    item.location? = some l := by
  cases item with
  | source file => cases h
  | directive m asked => exact (Directive.location?_of_perform h).symm.trans hl
  | note m address text => exact (Comments.location?_of_add (error_of_map h)).symm.trans hl
  | malformed m line =>
    cases h
    exact hl
  | unclosed file address =>
    cases h
    cases hl
  | unread m file reason =>
    cases h
    cases reason <;> cases hl

/-! ## Lines of items -/

/-- What a line has to do with the item that stands on it. -/
def Item.StandsOn (raw : List Char) : Item → Prop
  | .directive _ d => directive? raw = some d
  | .note _ _ _ => inNote raw = false
  | .malformed _ line => directive? raw = none ∧ line = String.ofList (Text.dropBlanks raw)
  | .unread l path _ =>
    ∃ name, directive? raw = some (.embed name) ∧ ∀ m ∈ l, path = m.file.relativeTo name
  | .source _ => False
  | .unclosed _ _ => False

/-- The line of an item is a line of its file, with this item. -/
def Item.Located (files : Files) (item : Item) : Prop :=
  ∀ l, item.location? = some l →
    ∃ lines raw, files.lines? l.file = some lines ∧ 0 < l.line ∧ lines[l.line - 1]? = some raw ∧
      item.StandsOn raw

section

variable {files : Files} {inner : Location → Path → List Item} {file : Path}
    {lines : List (List Char)}

theorem located_of_line {item : Item} {k : Nat} {raw : List Char}
    (hlines : files.lines? file = some lines) (hraw : lines[k]? = some raw)
    (hl : item.location? = some ⟨file, k + 1⟩) (hitem : item.StandsOn raw) :
    item.Located files := by
  intro l h
  cases hl.symm.trans h
  exact ⟨lines, raw, hlines, Nat.succ_pos k, hraw, hitem⟩

/-- What lines begin with, and where the others are. -/
theorem drop_eq_append {k : Nat} (first : List (List Char)) {raw : List Char}
    {rest : List (List Char)} (h : lines.drop k = first ++ raw :: rest) :
    lines[k + first.length]? = some raw ∧ lines.drop (k + first.length + 1) = rest := by
  have hdrop : lines.drop (k + first.length) = raw :: rest := by
    rw [← List.drop_drop, h, List.drop_left]
  constructor
  · rw [← List.head?_drop, hdrop]
    rfl
  · rw [← List.drop_drop, hdrop]
    rfl

theorem located_agendaOfLines (hlines : files.lines? file = some lines)
    (hinner : ∀ k raw name, lines[k]? = some raw → directive? raw = some (.embed name) →
      ∀ item ∈ inner ⟨file, k + 1⟩ (file.relativeTo name), item.Located files) {n k : Nat}
    {part : List (List Char)} (hn : n = k + 1) (hpart : lines.drop k = part) :
    ∀ item ∈ agendaOfLines inner file n part, item.Located files := by
  induction n, part using lines_induction generalizing k with
  | nil n =>
    rw [agendaOfLines_nil]
    exact List.forall_mem_nil _
  | silent n raw rest h ih =>
    rw [agendaOfLines_silent h]
    exact ih (congrArg (· + 1) hn) (drop_eq_append [] hpart).2
  | malformed n raw rest hsilent h ih =>
    obtain ⟨hraw, hrest⟩ := drop_eq_append [] hpart
    subst hn
    rw [agendaOfLines_malformed hsilent h]
    exact List.forall_mem_cons.mpr ⟨located_of_line hlines hraw rfl ⟨h, rfl⟩, ih rfl hrest⟩
  | unclosed n raw rest address text h hrest =>
    rw [agendaOfLines_unclosed h hrest]
    refine List.forall_mem_singleton.mpr fun l hl => ?_
    cases hl
  | note n raw body closing rest address text h hbody hclosing ih =>
    -- a note has the line that closes it
    obtain ⟨hraw, hrest⟩ := drop_eq_append (raw :: body) hpart
    have hlength : k + (raw :: body).length = k + 1 + body.length := by
      rw [List.length_cons]
      omega
    rw [hlength] at hraw hrest
    subst hn
    have hline : k + 1 + 1 + body.length = k + 1 + body.length + 1 :=
      Nat.add_right_comm (k + 1) 1 body.length
    rw [hline] at ih
    rw [agendaOfLines_note h hbody hclosing, hline]
    exact List.forall_mem_cons.mpr ⟨located_of_line hlines hraw rfl hclosing, ih rfl hrest⟩
  | embed n raw rest name h ih =>
    obtain ⟨hraw, hrest⟩ := drop_eq_append [] hpart
    subst hn
    rw [agendaOfLines_embed h]
    exact List.forall_mem_append.mpr ⟨hinner k raw name hraw h, ih rfl hrest⟩
  | directive n raw rest d h hd ih =>
    obtain ⟨hraw, hrest⟩ := drop_eq_append [] hpart
    subst hn
    rw [agendaOfLines_directive h hd]
    exact List.forall_mem_cons.mpr ⟨located_of_line hlines hraw rfl h, ih rfl hrest⟩

/-- The items of a file have their lines in the files. -/
theorem located_agenda (levels : Nat) {l : Option Location}
    (hl : ∀ reason, (Item.unread l file reason).Located files) :
    ∀ item ∈ files.agenda levels l file, item.Located files := by
  induction levels generalizing l file with
  | zero => exact List.forall_mem_singleton.mpr (hl _)
  | succ levels ih =>
    rw [Files.agenda]
    cases hfile : files file with
    | error reason => exact List.forall_mem_singleton.mpr (hl _)
    | ok bytes =>
      cases hbytes : linesOf? bytes with
      | none =>
        simp only [hbytes]
        exact List.forall_mem_singleton.mpr (hl _)
      | some lines =>
        have hlines : files.lines? file = some lines := by simp only [Files.lines?, hfile, hbytes]
        simp only [hbytes]
        refine List.forall_mem_cons.mpr ⟨fun l h => (by cases h), ?_⟩
        refine located_agendaOfLines hlines (fun k raw name hraw hd => ?_) (k := 0) rfl rfl
        refine ih fun reason => located_of_line hlines hraw rfl ⟨name, hd, ?_⟩
        rintro m ⟨⟩
        rfl

end

theorem located_fullAgenda {files : Files} (main : Path) :
    ∀ item ∈ files.fullAgenda main, item.Located files := by
  refine located_agenda (Loader.maxDepth + 1) fun reason l hl => ?_
  cases hl

/-- A load that fails keeps what was done before the item that it fails at, and nothing of that
item. Everything that the files ask for, in the order of the includes, splits into the items that
were done, the one that is refused, and the rest: the symbols with their range, and the plan, are
those that the first items lead to from the given table, and from there the next item is refused
with the fault of the load. A line that the message gives is the line of that item, and the line is
found in the file with the item on it. The one other way to fail is at the end, for want of an
image. -/
theorem load_stopped {files : Files} {main : Path} {symbols : SymbolTable} {fault : Fault}
    {loading : Loading} (h : load files main symbols = (.error fault, loading)) :
    (∃ done item rest, files.fullAgenda main = done ++ item :: rest ∧
      Draft.follow { symbols } done = (.ok (), ⟨loading.symbols, loading.plan⟩) ∧
      item.apply ⟨loading.symbols, loading.plan⟩ = .error fault ∧ item.Located files ∧
      ∀ l, fault.location? = some l →
        item.location? = some l ∧ ∃ reason, fault.message = Fault.place l.file l.line ++ reason) ∨
    fault = .noInputFile ∧ loading.plan.inputFile = none ∧
      Draft.follow { symbols } (files.fullAgenda main) =
        (.ok (), ⟨loading.symbols, loading.plan⟩) := by
  have hfollows := load_follows files main symbols
  rw [h] at hfollows
  rcases hfollows with ⟨_, ⟨⟩, hagenda⟩ | ⟨hagenda, hend⟩
  · obtain ⟨done, item, rest, hitems, hdone, hitem⟩ := Draft.follow_eq_error hagenda
    refine .inl ⟨done, item, rest, hitems, hdone, hitem, ?_, fun l hl => ?_⟩
    · refine located_fullAgenda main item ?_
      rw [hitems]
      exact List.mem_append_right _ List.mem_cons_self
    · exact ⟨Item.location?_of_apply hitem hl, Fault.message_of_location? hl⟩
  · by_cases hinput : loading.plan.inputFile.isSome = true
    · rw [if_pos hinput] at hend
      cases hend
    · rw [if_neg hinput] at hend
      cases hend
      exact .inr ⟨rfl, by simpa using hinput, hagenda⟩

/-- A segment with a second label for its address, in a file that is included after some other
lines. -/
theorem load_stopped_inInclude :
    let main := Path.ofString "rom.lst"
    let inner := main.relativeTo "sub.lst"
    let lines : List String → List (List Char) := List.map String.toList
    let files : Files := fun path =>
      if path = main then
        .ok (written (lines ["f rom.bin", "l 10 START", "i sub.lst", "l 30 LATER"]))
      else if path = inner then
        .ok (written (lines ["r 0,ff", "n 20 about", "l 40 TEXT", ".", "p 18", "c 10 AGAIN",
          "l 50 NEVER"]))
      else .error .missing
    let fault : Fault := .labelClash inner 6 0x10 "START" "AGAIN"
    let loading := (load files main {}).2
    load files main {} = (.error fault, loading) ∧
      loading.symbols =
        ⟨some 0, some 0xFF, [⟨0x10, some "START", false, []⟩, ⟨0x18, some "___0018", true, []⟩]⟩ ∧
      ∃ done item rest, files.fullAgenda main = done ++ item :: rest ∧
        Draft.follow { symbols := {} } done = (.ok (), ⟨loading.symbols, loading.plan⟩) ∧
        item.apply ⟨loading.symbols, loading.plan⟩ = .error fault ∧
          item.location? = some ⟨inner, 6⟩ := by
  intro main inner lines files fault loading
  have h : load files main {} = (.error fault, loading) := by decide +kernel
  refine ⟨h, by decide +kernel, ?_⟩
  rcases load_stopped h with ⟨done, item, rest, hitems, hdone, hitem, -, hlocation⟩ | ⟨hend, -, -⟩
  · exact ⟨done, item, rest, hitems, hdone, hitem, (hlocation ⟨inner, 6⟩ rfl).1⟩
  · exact absurd hend (by decide)

end Disassembler
