import Disassembler.Proofs.Plan.Order
import Mathlib.Data.List.TakeWhile

/-!
The agenda of a load: what command files ask for, in the order of the includes. It is drawn up from
the files alone, before anything is done. A note is one item with all its lines, an included file
stands in the place of the line that includes it, and what cannot be read or opened is an item that
is always refused. Loading follows the agenda up to the first item that is refused; that item leaves
no mark on the symbols or on the plan.
-/

namespace Disassembler

/-! ## Items -/

inductive Unread where
  | tooDeep
  | unopenable (reason : OpenError)
  | notUnicode
  deriving DecidableEq, Repr

def Unread.fault (file : Path) : Unread → Fault
  | tooDeep => .includesTooDeep file
  | unopenable reason => .unopenable file reason
  | notUnicode => .notUnicode file

inductive Item where
  /-- the lines of a command file begin -/
  | source (file : Path)
  | directive (location : Location) (directive : Directive)
  /-- a note with all its lines, where it is closed -/
  | note (location : Location) (address : Nat) (text : String)
  | malformed (location : Location) (line : String)
  | unclosed (file : Path) (address : Nat)
  /-- a file that is not gone through, and the line that includes it -/
  | unread (location : Option Location) (file : Path) (reason : Unread)
  deriving DecidableEq, Repr

namespace Item

def location? : Item → Option Location
  | source _ => none
  | directive l _ => some l
  | note l _ _ => some l
  | malformed l _ => some l
  | unclosed _ _ => none
  | unread l _ _ => l

def apply (d : Draft) : Item → Except Fault Draft
  | source file => .ok { d with plan.sources := d.plan.sources ++ [file] }
  | directive l asked => asked.perform l d
  | note l address text =>
    (d.plan.blockComments.add d.symbols l address text).map fun comments =>
      { d with plan.blockComments := comments }
  | malformed l line => .error (.malformedCommand l.file l.line line)
  | unclosed file address => .error (.unclosedNote file address)
  | unread _ file reason => .error (reason.fault file)

end Item

/-- Follow an agenda up to the first item that is refused. -/
def Draft.follow (d : Draft) : List Item → Except Fault Unit × Draft
  | [] => (.ok (), d)
  | item :: rest =>
    match item.apply d with
    | .ok next => next.follow rest
    | .error fault => (.error fault, d)

/-! ## Agendas -/

/-- The lines of a note are those in front of one that starts with a full stop. -/
def inNote (raw : List Char) : Bool := raw.head? != some '.'

def noteText (text : Option String) (body : List (List Char)) : String :=
  "\n".intercalate (text.toList ++ body.map String.ofList)

/-- What the lines of a file ask for; `inner` tells what an included file asks for. -/
def agendaOfLines (inner : Location → Path → List Item) (file : Path) (n : Nat) :
    List (List Char) → List Item
  | [] => []
  | raw :: rest =>
    if Loader.isSilent (Text.dropBlanks raw) then agendaOfLines inner file (n + 1) rest
    else
      match directive? raw with
      | none =>
        .malformed ⟨file, n⟩ (String.ofList (Text.dropBlanks raw)) ::
          agendaOfLines inner file (n + 1) rest
      | some (.note address text) =>
        let body := rest.takeWhile inNote
        let closing := rest.dropWhile inNote
        if closing = [] then [.unclosed file address]
        else
          .note ⟨file, n + 1 + body.length⟩ address (noteText text body) ::
            agendaOfLines inner file (n + 1 + body.length + 1) closing.tail
      | some (.embed name) =>
        inner ⟨file, n⟩ (file.relativeTo name) ++ agendaOfLines inner file (n + 1) rest
      | some directive => .directive ⟨file, n⟩ directive :: agendaOfLines inner file (n + 1) rest
termination_by lines => lines.length
decreasing_by
  all_goals simp_wf
  have hlength := (List.dropWhile_suffix inNote (l := rest)).length_le
  omega

/-- What a command file asks for, with everything it includes; `levels` bounds the nesting, this
file counted. -/
def Files.agenda (files : Files) : Nat → Option Location → Path → List Item
  | 0, l, file => [.unread l file .tooDeep]
  | levels + 1, l, file =>
    match files file with
    | .error reason => [.unread l file (.unopenable reason)]
    | .ok bytes =>
      match linesOf? bytes with
      | none => [.unread l file .notUnicode]
      | some lines =>
        .source file :: agendaOfLines (fun l => files.agenda levels (some l)) file 1 lines

def Files.fullAgenda (files : Files) (main : Path) : List Item :=
  files.agenda (Loader.maxDepth + 1) none main

/-! ## Lines one by one -/

/-- A directive that one line is enough for. -/
def Directive.isLine : Directive → Bool
  | .note .. => false
  | .embed _ => false
  | _ => true

theorem isSilent_eq_false {raw : List Char} {d : Directive} (h : directive? raw = some d) :
    ¬Loader.isSilent (Text.dropBlanks raw) = true := by
  intro hsilent
  rw [directive?, Loader.ofChars?_of_isSilent hsilent] at h
  cases h

/-- Lines are all in a note, or one closes it. -/
theorem exists_closing (lines : List (List Char)) :
    (∀ raw ∈ lines, inNote raw = true) ∨
      ∃ body closing rest, lines = body ++ closing :: rest ∧ (∀ raw ∈ body, inNote raw = true) ∧
        inNote closing = false := by
  induction lines with
  | nil => exact .inl (List.forall_mem_nil _)
  | cons raw lines ih =>
    cases hraw : inNote raw with
    | false => exact .inr ⟨[], raw, lines, rfl, List.forall_mem_nil _, hraw⟩
    | true =>
      rcases ih with hall | ⟨body, closing, rest, rfl, hbody, hclosing⟩
      · exact .inl (List.forall_mem_cons.mpr ⟨hraw, hall⟩)
      · exact .inr ⟨raw :: body, closing, rest, rfl,
          List.forall_mem_cons.mpr ⟨hraw, hbody⟩, hclosing⟩

/-- Induction over the lines of a file, a note with its lines being one step. -/
theorem lines_induction {motive : Nat → List (List Char) → Prop} (nil : ∀ n, motive n [])
    (silent : ∀ n raw rest, Loader.isSilent (Text.dropBlanks raw) = true → motive (n + 1) rest →
      motive n (raw :: rest))
    (malformed : ∀ n raw rest, ¬Loader.isSilent (Text.dropBlanks raw) = true →
      directive? raw = none → motive (n + 1) rest → motive n (raw :: rest))
    (unclosed : ∀ n raw rest address text, directive? raw = some (.note address text) →
      (∀ raw ∈ rest, inNote raw = true) → motive n (raw :: rest))
    (note : ∀ n raw body closing rest address text, directive? raw = some (.note address text) →
      (∀ raw ∈ body, inNote raw = true) → inNote closing = false →
      motive (n + 1 + body.length + 1) rest → motive n (raw :: (body ++ closing :: rest)))
    (embed : ∀ n raw rest name, directive? raw = some (.embed name) → motive (n + 1) rest →
      motive n (raw :: rest))
    (directive : ∀ n raw rest d, directive? raw = some d → d.isLine = true → motive (n + 1) rest →
      motive n (raw :: rest)) (n : Nat) (lines : List (List Char)) : motive n lines := by
  induction hlength : lines.length using Nat.strongRecOn generalizing n lines with
  | _ length ih =>
    subst hlength
    cases lines with
    | nil => exact nil n
    | cons raw rest =>
      have hrest : motive (n + 1) rest := ih _ (Nat.lt_succ_self _) (n + 1) rest rfl
      by_cases hsilent : Loader.isSilent (Text.dropBlanks raw) = true
      · exact silent n raw rest hsilent hrest
      · cases hd : directive? raw with
        | none => exact malformed n raw rest hsilent hd hrest
        | some d =>
          cases d with
          | note address text =>
            rcases exists_closing rest with hall | ⟨body, closing, after, rfl, hbody, hclosing⟩
            · exact unclosed n raw rest address text hd hall
            · refine note n raw body closing after address text hd hbody hclosing ?_
              exact ih after.length (by simp; omega) (n + 1 + body.length + 1) after rfl
          | embed name => exact embed n raw rest name hd hrest
          | _ => exact directive n raw rest _ hd rfl hrest

section

variable {inner : Location → Path → List Item} {file : Path} {n : Nat} {raw : List Char}
    {rest : List (List Char)}

theorem agendaOfLines_nil : agendaOfLines inner file n [] = [] := by
  rw [agendaOfLines]

theorem agendaOfLines_silent (h : Loader.isSilent (Text.dropBlanks raw) = true) :
    agendaOfLines inner file n (raw :: rest) = agendaOfLines inner file (n + 1) rest := by
  rw [agendaOfLines, if_pos h]

theorem agendaOfLines_malformed (hsilent : ¬Loader.isSilent (Text.dropBlanks raw) = true)
    (h : directive? raw = none) :
    agendaOfLines inner file n (raw :: rest) =
      .malformed ⟨file, n⟩ (String.ofList (Text.dropBlanks raw)) ::
        agendaOfLines inner file (n + 1) rest := by
  rw [agendaOfLines, if_neg hsilent]
  simp only [h]

/-- A note takes the lines up to the one that closes it. -/
theorem agendaOfLines_note {address : Nat} {text : Option String} {body : List (List Char)}
    {closing : List Char} (h : directive? raw = some (.note address text))
    (hbody : ∀ raw ∈ body, inNote raw = true) (hclosing : inNote closing = false) :
    agendaOfLines inner file n (raw :: (body ++ closing :: rest)) =
      .note ⟨file, n + 1 + body.length⟩ address (noteText text body) ::
        agendaOfLines inner file (n + 1 + body.length + 1) rest := by
  have htake : (body ++ closing :: rest).takeWhile inNote = body := by
    rw [List.takeWhile_append_of_pos hbody, List.takeWhile_cons_of_neg (by simp [hclosing]),
      List.append_nil]
  have hdrop : (body ++ closing :: rest).dropWhile inNote = closing :: rest := by
    rw [List.dropWhile_append_of_pos hbody, List.dropWhile_cons_of_neg (by simp [hclosing])]
  rw [agendaOfLines, if_neg (isSilent_eq_false h)]
  simp only [h, htake, hdrop, reduceCtorEq, if_false, List.tail_cons]

theorem agendaOfLines_unclosed {address : Nat} {text : Option String}
    (h : directive? raw = some (.note address text)) (hrest : ∀ raw ∈ rest, inNote raw = true) :
    agendaOfLines inner file n (raw :: rest) = [.unclosed file address] := by
  have hdrop : rest.dropWhile inNote = [] := List.dropWhile_eq_nil_iff.mpr hrest
  rw [agendaOfLines, if_neg (isSilent_eq_false h)]
  simp only [h, hdrop, if_true]

theorem agendaOfLines_embed {name : String} (h : directive? raw = some (.embed name)) :
    agendaOfLines inner file n (raw :: rest) =
      inner ⟨file, n⟩ (file.relativeTo name) ++ agendaOfLines inner file (n + 1) rest := by
  rw [agendaOfLines, if_neg (isSilent_eq_false h)]
  simp only [h]

theorem agendaOfLines_directive {d : Directive} (h : directive? raw = some d)
    (hd : d.isLine = true) :
    agendaOfLines inner file n (raw :: rest) =
      .directive ⟨file, n⟩ d :: agendaOfLines inner file (n + 1) rest := by
  rw [agendaOfLines, if_neg (isSilent_eq_false h)]
  cases d with
  | note address text => cases hd
  | embed name => cases hd
  | _ => simp only [h]

end

/-! ## Following -/

namespace Draft

variable {d e : Draft} {first second : List Item} {fault : Fault}

theorem follow_append (d : Draft) (first second : List Item) :
    d.follow (first ++ second) =
      if (d.follow first).1 = .ok () then (d.follow first).2.follow second else d.follow first := by
  induction first generalizing d with
  | nil => rfl
  | cons item first ih =>
    rw [List.cons_append, follow, follow]
    cases item.apply d with
    | error fault => rfl
    | ok next => exact ih next

theorem follow_append_of_ok (h : d.follow first = (.ok (), e)) :
    d.follow (first ++ second) = e.follow second := by
  rw [follow_append, h, if_pos rfl]

theorem follow_append_of_error (h : d.follow first = (.error fault, e)) :
    d.follow (first ++ second) = (.error fault, e) := by
  rw [follow_append, h, if_neg (fun h => (by cases h))]

/-- An agenda that could not be followed to its end has an item that was refused after all items in
front of it. -/
theorem follow_eq_error {items : List Item} (h : d.follow items = (.error fault, e)) :
    ∃ before item after, items = before ++ item :: after ∧ d.follow before = (.ok (), e) ∧
      item.apply e = .error fault := by
  induction items generalizing d with
  | nil => cases h
  | cons item items ih =>
    rw [follow] at h
    cases hitem : item.apply d with
    | error other =>
      rw [hitem] at h
      cases h
      exact ⟨[], item, items, rfl, rfl, hitem⟩
    | ok next =>
      rw [hitem] at h
      obtain ⟨before, refused, after, rfl, hbefore, hrefused⟩ := ih h
      refine ⟨item :: before, refused, after, rfl, ?_, hrefused⟩
      rw [follow, hitem]
      exact hbefore

end Draft

namespace Loader

/-- The action does what an agenda asks for, up to the first item that is refused. -/
def Follows (m : Loader Unit) (items : List Item) : Prop :=
  ∀ s, (∃ t, m s = .ok () t ∧ s.draft.follow items = (.ok (), t.draft)) ∨
    ∃ fault t, m s = .error fault t ∧ s.draft.follow items = (.error fault, t.draft)

section

variable {m m' : Loader Unit} {items items' : List Item} {item : Item}

theorem Follows.bind (hm : Follows m items) (hm' : Follows m' items') :
    Follows (m >>= fun _ => m') (items ++ items') := by
  intro s
  rcases hm s with ⟨t, ht, hitems⟩ | ⟨fault, t, ht, hitems⟩
  · rw [Action.bind_of_ok _ ht, Draft.follow_append_of_ok hitems]
    exact hm' t
  · rw [Action.bind_of_error _ ht, Draft.follow_append_of_error hitems]
    exact .inr ⟨fault, t, rfl, rfl⟩

/-- What is not asked for by any item. -/
theorem follows_nil (h : ∀ s, ∃ t, m s = .ok () t ∧ t.draft = s.draft) : Follows m [] := by
  intro s
  obtain ⟨t, ht, hdraft⟩ := h s
  exact .inl ⟨t, ht, by rw [hdraft]; rfl⟩

theorem follows_pure : Follows (pure ()) [] := follows_nil fun s => ⟨s, rfl, rfl⟩

theorem follows_say (events : List Event) : Follows (say events) [] :=
  follows_nil fun _ => ⟨_, rfl, rfl⟩

/-- An item that is refused leaves no mark. -/
theorem Performs.follows (h : Performs m item.apply) : Follows m [item] := by
  intro s
  rcases h s with ⟨t, ht, hitem⟩ | ⟨fault, t, ht, hitem, hdraft⟩ <;> dsimp only at hitem
  · refine .inl ⟨t, ht, ?_⟩
    rw [Draft.follow, hitem]
    rfl
  · refine .inr ⟨fault, t, ht, ?_⟩
    rw [Draft.follow, hitem, hdraft]

/-- An item that is always refused, whatever follows it. -/
theorem follows_throw {fault : Fault} (h : ∀ d, item.apply d = .error fault) (rest : List Item) :
    Follows (throw fault) (item :: rest) := by
  intro s
  rw [Draft.follow, h]
  exact .inr ⟨fault, s, rfl, rfl⟩

end

/-! ## Lines and files -/

section

variable {embed : Path → Loader Unit} {file : Path} {n : Nat} {raw : List Char}
    {rest : List (List Char)}

theorem readLines_silent (h : isSilent (Text.dropBlanks raw) = true) :
    readLines embed file n (raw :: rest) none = readLines embed file (n + 1) rest none := by
  simp only [readLines, if_pos h]

theorem readLines_malformed (hsilent : ¬isSilent (Text.dropBlanks raw) = true)
    (h : directive? raw = none) :
    readLines embed file n (raw :: rest) none =
      throw (.malformedCommand file n (String.ofList (Text.dropBlanks raw))) := by
  rw [directive?] at h
  simp only [readLines, if_neg hsilent, h]

def lineEvent (file : Path) (n : Nat) (d : Directive) : Event :=
  ⟨.debug, .loader, Fault.place file n ++ d.inspect⟩

theorem readLines_opening {address : Nat} {text : Option String}
    (h : directive? raw = some (.note address text)) :
    readLines embed file n (raw :: rest) none = (do
      say [lineEvent file n (.note address text)]
      readLines embed file (n + 1) rest (some ⟨address, text.toList⟩)) := by
  have hsilent := isSilent_eq_false h
  rw [directive?] at h
  simp only [readLines, if_neg hsilent, h, lineEvent]

theorem readLines_embed {name : String} (h : directive? raw = some (.embed name)) :
    readLines embed file n (raw :: rest) none = (do
      say [lineEvent file n (.embed name)]
      embed (file.relativeTo name)
      readLines embed file (n + 1) rest none) := by
  have hsilent := isSilent_eq_false h
  rw [directive?] at h
  simp only [readLines, if_neg hsilent, h, lineEvent]

theorem readLines_directive {d : Directive} (h : directive? raw = some d) (hd : d.isLine = true) :
    readLines embed file n (raw :: rest) none = (do
      say [lineEvent file n d]
      apply file n d
      readLines embed file (n + 1) rest none) := by
  have hsilent := isSilent_eq_false h
  rw [directive?] at h
  cases d with
  | note address text => cases hd
  | embed name => cases hd
  | _ => simp only [readLines, if_neg hsilent, h, lineEvent]

/-- The lines of a note do nothing until it is closed, whatever they say. -/
theorem readLines_note (note : OpenNote) {body : List (List Char)} {closing : List Char}
    (rest : List (List Char)) (hbody : ∀ raw ∈ body, inNote raw = true)
    (hclosing : inNote closing = false) :
    readLines embed file n (body ++ closing :: rest) (some note) = (do
      addBlockComment file (n + body.length) note.address
        ("\n".intercalate (note.lines ++ body.map String.ofList))
      readLines embed file (n + body.length + 1) rest none) := by
  induction body generalizing n note with
  | nil =>
    have hdot : closing.head? = some '.' := by simpa [inNote] using hclosing
    simp only [List.nil_append, readLines, if_pos hdot, List.map_nil, List.append_nil,
      List.length_nil, Nat.add_zero]
  | cons raw body ih =>
    obtain ⟨hraw, hbody⟩ := List.forall_mem_cons.mp hbody
    have hdot : ¬raw.head? = some '.' := by simpa [inNote] using hraw
    rw [List.cons_append, readLines, if_neg hdot, ih _ hbody]
    simp only [List.append_assoc, List.map_cons, List.singleton_append, List.length_cons]
    rw [show n + 1 + body.length = n + (body.length + 1) by omega]

theorem readLines_unclosed (note : OpenNote) {body : List (List Char)}
    (hbody : ∀ raw ∈ body, inNote raw = true) :
    readLines embed file n body (some note) = throw (.unclosedNote file note.address) := by
  induction body generalizing n note with
  | nil => rfl
  | cons raw body ih =>
    obtain ⟨hraw, hbody⟩ := List.forall_mem_cons.mp hbody
    have hdot : ¬raw.head? = some '.' := by simpa [inNote] using hraw
    rw [readLines, if_neg hdot, ih _ hbody]

theorem follows_addBlockComment (file : Path) (n : Nat) (address : Nat) (text : String) :
    Follows (addBlockComment file n address text) [.note ⟨file, n⟩ address text] := by
  unfold addBlockComment
  exact (performs_addComment file n address text (fun _ => rfl) fun _ => rfl).follows

/-- Going through lines is following what they ask for. -/
theorem follows_readLines {inner : Location → Path → List Item}
    (hembed : ∀ l path, Follows (embed path) (inner l path)) (file : Path) (n : Nat)
    (lines : List (List Char)) :
    Follows (readLines embed file n lines none) (agendaOfLines inner file n lines) := by
  induction n, lines using lines_induction with
  | nil n =>
    rw [agendaOfLines_nil]
    exact follows_pure
  | silent n raw rest h ih =>
    rw [agendaOfLines_silent h, readLines_silent h]
    exact ih
  | malformed n raw rest hsilent h _ =>
    rw [agendaOfLines_malformed hsilent h, readLines_malformed hsilent h]
    exact follows_throw (fun _ => rfl) _
  | unclosed n raw rest address text h hrest =>
    rw [agendaOfLines_unclosed h hrest, readLines_opening h, readLines_unclosed _ hrest]
    exact (follows_say _).bind (follows_throw (fun _ => rfl) [])
  | note n raw body closing rest address text h hbody hclosing ih =>
    rw [agendaOfLines_note h hbody hclosing, readLines_opening h,
      readLines_note _ rest hbody hclosing]
    exact (follows_say _).bind ((follows_addBlockComment file _ address _).bind ih)
  | embed n raw rest name h ih =>
    rw [agendaOfLines_embed h, readLines_embed h]
    exact (follows_say _).bind ((hembed _ _).bind ih)
  | directive n raw rest d h hd ih =>
    rw [agendaOfLines_directive h hd, readLines_directive h hd]
    exact (follows_say _).bind ((performs_apply file n d).follows.bind ih)

end

theorem follows_readFile (files : Files) (levels : Nat) (isIncluded : Bool) (l : Option Location)
    (path : Path) :
    Follows (readFile files levels isIncluded path) (files.agenda levels l path) := by
  induction levels generalizing isIncluded l path with
  | zero => exact follows_throw (fun _ => rfl) []
  | succ levels ih =>
    intro s
    rw [Files.agenda, readFile]
    cases hfile : files path with
    | error reason =>
      have htext : readText files path s = .error (.unopenable path reason) s := by
        rw [readText, hfile]
        rfl
      rw [Action.bind_of_error _ htext]
      exact .inr ⟨_, s, rfl, rfl⟩
    | ok bytes =>
      have hbytes : Action.lift ((files path).mapError (.unopenable path)) s = .ok bytes s := by
        rw [hfile]
        rfl
      cases hstring : String.fromUTF8? ⟨bytes.toArray⟩ with
      | none =>
        have htext : readText files path s = .error (.notUnicode path) s := by
          rw [readText, Action.bind_of_ok _ hbytes]
          simp only [hstring]
          rfl
        rw [Action.bind_of_error _ htext]
        simp only [linesOf?, hstring, Option.map_none]
        exact .inr ⟨_, s, rfl, rfl⟩
      | some string =>
        have htext : readText files path s = .ok string.toList s := by
          rw [readText, Action.bind_of_ok _ hbytes]
          simp only [hstring]
          rfl
        rw [Action.bind_of_ok _ htext]
        simp only [linesOf?, hstring, Option.map_some]
        have hsource : Follows (onPlan fun plan => { plan with sources := plan.sources ++ [path] })
            [.source path] :=
          Performs.follows fun _ => .inl ⟨_, rfl, rfl⟩
        have hlines :=
          follows_readLines (fun l path => ih true (some l) path) path 1 (Text.lines string.toList)
        exact hsource.bind ((follows_say _).bind hlines) s

end Loader

/-! ## Loads -/

/-- A load follows the agenda; at its end the image must have been named. -/
theorem load_follows (files : Files) (main : Path) (symbols : SymbolTable) :
    (∃ fault, (load files main symbols).1 = .error fault ∧
      Draft.follow { symbols } (files.fullAgenda main) =
        (.error fault, (load files main symbols).2.draft)) ∨
    Draft.follow { symbols } (files.fullAgenda main) = (.ok (), (load files main symbols).2.draft) ∧
      (load files main symbols).1 =
        if (load files main symbols).2.plan.inputFile.isSome then
          .ok (load files main symbols).2.plan
        else .error .noInputFile := by
  unfold load Loader.loadFile
  rcases Loader.follows_readFile files (Loader.maxDepth + 1) false none main { symbols } with
    ⟨t, ht, hagenda⟩ | ⟨fault, t, ht, hagenda⟩
  · have hget : (get : Loader Loading) t = .ok t t := rfl
    rw [Action.bind_of_ok _ ht, Action.bind_of_ok _ hget]
    by_cases hinput : t.plan.inputFile.isSome = true
    · rw [if_pos hinput]
      exact .inr ⟨hagenda, (if_pos hinput).symm⟩
    · rw [if_neg hinput]
      exact .inr ⟨hagenda, (if_neg hinput).symm⟩
  · rw [Action.bind_of_error _ ht]
    exact .inl ⟨fault, rfl, hagenda⟩

end Disassembler
