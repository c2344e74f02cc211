import Disassembler.Proofs.Plan.Effects
import Mathlib.Data.Set.Defs

/-!
Includes in place. Command files that include each other by plain names can be written as one: each
include line outside notes gives way to the lines of the file that it names. Loading the one file
does the same to the symbol table and gives the same plan, its sources apart.
-/

namespace Disassembler

/-! ## Lines of files -/

/-- The lines of a text in bytes, if it is one. -/
def linesOf? (bytes : List UInt8) : Option (List (List Char)) :=
  (String.fromUTF8? ⟨bytes.toArray⟩).map fun text => Text.lines text.toList

def Files.lines? (files : Files) (file : Path) : Option (List (List Char)) :=
  match files file with
  | .ok bytes => linesOf? bytes
  | .error _ => none

/-- Lines as a text in bytes, a line feed at the end of each. -/
def written (lines : List (List Char)) : List UInt8 :=
  (String.ofList (lines.flatMap (· ++ ['\n']))).toUTF8.data.toList

/-- No character of the line would end it. -/
def IsLine (line : List Char) : Prop := ∀ c ∈ line, Text.endsLine c = false

theorem isLine_of_mem_lines (cs : List Char) : ∀ line ∈ Text.lines cs, IsLine line := by
  fun_induction Text.lines cs with
  | case1 => simp
  | case2 cs ih => simpa [IsLine] using ih
  | case3 c cs hpair hends ih => simpa [IsLine] using ih
  | case4 c cs hpair hends hnil ih =>
    intro line hline
    simp at hline
    simp [hline, IsLine, hends]
  | case5 c cs hpair hends first rest hlines ih =>
    rw [hlines] at ih
    intro line hline
    rcases List.mem_cons.mp hline with rfl | hrest
    · intro d hd
      rcases List.mem_cons.mp hd with rfl | hd
      · simpa using hends
      · exact ih first List.mem_cons_self d hd
    · exact ih line (List.mem_cons_of_mem _ hrest)

theorem isLine_of_lines? {files : Files} {file : Path} {lines : List (List Char)}
    (h : files.lines? file = some lines) : ∀ line ∈ lines, IsLine line := by
  unfold Files.lines? at h
  split at h
  · obtain ⟨text, -, rfl⟩ := Option.map_eq_some_iff.mp h
    exact isLine_of_mem_lines _
  · cases h

theorem lines_append_lineFeed (line cs : List Char) (h : IsLine line) :
    Text.lines (line ++ '\n' :: cs) = line :: Text.lines cs := by
  induction line with
  | nil => simp [Text.lines, Text.endsLine]
  | cons c line ih =>
    obtain ⟨hc, hline⟩ := List.forall_mem_cons.mp h
    have hreturn : c ≠ '\r' := by
      rintro rfl
      cases hc
    rw [List.cons_append, Text.lines, ih hline]
    · simp [hc]
    · rintro _ rfl
      exact absurd rfl hreturn

/-- Lines that are written are read back. -/
theorem linesOf?_written (lines : List (List Char)) (h : ∀ line ∈ lines, IsLine line) :
    linesOf? (written lines) = some lines := by
  have hlines : Text.lines (lines.flatMap (· ++ ['\n'])) = lines := by
    induction lines with
    | nil => rfl
    | cons line lines ih =>
      obtain ⟨hline, hrest⟩ := List.forall_mem_cons.mp h
      rw [List.flatMap_cons, List.append_assoc, List.singleton_append,
        lines_append_lineFeed line _ hline, ih hrest]
  have hread : ∀ text : String, String.fromUTF8? text.toUTF8 = some text := by
    intro text
    rw [String.fromUTF8?, String.toUTF8_eq_toByteArray, dif_pos text.isValidUTF8]
    rfl
  rw [linesOf?, written, Array.toArray_toList, hread, Option.map_some, String.toList_ofList, hlines]

/-! ## Include lines -/

def directive? (raw : List Char) : Option Directive := Directive.ofChars? (Text.dropBlanks raw)

/-- The name that a line includes, where `opened` says whether it is in a note. -/
def embedded? (opened : Bool) (raw : List Char) : Option String :=
  if opened then none
  else
    match directive? raw with
    | some (.embed name) => some name
    | _ => none

def noteAfter (opened : Bool) (raw : List Char) : Bool :=
  if opened then raw.head? != some '.'
  else
    match directive? raw with
    | some (.note ..) => true
    | _ => false

def embeddedNames : Bool → List (List Char) → List String
  | _, [] => []
  | opened, raw :: rest =>
    (embedded? opened raw).toList ++ embeddedNames (noteAfter opened raw) rest

/-- `Inlined files file opened lines flat`: in the lines of a file each include line outside notes
has been replaced by the lines of the file that it names, in which the same has been done. A note
may be open before the first line. -/
inductive Inlined (files : Files) : Path → Bool → List (List Char) → List (List Char) → Prop where
  | nil {file : Path} {opened : Bool} : Inlined files file opened [] []
  | keep {file : Path} {opened : Bool} {raw : List Char} {rest flat : List (List Char)}
      (hraw : embedded? opened raw = none)
      (hrest : Inlined files file (noteAfter opened raw) rest flat) :
      Inlined files file opened (raw :: rest) (raw :: flat)
  | splice {file : Path} {opened : Bool} {raw : List Char} {name : String}
      {lines inner rest flat : List (List Char)}
      (hraw : embedded? opened raw = some name)
      (hlines : files.lines? (file.relativeTo name) = some lines)
      (hinner : Inlined files (file.relativeTo name) false lines inner)
      (hrest : Inlined files file (noteAfter opened raw) rest flat) :
      Inlined files file opened (raw :: rest) (inner ++ flat)

def InlinedFile (files : Files) (file : Path) (flat : List (List Char)) : Prop :=
  ∃ lines, files.lines? file = some lines ∧ Inlined files file false lines flat

/-- A name without directories. -/
def IsPlain (name : String) : Prop := name ≠ "" ∧ name ≠ "." ∧ '/' ∉ name.toList

instance : DecidablePred IsPlain := fun _ => inferInstanceAs (Decidable (_ ∧ _ ∧ _))

/-- What the command files include are command files, by plain names. -/
def PlainlyIncluding (files : Files) (commands : Set Path) : Prop :=
  ∀ file ∈ commands, ∀ lines, files.lines? file = some lines →
    ∀ name ∈ embeddedNames false lines, IsPlain name ∧ file.relativeTo name ∈ commands

theorem parent_relativeTo {name : String} (h : IsPlain name) (file : Path) :
    (file.relativeTo name).parent = file.parent := by
  obtain ⟨hempty, hdot, hslash⟩ := h
  have hname : Path.ofString name = { parts := [name] } := by
    have hne : name.toList ≠ [] := by simpa using hempty
    have hnedot : name.toList ≠ ['.'] := by
      intro heq
      exact hdot (String.toList_injective heq)
    have hroot : name.toList.takeWhile (· = '/') = [] := by
      cases hcs : name.toList with
      | nil => rfl
      | cons c cs =>
        rw [hcs] at hslash
        have hc : c ≠ '/' := fun heq => hslash (heq ▸ List.mem_cons_self)
        simp [hc]
    simp [Path.ofString, List.splitOn_eq_singleton hslash, hroot, hne, hnedot]
  simp [Path.relativeTo, hname, Path.join, Path.isAbsolute, Path.parent]

theorem Inlined.isLine {files : Files} {file : Path} {opened : Bool} {lines flat : List (List Char)}
    (h : Inlined files file opened lines flat) (hlines : ∀ line ∈ lines, IsLine line) :
    ∀ line ∈ flat, IsLine line := by
  induction h with
  | nil => exact hlines
  | keep hraw hrest ih =>
    obtain ⟨hfirst, hothers⟩ := List.forall_mem_cons.mp hlines
    exact List.forall_mem_cons.mpr ⟨hfirst, ih hothers⟩
  | splice hraw hinner _ _ ihinner ih =>
    exact List.forall_mem_append.mpr
      ⟨ihinner (isLine_of_lines? hinner), ih (List.forall_mem_cons.mp hlines).2⟩

/-! ## Lines one by one -/

namespace Loader

/-- What a line that includes nothing does, and the note that is open after it. -/
def readLine (file : Path) (n : Nat) (raw : List Char) : Option OpenNote → Loader (Option OpenNote)
  | some note =>
    if raw.head? = some '.' then do
      addBlockComment file n note.address ("\n".intercalate note.lines)
      return none
    else return some { note with lines := note.lines ++ [String.ofList raw] }
  | none =>
    if isSilent (Text.dropBlanks raw) then return none
    else
      match directive? raw with
      | none => throw (.malformedCommand file n (String.ofList (Text.dropBlanks raw)))
      | some directive => do
        say [⟨.debug, .loader, Fault.place file n ++ directive.inspect⟩]
        match directive with
        | .note address text => return some ⟨address, text.toList⟩
        | directive => do
          apply file n directive
          return none

theorem Composed.readLine (raw : List Char) (note : Option OpenNote) :
    Composed fun file n => readLine file n raw note := by
  cases note with
  | some note =>
    simp only [Loader.readLine]
    split
    · exact .bind (.blockComment _ _) fun _ => .pure none
    · exact .pure _
  | none =>
    simp only [Loader.readLine]
    split
    · exact .pure none
    · cases directive? raw with
      | none => exact .throw fun _ _ _ h => by cases h
      | some directive =>
        refine .bind (.say _) fun _ => ?_
        cases directive with
        | note address text => exact .pure _
        | _ => exact .bind (.apply _) fun _ => .pure none

theorem ofChars?_of_isSilent {line : List Char} (h : isSilent line = true) :
    Directive.ofChars? line = none := by
  cases line with
  | nil => rfl
  | cons c cs =>
    have hc : c = '#' := by simpa [isSilent] using h
    rw [hc]
    rfl

theorem isSome_of_readLine {file : Path} {n : Nat} {raw : List Char} {note after : Option OpenNote}
    {s t : Loading} (h : readLine file n raw note s = .ok after t) :
    after.isSome = noteAfter note.isSome raw := by
  unfold readLine at h
  cases note with
  | some note =>
    simp only at h
    split at h
    · next hdot =>
      obtain ⟨_, _, -, hend⟩ := Action.bind_eq_ok h
      cases hend
      simp [noteAfter, hdot]
    · next hdot =>
      cases h
      simp [noteAfter, hdot]
  | none =>
    simp only at h
    split at h
    · next hsilent =>
      cases h
      simp [noteAfter, directive?, ofChars?_of_isSilent hsilent]
    · cases hd : directive? raw with
      | none =>
        rw [hd] at h
        cases h
      | some directive =>
        simp only [hd] at h
        obtain ⟨_, _, -, h⟩ := Action.bind_eq_ok h
        cases directive with
        | note address text =>
          cases h
          simp [noteAfter, hd]
        | _ =>
          obtain ⟨_, _, -, hend⟩ := Action.bind_eq_ok h
          cases hend
          simp [noteAfter, hd]

section

variable {embed : Path → Loader Unit} {file : Path} {n : Nat} {raw : List Char}
    {rest : List (List Char)}
  {note : Option OpenNote}

theorem readLines_cons_of_none (h : embedded? note.isSome raw = none) :
    readLines embed file n (raw :: rest) note =
      readLine file n raw note >>= readLines embed file (n + 1) rest := by
  cases note with
  | some note =>
    simp only [readLines, readLine]
    split
    · simp only [bind_assoc, pure_bind]
    · rw [pure_bind]
  | none =>
    simp only [readLines, readLine]
    split
    · rw [pure_bind]
    · rw [← directive?]
      cases hd : directive? raw with
      | none => rfl
      | some directive =>
        simp only [bind_assoc]
        cases directive with
        | note address text => rfl
        | embed name => simp [embedded?, hd] at h
        | _ => simp only [bind_assoc, pure_bind]

theorem directive?_of_embedded? {name : String} (h : embedded? false raw = some name) :
    directive? raw = some (.embed name) := by
  simp only [embedded?, Bool.false_eq_true, if_false] at h
  split at h
  · next hd =>
    cases h
    exact hd
  · cases h

theorem readLines_cons_of_some {name : String} (h : embedded? note.isSome raw = some name) :
    ∃ events, readLines embed file n (raw :: rest) note =
      (do say events; embed (file.relativeTo name); readLines embed file (n + 1) rest none) := by
  cases note with
  | some note => cases h
  | none =>
    have hd : directive? raw = some (.embed name) := directive?_of_embedded? h
    have hsilent : ¬isSilent (Text.dropBlanks raw) = true := by
      intro hsilent
      rw [directive?, ofChars?_of_isSilent hsilent] at hd
      cases hd
    rw [directive?] at hd
    simp only [readLines, if_neg hsilent, hd]
    exact ⟨_, rfl⟩

theorem noteAfter_of_embedded? {opened : Bool} {name : String}
    (h : embedded? opened raw = some name) : opened = false ∧ noteAfter opened raw = false := by
  cases opened with
  | true => cases h
  | false => simp [noteAfter, directive?_of_embedded? h]

end

section

variable {files : Files} {file : Path} {lines : List (List Char)} {s t : Loading}

theorem readText_of_lines? (h : files.lines? file = some lines) :
    ∃ text, Text.lines text = lines ∧ readText files file s = .ok text s := by
  unfold Files.lines? at h
  split at h
  · next bytes hbytes =>
    obtain ⟨text, htext, hlines⟩ := Option.map_eq_some_iff.mp h
    have hlift : Action.lift ((files file).mapError (.unopenable file)) s = .ok bytes s := by
      rw [hbytes]; rfl
    refine ⟨text.toList, hlines, ?_⟩
    rw [readText, Action.bind_of_ok _ hlift]
    simp only [htext]
    rfl
  · cases h

theorem lines?_of_readText {text : List Char} (h : readText files file s = .ok text t) :
    files.lines? file = some (Text.lines text) := by
  obtain ⟨bytes, u, hbytes, h⟩ := Action.bind_eq_ok h
  cases hfile : files file with
  | error reason =>
    rw [hfile] at hbytes
    cases hbytes
  | ok content =>
    rw [hfile] at hbytes
    cases hbytes
    cases htext : String.fromUTF8? ⟨bytes.toArray⟩ with
    | none =>
      simp only [htext] at h
      cases h
    | some string =>
      simp only [htext] at h
      cases h
      simp [Files.lines?, hfile, linesOf?, htext]

/-- Reading a file is going through its lines, from a state that is alike. -/
theorem readFile_of_lines? (levels : Nat) (isIncluded : Bool) (h : files.lines? file = some lines)
    (s : Loading) :
    ∃ u, s.Alike u ∧ readFile files (levels + 1) isIncluded file s =
      readLines (readFile files levels true) file 1 lines none u := by
  obtain ⟨text, rfl, htext⟩ := readText_of_lines? (s := s) h
  rw [readFile, Action.bind_of_ok _ htext]
  exact ⟨_, ⟨_, _, rfl⟩, rfl⟩

theorem readFile_eq_ok {levels : Nat} {isIncluded : Bool}
    (h : readFile files levels isIncluded file s = .ok () t) :
    ∃ below lines u, levels = below + 1 ∧ files.lines? file = some lines ∧ s.Alike u ∧
      readLines (readFile files below true) file 1 lines none u = .ok () t := by
  cases levels with
  | zero => cases h
  | succ below =>
    have hlines : ∃ lines, files.lines? file = some lines := by
      rw [readFile] at h
      obtain ⟨text, _, htext, -⟩ := Action.bind_eq_ok h
      exact ⟨_, lines?_of_readText htext⟩
    obtain ⟨lines, hlines⟩ := hlines
    obtain ⟨u, halike, heq⟩ := readFile_of_lines? below isIncluded hlines s
    exact ⟨below, lines, u, rfl, hlines, halike, heq ▸ h⟩

end

/-! ## The lines in place -/

section

variable {files : Files} {levels : Nat} {file : Path} {n : Nat} {raw : List Char}
    {lines rest flat : List (List Char)}
  {note : Option OpenNote} {s t : Loading}

/-- An include line that could be read: the file that it names has lines, which were read, and so
were the rest. -/
theorem readLines_embed_ok {name : String} (hraw : embedded? note.isSome raw = some name)
    (h : readLines (readFile files levels true) file n (raw :: rest) note s = .ok () t) :
    ∃ below lines u v, levels = below + 1 ∧ files.lines? (file.relativeTo name) =
      some lines ∧ s.Alike u ∧
      readLines (readFile files below true) (file.relativeTo name) 1 lines none u = .ok () v ∧
      readLines (readFile files levels true) file (n + 1) rest none v = .ok () t := by
  obtain ⟨events, heq⟩ := readLines_cons_of_some hraw
  rw [heq] at h
  obtain ⟨_, u, hsay, h⟩ := Action.bind_eq_ok h
  obtain ⟨_, v, hfile, hrest⟩ := Action.bind_eq_ok h
  obtain ⟨below, lines, w, hlevels, hlines, halike, hinner⟩ := readFile_eq_ok hfile
  cases hsay
  have hsaid : s.Alike { s with log := s.log ++ events } := ⟨_, s.plan.sources, rfl⟩
  exact ⟨below, lines, w, v, hlevels, hlines, hsaid.trans halike, hinner, hrest⟩

/-- Lines that could be read have a form with all includes in place. -/
theorem exists_inlined (h : readLines (readFile files levels true) file n lines note s = .ok () t) :
    ∃ flat, Inlined files file note.isSome lines flat := by
  induction levels using Nat.strongRecOn generalizing file n lines note s t with
  | _ levels ihlevels =>
    induction lines generalizing n note s with
    | nil => exact ⟨[], .nil⟩
    | cons raw rest ih =>
      cases hraw : embedded? note.isSome raw with
      | none =>
        rw [readLines_cons_of_none hraw] at h
        obtain ⟨after, u, hline, hrest⟩ := Action.bind_eq_ok h
        obtain ⟨flat, hflat⟩ := ih hrest
        rw [isSome_of_readLine hline] at hflat
        exact ⟨raw :: flat, .keep hraw hflat⟩
      | some name =>
        obtain ⟨below, lines, u, v, hlevels, hlines, -, hinner, hrest⟩ := readLines_embed_ok hraw h
        obtain ⟨inner, hinner⟩ := ihlevels below (by omega) hinner
        obtain ⟨flat, hflat⟩ := ih hrest
        rw [Option.isSome_none, ← (noteAfter_of_embedded? hraw).2] at hflat
        exact ⟨inner ++ flat, .splice hraw hlines hinner hflat⟩

/-- From any state like the first, in any file of the directory and at any line, the lines lead to a
state like the second and to no open note. -/
def Replays (file : Path) (note : Option OpenNote) (flat : List (List Char))
    (s t : Loading) : Prop :=
  ∀ embed other n tail s', other.parent = file.parent → s.Alike s' → ∃ t', t.Alike t' ∧
    readLines embed other n (flat ++ tail) note s' =
      readLines embed other (n + flat.length) tail none t'

theorem Replays.append {first second : List (List Char)} {u : Loading}
    (hfirst : Replays file note first s u) (hsecond : Replays file none second u t) :
    Replays file note (first ++ second) s t := by
  intro embed other n tail s' hdirectory hs
  obtain ⟨u', hu, hread⟩ := hfirst embed other n (second ++ tail) s' hdirectory hs
  obtain ⟨t', ht, hread'⟩ := hsecond embed other (n + first.length) tail u' hdirectory hu
  exact ⟨t', ht, by rw [List.append_assoc, hread, hread', List.length_append, Nat.add_assoc]⟩

/-- The lines may be read from another state that is alike, and in another file of the directory. -/
theorem Replays.move {other : Path} {u : Loading} (h : Replays other note flat u t) (hs : s.Alike u)
    (hdirectory : other.parent = file.parent) : Replays file note flat s t :=
  fun embed path n tail s' hpath hs' =>
    h embed path n tail s' (hpath.trans hdirectory.symm) (hs.symm.trans hs')

theorem Replays.cons {m : Nat} {after : Option OpenNote} {u : Loading}
    (hraw : embedded? note.isSome raw = none) (hline : readLine file m raw note s = .ok after u)
    (hrest : Replays file after flat u t) : Replays file note (raw :: flat) s t := by
  intro embed other n tail s' hdirectory hs
  have hrepeats : Repeats (readLine file m raw note) (readLine other n raw note) :=
    (Composed.readLine raw note).repeats hdirectory
  obtain ⟨u', hline', hu⟩ := hrepeats _ _ _ hline _ hs
  obtain ⟨t', ht, hread⟩ := hrest embed other (n + 1) tail u' hdirectory hu
  refine ⟨t', ht, ?_⟩
  rw [List.cons_append, readLines_cons_of_none hraw, Action.bind_of_ok _ hline', hread,
    List.length_cons]
  congr 1
  omega

/-- The lines in place do what the lines with includes did. -/
theorem replays_of_inlined {opened : Bool} {commands : Set Path}
    (hcommands : PlainlyIncluding files commands) (hflat : Inlined files file opened lines flat)
    (hnote : note.isSome = opened) (hnames : ∀ name ∈ embeddedNames opened lines, IsPlain name ∧
      file.relativeTo name ∈ commands)
    (h : readLines (readFile files levels true) file n lines note s = .ok () t) :
    Replays file note flat s t := by
  induction hflat generalizing levels n note s t with
  | nil =>
    cases note with
    | some note => cases h
    | none =>
      cases h
      exact fun embed other n tail s' _ hs => ⟨s', hs, rfl⟩
  | keep hraw hrest ih =>
    subst hnote
    rw [readLines_cons_of_none hraw] at h
    obtain ⟨after, u, hline, h⟩ := Action.bind_eq_ok h
    refine .cons hraw hline (ih (isSome_of_readLine hline) (fun name hname => hnames name ?_) h)
    exact List.mem_append_right _ hname
  | @splice file _ raw name lines inner rest flat hraw hlines hinner hrest ihinner ih =>
    subst hnote
    obtain ⟨below, lines', u, v, -, hlines', halike, hread, hafter⟩ := readLines_embed_ok hraw h
    cases hlines.symm.trans hlines'
    cases note with
    | some note => cases hraw
    | none =>
      have hname : name ∈ embeddedNames false (raw :: rest) :=
        List.mem_append_left _ (Option.mem_toList.mpr hraw)
      obtain ⟨hplain, hmember⟩ := hnames name hname
      have hfirst : Replays (file.relativeTo name) none inner u v :=
        ihinner rfl (hcommands _ hmember _ hlines) hread
      have hothers : ∀ other ∈ embeddedNames (noteAfter false raw) rest,
          IsPlain other ∧ file.relativeTo other ∈ commands :=
        fun other hother => hnames other (List.mem_append_right _ hother)
      have hsecond : Replays file none flat v t :=
        ih (noteAfter_of_embedded? hraw).2.symm hothers hafter
      exact (hfirst.move halike (parent_relativeTo hplain file)).append hsecond

theorem loadFile_eq_ok_iff {plan : Plan} :
    loadFile files file s = .ok plan t ↔
      readFile files (maxDepth + 1) false file s = .ok () t ∧ t.plan = plan ∧
      plan.inputFile.isSome = true := by
  unfold loadFile
  constructor
  · intro h
    obtain ⟨_, u, hread, h⟩ := Action.bind_eq_ok h
    rw [Action.bind_of_ok _ (rfl : (get : Loader Loading) u = .ok u u)] at h
    split at h
    · next hinput =>
      cases h
      exact ⟨hread, rfl, hinput⟩
    · cases h
  · rintro ⟨hread, rfl, hinput⟩
    rw [Action.bind_of_ok _ hread, Action.bind_of_ok _ (rfl : (get : Loader Loading) t = .ok t t)]
    simp only [hinput, if_true]
    rfl

end

end Loader

theorem load_eq_ok_iff {files : Files} {file : Path} {symbols : SymbolTable} {plan : Plan}
    {loading : Loading} :
    load files file symbols = (.ok plan, loading) ↔
    Loader.loadFile files file { symbols } = .ok plan loading := by
  unfold load
  cases Loader.loadFile files file { symbols } <;> simp [Action.outcome]

/-- Loading a main file from command files that include each other by plain names, where it
succeeds, is the same as loading one file of the same directory that has all the includes in place:
that succeeds too, with the same symbols and the same plan but for its sources. There is such a
file. -/
theorem load_inlined {files : Files} {commands : Set Path} {main : Path} {symbols : SymbolTable}
    {plan : Plan} {loading : Loading} (hcommands : PlainlyIncluding files commands)
    (hmain : main ∈ commands) (h : load files main symbols = (.ok plan, loading)) :
    (∃ flat, InlinedFile files main flat) ∧
    ∀ flat, InlinedFile files main flat →
      linesOf? (written flat) = some flat ∧
      ∀ (others : Files) (file : Path), file.parent = main.parent → others.lines? file = some flat →
        ∃ plan' loading', load others file symbols = (.ok plan', loading') ∧
          loading'.symbols = loading.symbols ∧ { plan' with sources := plan.sources } = plan := by
  obtain ⟨hread, rfl, hinput⟩ := Loader.loadFile_eq_ok_iff.mp (load_eq_ok_iff.mp h)
  obtain ⟨below, lines, u, -, hlines, halike, hrun⟩ := Loader.readFile_eq_ok hread
  constructor
  · obtain ⟨flat, hflat⟩ := Loader.exists_inlined hrun
    exact ⟨flat, lines, hlines, hflat⟩
  · rintro flat ⟨lines', hlines', hflat⟩
    cases hlines.symm.trans hlines'
    refine ⟨linesOf?_written flat (hflat.isLine (isLine_of_lines? hlines)),
      fun others file hdirectory hothers => ?_⟩
    have hreplays : Loader.Replays main none flat u loading :=
      Loader.replays_of_inlined hcommands hflat rfl (hcommands main hmain lines hlines) hrun
    obtain ⟨u', halike', heq⟩ := Loader.readFile_of_lines? Loader.maxDepth false hothers { symbols }
    obtain ⟨loading', hloading, hend⟩ :=
      hreplays (Loader.readFile others Loader.maxDepth true) file 1 [] u' hdirectory
        (halike.symm.trans halike')
    rw [List.append_nil] at hend
    rw [hend] at heq
    obtain ⟨log, sources, rfl⟩ := hloading
    exact ⟨_, _, load_eq_ok_iff.mpr (Loader.loadFile_eq_ok_iff.mpr ⟨heq, rfl, hinput⟩), rfl, rfl⟩

/-- Two levels of includes, and a note with an include line in it. -/
theorem load_inlined_nested :
    let main := Path.ofString "game/main.txt"
    let outer := main.relativeTo "outer.txt"
    let inner := outer.relativeTo "inner.txt"
    let lines : List String → List (List Char) := List.map String.toList
    let files : Files := fun path =>
      if path = main then .ok (written (lines ["f image.bin", "i outer.txt", "l 10 START"]))
      else if path = outer then
        .ok (written (lines ["n 20 about", "i inner.txt", ".", "  i  inner.txt", "p 30"]))
      else if path = inner then .ok (written (lines ["r 0,ff", "c 0 FIRST", "k 10 here"]))
      else .error .missing
    let flat :=
      lines ["f image.bin", "n 20 about", "i inner.txt", ".", "r 0,ff", "c 0 FIRST", "k 10 here",
        "p 30", "l 10 START"]
    let plan : Plan := {
      inputFile := some (.ofString "game/image.bin")
      segments := [⟨0, .code, some "FIRST"⟩, ⟨0x30, .procs, none⟩]
      lineComments := [(0x10, "here")]
      blockComments := [(0x20, "about\ni inner.txt")]
      sources := [main, outer, inner] }
    (load files main {}).1.toOption = some plan ∧ InlinedFile files main flat ∧
      ∃ plan' loading', load (fun _ => .ok (written flat)) (main.relativeTo "flat.txt") {} =
        (.ok plan', loading') ∧
        loading'.symbols = (load files main {}).2.symbols ∧
          { plan' with sources := plan.sources } = plan := by
  intro main outer inner lines files flat plan
  have hmain : files.lines? main = some (lines ["f image.bin", "i outer.txt", "l 10 START"]) := by
    decide +kernel
  have houter : files.lines? outer =
      some (lines ["n 20 about", "i inner.txt", ".", "  i  inner.txt", "p 30"]) := by decide +kernel
  have hinner : files.lines? inner = some (lines ["r 0,ff", "c 0 FIRST", "k 10 here"]) := by
    decide +kernel
  have hcommands : PlainlyIncluding files { path | path ∈ [main, outer, inner] } := by
    intro file hfile lines hlines name hname
    have hall : ∀ file ∈ [main, outer, inner],
        ∀ name ∈ (files.lines? file).elim [] (embeddedNames false),
        IsPlain name ∧ file.relativeTo name ∈ [main, outer, inner] := by decide +kernel
    exact hall file hfile name (by rw [hlines]; exact hname)
  have hload : (load files main {}).1.toOption = some plan := by decide +kernel
  have hok : load files main {} = (.ok plan, (load files main {}).2) := by
    cases h : load files main {} with
    | mk result loading =>
      rw [h] at hload
      cases result with
      | error fault => cases hload
      | ok plan => rw [Option.some.inj hload]
  -- The lines are put together from the innermost file outwards.
  have hthird : Inlined files inner false _ (lines ["r 0,ff", "c 0 FIRST", "k 10 here"]) :=
    .keep (by decide +kernel) (.keep (by decide +kernel) (.keep (by decide +kernel) .nil))
  have hsecond : Inlined files outer false (lines ["  i  inner.txt", "p 30"])
      (lines ["r 0,ff", "c 0 FIRST", "k 10 here"] ++ lines ["p 30"]) :=
    have hraw : embedded? false "  i  inner.txt".toList = some "inner.txt" := by decide +kernel
    .splice hraw hinner hthird (.keep (by decide +kernel) .nil)
  have hclosed : noteAfter (noteAfter (noteAfter false "n 20 about".toList) "i inner.txt".toList)
      ".".toList = false :=
    by decide +kernel
  have hfirst :
      Inlined files outer false (lines ["n 20 about", "i inner.txt", ".", "  i  inner.txt", "p 30"])
      (lines ["n 20 about", "i inner.txt", ".", "r 0,ff", "c 0 FIRST", "k 10 here", "p 30"]) :=
    .keep (by decide +kernel)
      (.keep (by decide +kernel) (.keep (by decide +kernel) (hclosed ▸ hsecond)))
  have hflat : InlinedFile files main flat := by
    have hraw : embedded? (noteAfter false "f image.bin".toList) "i outer.txt".toList =
        some "outer.txt" := by
      decide +kernel
    have hrest := Inlined.splice hraw houter hfirst
      (.keep (by decide +kernel) .nil : Inlined files main _ (lines ["l 10 START"])
        (lines ["l 10 START"]))
    exact ⟨_, hmain, .keep (by decide +kernel) hrest⟩
  obtain ⟨-, hall⟩ := load_inlined hcommands List.mem_cons_self hok
  obtain ⟨hwritten, hsame⟩ := hall flat hflat
  exact ⟨hload, hflat, hsame _ (main.relativeTo "flat.txt") (by decide +kernel) hwritten⟩

end Disassembler
