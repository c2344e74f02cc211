import Disassembler.Proofs.Plan.Agenda
import Mathlib.Data.List.Forall2

/-!
Notes are opaque. The lines of a note are text, whatever they look like: two sets of command files
that differ only in the lines of one note have agendas that differ only in the text of that note,
and in line numbers. Following the two agendas side by side, the drafts stay the same but for the
text of the comment that the note makes.
-/

namespace Disassembler

/-! ## Another text for a comment -/

namespace Comments

variable {a b : Int} {text other : String}

def reword (address : Int) (text : String) (comments : Comments) : Comments :=
  comments.map fun c => if c.1 = address then (address, text) else c

theorem at?_cons (c : Int × String) (comments : Comments) :
    at? a (c :: comments) = if a = c.1 then some c.2 else comments.at? a := by
  rw [at?, List.lookup_cons]
  by_cases h : a = c.1
  · simp [h]
  · rw [beq_false_of_ne h, if_neg h, at?]

theorem reword_cons (c : Int × String) (comments : Comments) :
    reword a text (c :: comments) = (if c.1 = a then (a, text) else c) :: comments.reword a text :=
  rfl

theorem at?_reword (comments : Comments) :
    (comments.reword a text).at? b = if b = a then (comments.at? a).map fun _ =>
      text else comments.at? b := by
  induction comments with
  | nil => simp [reword, at?]
  | cons c comments ih => grind [reword_cons, at?_cons]

theorem reword_insert_of_ne (hne : a ≠ b) (comments : Comments) :
    (comments.insert b other).reword a text = (comments.reword a text).insert b other := by
  induction comments with
  | nil => simp [insert, reword, Ne.symm hne]
  | cons c comments ih => grind [insert, reword_cons]

theorem reword_of_none (text : String) {comments : Comments} (h : comments.at? a = none) :
    comments.reword a text = comments := by
  induction comments with
  | nil => rfl
  | cons c comments ih => grind [reword_cons, at?_cons]

theorem reword_insert (text other : String) {comments : Comments} (h : comments.at? a = none) :
    (comments.insert a other).reword a text = comments.insert a text := by
  induction comments with
  | nil => simp [insert, reword]
  | cons c comments ih =>
    have hreword := reword_of_none text h
    grind [insert, reword_cons, at?_cons]

end Comments

def Plan.reword (address : Int) (text : String) (plan : Plan) : Plan :=
  { plan with blockComments := plan.blockComments.reword address text }

/-- The two drafts are the same, or the comment at an address has the one text in the first and the
other in the second. -/
inductive Draft.Reworded (address : Int) (text other : String) : Draft → Draft → Prop where
  | same (d : Draft) : Reworded address text other d d
  | reworded {d : Draft} (h : d.plan.blockComments.at? address = some text) :
    Reworded address text other d { d with plan := d.plan.reword address other }

namespace Draft.Reworded

variable {address : Int} {text other : String} {d e : Draft}

theorem symbols_eq (h : Reworded address text other d e) : e.symbols = d.symbols := by
  cases h <;> rfl

theorem lineComments_eq (h : Reworded address text other d e) :
    e.plan.lineComments = d.plan.lineComments := by
  cases h <;> rfl

theorem inputFile_eq (h : Reworded address text other d e) :
    e.plan.inputFile = d.plan.inputFile := by
  cases h <;> rfl

theorem plan_eq (h : Reworded address text other d e) :
    e.plan = d.plan ∨ d.plan.blockComments.at? address = some text ∧
    e.plan = d.plan.reword address other := by
  cases h with
  | same => exact .inl rfl
  | reworded hat => exact .inr ⟨hat, rfl⟩

theorem at?_isSome (h : Reworded address text other d e) (a : Int) :
    (e.plan.blockComments.at? a).isSome = (d.plan.blockComments.at? a).isSome := by
  cases h with
  | same => rfl
  | reworded hat =>
    simp only [Plan.reword, Comments.at?_reword]
    split
    · next ha => simp [ha]
    · rfl

/-- What has nothing to do with block comments keeps the two drafts alike. -/
theorem update (h : Reworded address text other d e) (symbols : SymbolTable) {f : Plan → Plan}
    (hf : ∀ plan comments, f { plan with blockComments := comments } =
      { f plan with blockComments := comments }) :
    Reworded address text other ⟨symbols, f d.plan⟩ ⟨symbols, f e.plan⟩ := by
  cases h with
  | same => exact .same _
  | reworded hat =>
    have hcomments : (f d.plan).blockComments = d.plan.blockComments := by
      have h := congrArg Plan.blockComments (hf d.plan d.plan.blockComments)
      exact h
    have hreword : f (d.plan.reword address other) = (f d.plan).reword address other := by
      rw [Plan.reword, hf, Plan.reword, hcomments]
    rw [hreword]
    refine .reworded (d := ⟨symbols, f d.plan⟩) ?_
    rw [hcomments]
    exact hat

end Draft.Reworded

/-! ## Line numbers -/

def Fault.unnumbered : Fault → Fault
  | malformedCommand file _ text => malformedCommand file 0 text
  | terminatorTooLarge file _ value => terminatorTooLarge file 0 value
  | labelClash file _ address existing new => labelClash file 0 address existing new
  | commentClash file _ address => commentClash file 0 address
  | fault => fault

/-- Two attempts succeed with related results, or fail for the same reason, on lines that may
differ. -/
inductive Attempts {α β : Type} (R : α → β → Prop) : Except Fault α → Except Fault β → Prop where
  | ok {a : α} {b : β} (h : R a b) : Attempts R (.ok a) (.ok b)
  | error {fault fault' : Fault}
      (h : fault'.unnumbered = fault.unnumbered) : Attempts R (.error fault) (.error fault')

theorem Attempts.map {α β γ δ : Type} {R : α → β → Prop} {S : γ → δ → Prop} {f : α → γ} {g : β → δ}
    {first : Except Fault α} {second : Except Fault β} (h : Attempts R first second)
    (hfg : ∀ a b, R a b → S (f a) (g b)) : Attempts S (first.map f) (second.map g) := by
  cases h with
  | ok h => exact .ok (hfg _ _ h)
  | error h => exact .error h

section

variable (file : Path) (n m : Nat)

theorem Comments.attempts_add (comments : Comments) (symbols : SymbolTable) (address : Int)
    (text : String) :
    Attempts Eq (comments.add symbols ⟨file, n⟩ address text)
      (comments.add symbols ⟨file, m⟩ address text) := by
  unfold add
  cases comments.request symbols.inRange address text with
  | some comments => exact .ok rfl
  | none => exact .error rfl

theorem SymbolTable.attempts_labelled (symbols : SymbolTable) (address : Int)
    (name : Option String) :
    Attempts Eq (symbols.labelled ⟨file, n⟩ address name)
      (symbols.labelled ⟨file, m⟩ address name) := by
  cases name with
  | none => exact .ok rfl
  | some name =>
    simp only [labelled]
    cases symbols.bind address name with
    | ok symbols => exact .ok rfl
    | error fault => exact .error rfl

variable {address : Int} {text other : String} {d e : Draft}

/-- A directive has nothing to do with block comments. -/
theorem Directive.attempts_perform (hd : d.Reworded address text other e) (asked : Directive) :
    Attempts (Draft.Reworded address text other) (asked.perform ⟨file, n⟩ d)
      (asked.perform ⟨file, m⟩ e) := by
  cases asked with
  | segment mode start name =>
    simp only [perform, hd.symbols_eq]
    refine Attempts.map (R := Eq) ?_ ?_
    · split
      · exact .ok rfl
      · exact d.symbols.attempts_labelled file n m start name
    · rintro symbols _ rfl
      exact hd.update symbols (f := (·.addSegment ⟨start, mode, name⟩)) fun _ _ => rfl
  | label start name =>
    simp only [perform, hd.symbols_eq]
    refine (d.symbols.attempts_labelled file n m start name).map ?_
    rintro symbols _ rfl
    exact hd.update symbols (f := id) fun _ _ => rfl
  | comment start remark =>
    cases remark with
    | none => exact .ok hd
    | some remark =>
      simp only [perform, hd.symbols_eq, hd.lineComments_eq]
      refine (d.plan.lineComments.attempts_add file n m d.symbols start remark).map ?_
      rintro comments _ rfl
      exact hd.update d.symbols (f := fun plan => { plan with lineComments := comments }) fun _ _ =>
        rfl
  | range low high =>
    simp only [perform, hd.symbols_eq]
    exact .ok (hd.update _ (f := id) fun _ _ => rfl)
  | terminator value =>
    simp only [perform]
    split
    · rw [hd.symbols_eq]
      exact .ok (hd.update d.symbols (f := fun plan => { plan with terminator := value.toUInt8 })
        fun _ _ => rfl)
    · exact .error rfl
  | inputFile name =>
    simp only [perform, hd.symbols_eq]
    exact .ok (hd.update d.symbols
      (f := fun plan => { plan with inputFile := some (file.relativeTo name) }) fun _ _ => rfl)
  | note start remark => exact .ok hd
  | embed name => exact .ok hd

end

/-! ## Agendas side by side -/

/-- Two items are the same but for their lines, or both are the note at an address, with the one
text and with the other. -/
inductive Item.Alike (address : Nat) (text other : String) : Item → Item → Prop where
  | source (file : Path) : Alike address text other (.source file) (.source file)
  | directive (file : Path) (n m : Nat) (asked : Directive) :
    Alike address text other (.directive ⟨file, n⟩ asked) (.directive ⟨file, m⟩ asked)
  | note (file : Path) (n m a : Nat) {first second : String}
    (h : first = second ∨ a = address ∧ first = text ∧ second = other) :
    Alike address text other (.note ⟨file, n⟩ a first) (.note ⟨file, m⟩ a second)
  | malformed (file : Path) (n m : Nat) (line : String) :
    Alike address text other (.malformed ⟨file, n⟩ line) (.malformed ⟨file, m⟩ line)
  | unclosed (file : Path)
      (a : Nat) : Alike address text other (.unclosed file a) (.unclosed file a)
  | unread (l m : Option Location) (file : Path) (reason : Unread) :
    Alike address text other (.unread l file reason) (.unread m file reason)

section

variable {address : Nat} {text other : String} {d e : Draft}

theorem Item.attempts_note (hd : d.Reworded address text other e) (file : Path) (n m a : Nat)
    {first second : String} (h : first = second ∨ a = address ∧ first = text ∧ second = other) :
    Attempts (Draft.Reworded address text other) ((Item.note ⟨file, n⟩ a first).apply d)
      ((Item.note ⟨file, m⟩ a second).apply e) := by
  have hsome := hd.at?_isSome a
  simp only [apply, Comments.add, Comments.request, hd.symbols_eq]
  by_cases hrange : d.symbols.inRange a = true
  · simp only [if_pos hrange]
    cases hat : d.plan.blockComments.at? a with
    | some existing =>
      obtain ⟨existing', hat'⟩ := Option.isSome_iff_exists.mp (hsome.trans (by rw [hat]; rfl))
      rw [hat']
      exact .error rfl
    | none =>
      have hat' : e.plan.blockComments.at? a = none := by simpa [hat] using hsome
      rw [hat']
      refine .ok ?_
      cases hd with
      | same =>
        rcases h with rfl | ⟨rfl, rfl, rfl⟩
        · exact .same _
        · rw [← Comments.reword_insert second first hat]
          refine .reworded
            (d := { d with plan.blockComments := d.plan.blockComments.insert a first }) ?_
          simp [Comments.at?_insert _ hat]
      | reworded hold =>
        -- the address is taken, so this is a note somewhere else
        have hne : (address : Int) ≠ a := by
          intro heq
          rw [heq, hat] at hold
          cases hold
        obtain rfl : first = second := by
          rcases h with h | ⟨rfl, -⟩
          · exact h
          · exact absurd rfl hne
        simp only [Plan.reword, ← Comments.reword_insert_of_ne hne]
        refine .reworded
          (d := { d with plan.blockComments := d.plan.blockComments.insert a first }) ?_
        simpa [Comments.at?_insert _ hat, hne] using hold
  · simp only [if_neg hrange]
    exact .ok (hd.update d.symbols (f := id) fun _ _ => rfl)

/-- Items that are alike keep drafts alike, or are both refused. -/
theorem Item.Alike.attempts {i j : Item} (h : i.Alike address text other j)
    (hd : d.Reworded address text other e) :
    Attempts (Draft.Reworded address text other) (i.apply d) (j.apply e) := by
  cases h with
  | source file =>
    simp only [apply, hd.symbols_eq]
    exact .ok (hd.update d.symbols
      (f := fun plan => { plan with sources := plan.sources ++ [file] }) fun _ _ => rfl)
  | directive file n m asked => exact asked.attempts_perform file n m hd
  | note file n m a h => exact attempts_note hd file n m a h
  | malformed file n m line => exact .error rfl
  | unclosed file a => exact .error rfl
  | unread l m file reason => exact .error rfl

/-- Agendas that are alike lead to drafts that are alike, wherever they stop. -/
theorem Draft.attempts_follow {items others : List Item}
    (h : List.Forall₂ (Item.Alike address text other) items others)
    (hd : d.Reworded address text other e) :
    Attempts (fun _ _ => True) (d.follow items).1 (e.follow others).1 ∧
      Reworded address text other (d.follow items).2 (e.follow others).2 := by
  induction h generalizing d e with
  | nil => exact ⟨.ok trivial, hd⟩
  | @cons i j items others hij _ ih =>
    have hattempts := hij.attempts hd
    rw [follow, follow]
    generalize i.apply d = first at hattempts ⊢
    generalize j.apply e = second at hattempts ⊢
    cases hattempts with
    | ok h => exact ih h
    | error h => exact ⟨.error h, hd⟩

end

/-! ## Agendas of files with another note -/

theorem foldl_noteAfter_of_inNote {body : List (List Char)} (h : ∀ raw ∈ body, inNote raw = true) :
    body.foldl noteAfter true = true := by
  induction body with
  | nil => rfl
  | cons raw body ih =>
    obtain ⟨hraw, hbody⟩ := List.forall_mem_cons.mp h
    have hopen : noteAfter true raw = true := hraw
    rw [List.foldl_cons, hopen]
    exact ih hbody

theorem noteAfter_of_none {raw : List Char} (h : directive? raw = none) :
    noteAfter false raw = false := by
  simp [noteAfter, h]

/-- Lines that leave no note open are done with before the lines after them. -/
theorem agendaOfLines_append {inner : Location → Path → List Item} {file : Path} {n : Nat}
    {head : List (List Char)} (rest : List (List Char)) (h : head.foldl noteAfter false = false) :
    agendaOfLines inner file n (head ++ rest) =
      agendaOfLines inner file n head ++ agendaOfLines inner file (n + head.length) rest := by
  induction n, head using lines_induction with
  | nil n =>
    rw [agendaOfLines_nil]
    rfl
  | silent n raw head hsilent ih =>
    have hclosed : noteAfter false raw = false := by
      refine noteAfter_of_none ?_
      rw [directive?, Loader.ofChars?_of_isSilent hsilent]
    rw [List.foldl_cons, hclosed] at h
    rw [List.cons_append, agendaOfLines_silent hsilent, agendaOfLines_silent hsilent, ih h,
      List.length_cons, Nat.add_right_comm, Nat.add_assoc]
  | malformed n raw head hsilent hd ih =>
    rw [List.foldl_cons, noteAfter_of_none hd] at h
    rw [List.cons_append, agendaOfLines_malformed hsilent hd, agendaOfLines_malformed hsilent hd,
      ih h, List.length_cons, List.cons_append, Nat.add_right_comm, Nat.add_assoc]
  | unclosed n raw head address text hd hhead =>
    -- the note would still be open at the end
    have hopen : noteAfter false raw = true := by simp [noteAfter, hd]
    rw [List.foldl_cons, hopen, foldl_noteAfter_of_inNote hhead] at h
    cases h
  | note n raw body closing head address text hd hbody hclosing ih =>
    have hopen : noteAfter false raw = true := by simp [noteAfter, hd]
    have hclosed : noteAfter true closing = false := hclosing
    rw [List.foldl_cons, hopen, List.foldl_append, foldl_noteAfter_of_inNote hbody, List.foldl_cons,
      hclosed] at h
    rw [List.cons_append, List.append_assoc, List.cons_append, agendaOfLines_note hd hbody hclosing,
      agendaOfLines_note hd hbody hclosing, ih h, List.cons_append]
    have hlength : n + 1 + body.length + 1 + head.length =
        n + (raw :: (body ++ closing :: head)).length := by
      simp only [List.length_cons, List.length_append]
      omega
    rw [hlength]
  | embed n raw head name hd ih =>
    have hclosed : noteAfter false raw = false := by simp [noteAfter, hd]
    rw [List.foldl_cons, hclosed] at h
    rw [List.cons_append, agendaOfLines_embed hd, agendaOfLines_embed hd, ih h, List.length_cons,
      List.append_assoc, Nat.add_right_comm, Nat.add_assoc]
  | directive n raw head d hd hline ih =>
    have hclosed : noteAfter false raw = false := by
      cases d <;> simp_all [noteAfter, Directive.isLine]
    rw [List.foldl_cons, hclosed] at h
    rw [List.cons_append, agendaOfLines_directive hd hline, agendaOfLines_directive hd hline, ih h,
      List.length_cons, List.cons_append, Nat.add_right_comm, Nat.add_assoc]

section

variable {address : Nat} {text other : String} {inner inner' : Location → Path → List Item}

theorem alike_agendaOfLines
    (hinner : ∀ l m path, List.Forall₂ (Item.Alike address text other) (inner l path)
      (inner' m path)) (file : Path)
    (n m : Nat) (lines : List (List Char)) :
    List.Forall₂ (Item.Alike address text other) (agendaOfLines inner file n lines)
      (agendaOfLines inner' file m lines) := by
  induction n, lines using lines_induction generalizing m with
  | nil n =>
    rw [agendaOfLines_nil, agendaOfLines_nil]
    exact .nil
  | silent n raw rest h ih =>
    rw [agendaOfLines_silent h, agendaOfLines_silent h]
    exact ih (m + 1)
  | malformed n raw rest hsilent h ih =>
    rw [agendaOfLines_malformed hsilent h, agendaOfLines_malformed hsilent h]
    exact .cons (.malformed file n m _) (ih (m + 1))
  | unclosed n raw rest a title h hrest =>
    rw [agendaOfLines_unclosed h hrest, agendaOfLines_unclosed h hrest]
    exact .cons (.unclosed file a) .nil
  | note n raw body closing rest a title h hbody hclosing ih =>
    rw [agendaOfLines_note h hbody hclosing, agendaOfLines_note h hbody hclosing]
    exact .cons (.note file _ _ a (.inl rfl)) (ih _)
  | embed n raw rest name h ih =>
    rw [agendaOfLines_embed h, agendaOfLines_embed h]
    exact List.rel_append (hinner _ _ _) (ih (m + 1))
  | directive n raw rest d h hd ih =>
    rw [agendaOfLines_directive h hd, agendaOfLines_directive h hd]
    exact .cons (.directive file n m d) (ih (m + 1))

end

theorem Files.agenda_of_lines? {files : Files} {path : Path} {lines : List (List Char)}
    (h : files.lines? path = some lines) (levels : Nat) (l : Option Location) :
    files.agenda (levels + 1) l path =
      .source path :: agendaOfLines (fun l => files.agenda levels (some l)) path 1 lines := by
  rw [agenda]
  unfold lines? at h
  cases hfile : files path with
  | error reason =>
    rw [hfile] at h
    cases h
  | ok bytes =>
    rw [hfile] at h
    simp only at h ⊢
    rw [h]

/-- Two sets of files that differ in the lines of one note, wherever the file with the note is
found. -/
structure Files.DifferInNote (files others : Files) (head : List (List Char)) (opening : List Char)
    (body other : List (List Char)) (closing : List Char) (tail : List (List Char)) : Prop where
  /-- the opening line is not in a note itself -/
  head_closed : head.foldl noteAfter false = false
  body_inNote : ∀ raw ∈ body, inNote raw = true
  other_inNote : ∀ raw ∈ other, inNote raw = true
  closing_closes : inNote closing = false
  files_eq : ∀ path, others path = files path ∨
    files.lines? path = some (head ++ opening :: (body ++ closing :: tail)) ∧
      others.lines? path = some (head ++ opening :: (other ++ closing :: tail))

section

variable {files others : Files} {head body other tail : List (List Char)}
    {opening closing : List Char} {address : Nat}
  {text : Option String}

theorem Files.DifferInNote.agenda_alike
    (h : files.DifferInNote others head opening body other closing tail)
    (hopening : directive? opening = some (.note address text)) (levels : Nat)
    (l m : Option Location) (path : Path) :
    List.Forall₂ (Item.Alike address (noteText text body) (noteText text other))
      (files.agenda levels l path)
      (others.agenda levels m path) := by
  induction levels generalizing l m path with
  | zero => exact .cons (.unread l m path _) .nil
  | succ levels ih =>
    have hlines := alike_agendaOfLines (fun l m path => ih (some l) (some m) path)
    rcases h.files_eq path with heq | ⟨hfirst, hsecond⟩
    · rw [agenda, agenda, heq]
      cases files path with
      | error reason => exact .cons (.unread l m path _) .nil
      | ok bytes =>
        simp only
        cases linesOf? bytes with
        | none => exact .cons (.unread l m path _) .nil
        | some lines => exact .cons (.source path) (hlines path 1 1 lines)
    · -- the same lines in front and behind; the lines behind are numbered otherwise
      rw [agenda_of_lines? hfirst, agenda_of_lines? hsecond, agendaOfLines_append _ h.head_closed,
        agendaOfLines_append _ h.head_closed,
        agendaOfLines_note hopening h.body_inNote h.closing_closes,
        agendaOfLines_note hopening h.other_inNote h.closing_closes]
      refine .cons (.source path) (List.rel_append (hlines path 1 1 head) ?_)
      exact .cons (.note path _ _ address (.inr ⟨rfl, rfl, rfl⟩)) (hlines path _ _ tail)

end

/-! ## Loads -/

section

variable {opening closing : List Char} {body : List (List Char)} {address : Nat}
    {text : Option String}

/-- A note adds its comment where it is closed, and does nothing else. -/
theorem Loader.readLines_opening_note (hopening : directive? opening = some (.note address text))
    (hbody : ∀ raw ∈ body, inNote raw = true) (hclosing : inNote closing = false)
    (embed : Path → Loader Unit) (file : Path) (n : Nat) (rest : List (List Char)) (s : Loading) :
    ∃ t : Loading, t.draft = s.draft ∧
      readLines embed file n (opening :: (body ++ closing :: rest)) none s =
        (addBlockComment file (n + 1 + body.length) address (noteText text body) >>= fun _ =>
          readLines embed file (n + 1 + body.length + 1) rest none) t := by
  obtain ⟨t, ht, hdraft⟩ : ∃ t, say [lineEvent file n (.note address text)] s = .ok () t ∧
      t.draft = s.draft :=
    ⟨_, rfl, rfl⟩
  rw [readLines_opening hopening, readLines_note _ rest hbody hclosing, Action.bind_of_ok _ ht]
  exact ⟨t, hdraft, rfl⟩

/-- What a note that is closed leads to: a comment, a clash, or nothing. -/
theorem Loader.readLines_note_cases (hopening : directive? opening = some (.note address text))
    (hbody : ∀ raw ∈ body, inNote raw = true) (hclosing : inNote closing = false)
    (embed : Path → Loader Unit) (file : Path) (n : Nat) (rest : List (List Char)) (s : Loading) :
    let last := n + 1 + body.length
    let read := readLines embed file n (opening :: (body ++ closing :: rest)) none s
    (s.symbols.inRange address = true ∧ s.plan.blockComments.at? address = none ∧
      ∃ t comments, read = readLines embed file (last + 1) rest none t ∧
        t.draft = ⟨s.symbols, { s.plan with blockComments := comments }⟩ ∧
        ∀ a, comments.at? a = if a = address then some (noteText text body)
          else s.plan.blockComments.at? a) ∨
    (s.symbols.inRange address = true ∧ s.plan.blockComments.at? address ≠ none ∧
      ∃ t, read = .error (.commentClash file last address) t ∧ t.draft = s.draft) ∨
    (s.symbols.inRange address = false ∧
      ∃ t, read = readLines embed file (last + 1) rest none t ∧ t.draft = s.draft) := by
  intro last read
  obtain ⟨t, hdraft, hread⟩ := readLines_opening_note hopening hbody hclosing embed file n rest s
  obtain ⟨hsymbols, hplan⟩ : t.symbols = s.symbols ∧ t.plan = s.plan := Draft.mk.inj hdraft
  rw [← hsymbols, ← hplan]
  by_cases hrange : t.symbols.inRange address = true
  · cases hat : t.plan.blockComments.at? address with
    | none =>
      have hadd : addBlockComment file last address (noteText text body) t =
          .ok () { t with
            plan.blockComments :=
              t.plan.blockComments.insert address (noteText text body) } := by
        unfold addBlockComment addComment
        rw [if_pos hrange]
        simp only [hat]
      refine .inl ⟨hrange, rfl, _, _, hread.trans (Action.bind_of_ok _ hadd), rfl, fun a => ?_⟩
      exact Comments.at?_insert t.plan.blockComments hat
    | some existing =>
      have hadd : addBlockComment file last address (noteText text body) t =
          .error (.commentClash file last address) t := by
        unfold addBlockComment addComment
        rw [if_pos hrange]
        simp only [hat]
      refine .inr (.inl ⟨hrange, fun h => (by cases h), t, ?_, hdraft⟩)
      exact hread.trans (Action.bind_of_error _ hadd)
  · have hadd : addBlockComment file last address (noteText text body) t = .ok () t := if_neg hrange
    refine .inr (.inr ⟨eq_false_of_ne_true hrange, t, ?_, hdraft⟩)
    exact hread.trans (Action.bind_of_ok _ hadd)

end

/-- Notes are opaque. Reading a note, from the line that opens it over lines that do not start with
a full stop up to one that does, has one of three outcomes, whatever its lines say: if the address
is in range and has no block comment, it gets one of the text on the opening line and the lines as
they are, and everything else stays; if it has one already, the note is refused where it is closed;
and out of range the note has no effect. Where the lines of a note are replaced by others, all
symbols stay the same, and so does the whole plan but for the text of that comment; a load that
fails fails for the same reason, though its line may be counted otherwise. -/
theorem load_rewordedNote {files others : Files} {head body other tail : List (List Char)}
    {opening closing : List Char} {address : Nat} {text : Option String}
    (h : files.DifferInNote others head opening body other closing tail)
    (hopening : directive? opening = some (.note address text)) :
    (∀ (embed : Path → Loader Unit) (file : Path) (n : Nat) (rest : List (List Char)) (s : Loading),
      let last := n + 1 + body.length
      let read := Loader.readLines embed file n (opening :: (body ++ closing :: rest)) none s
      (s.symbols.inRange address = true ∧ s.plan.blockComments.at? address = none ∧
        ∃ t comments, read = Loader.readLines embed file (last + 1) rest none t ∧
          t.draft = ⟨s.symbols, { s.plan with blockComments := comments }⟩ ∧
          ∀ a, comments.at? a = if a = address then some (noteText text body)
            else s.plan.blockComments.at? a) ∨
      (s.symbols.inRange address = true ∧ s.plan.blockComments.at? address ≠ none ∧
        ∃ t, read = .error (.commentClash file last address) t ∧ t.draft = s.draft) ∨
      (s.symbols.inRange address = false ∧
        ∃ t, read = Loader.readLines embed file (last + 1) rest none t ∧ t.draft = s.draft)) ∧
    ∀ (main : Path) (symbols : SymbolTable),
      (load others main symbols).2.symbols = (load files main symbols).2.symbols ∧
      ((∃ plan plan', (load files main symbols).1 = .ok plan ∧
        (load others main symbols).1 = .ok plan' ∧
          (plan' = plan ∨ plan.blockComments.at? address = some (noteText text body) ∧
            plan' = plan.reword address (noteText text other))) ∨
        ∃ fault fault', (load files main symbols).1 = .error fault ∧
          (load others main symbols).1 = .error fault' ∧
          fault'.unnumbered = fault.unnumbered) := by
  refine ⟨Loader.readLines_note_cases hopening h.body_inNote h.closing_closes,
    fun main symbols => ?_⟩
  have hagendas := h.agenda_alike hopening (Loader.maxDepth + 1) none none main
  obtain ⟨hattempts, hdrafts⟩ := Draft.attempts_follow hagendas (.same { symbols })
  -- both agendas are followed to the end or neither is, which leaves two of the four cases
  rcases load_follows files main symbols with ⟨fault, hload, hfollow⟩ | ⟨hfollow, hload⟩ <;>
  rcases load_follows others main symbols with ⟨fault', hload', hfollow'⟩ | ⟨hfollow', hload'⟩
  all_goals
    rw [Files.fullAgenda] at hfollow hfollow'
    rw [hfollow, hfollow'] at hattempts hdrafts
    refine ⟨hdrafts.symbols_eq, ?_⟩
  · cases hattempts with
    | error hfault => exact .inr ⟨fault, fault', hload, hload', hfault⟩
  · cases hattempts
  · cases hattempts
  · have hinput : (load others main symbols).2.plan.inputFile =
        (load files main symbols).2.plan.inputFile :=
      hdrafts.inputFile_eq
    rw [hinput] at hload'
    by_cases hnamed : (load files main symbols).2.plan.inputFile.isSome = true
    · rw [if_pos hnamed] at hload hload'
      exact .inl ⟨_, _, hload, hload', hdrafts.plan_eq⟩
    · rw [if_neg hnamed] at hload hload'
      exact .inr ⟨_, _, hload, hload', rfl⟩

/-- Lines of a note that read as a directive, as an include, as a remark and as an indented full
stop. -/
theorem load_rewordedNote_directives :
    let main := Path.ofString "rom.lst"
    let lines : List String → List (List Char) := List.map String.toList
    let head := lines ["f rom.bin", "c 10 START"]
    let body := lines ["l 20 TEXT", "i sub.lst", "# 1", " ."]
    let tail := lines ["l 30 LATER"]
    let opening := "n 10 about".toList
    let closing := ".end".toList
    let files : List (List Char) → Files := fun body path =>
      if path = main then .ok (written (head ++ opening :: (body ++ closing :: tail)))
        else .error .missing
    (files body).DifferInNote (files []) head opening body [] closing tail ∧
      directive? opening = some (.note 0x10 (some "about")) ∧
      ∃ plan, (load (files body) main {}).1 = .ok plan ∧
        plan.blockComments = [(0x10, "about\nl 20 TEXT\ni sub.lst\n# 1\n .")] ∧
        (load (files []) main {}).1 = .ok (plan.reword 0x10 "about") ∧
        (load (files []) main {}).2.symbols = (load (files body) main {}).2.symbols := by
  intro main lines head body tail opening closing files
  have hlines : ∀ body,
      (head ++ opening :: (body ++ closing :: tail)).all
        (fun line => line.all fun c => !Text.endsLine c) = true →
      (files body).lines? main = some (head ++ opening :: (body ++ closing :: tail)) := by
    intro body hbody
    simp only [Files.lines?, files, if_true]
    refine linesOf?_written _ fun line hline c hc => ?_
    simpa using List.all_eq_true.mp (List.all_eq_true.mp hbody line hline) c hc
  have hdiffer : (files body).DifferInNote (files []) head opening body [] closing tail := by
    refine ⟨by decide +kernel, by decide +kernel, List.forall_mem_nil _, by decide +kernel,
      fun path => ?_⟩
    by_cases hpath : path = main
    · subst hpath
      exact .inr ⟨hlines body (by decide +kernel), hlines [] (by decide +kernel)⟩
    · exact .inl (by simp only [files, if_neg hpath])
  have hopening : directive? opening = some (.note 0x10 (some "about")) := by decide +kernel
  have hcomments : (load (files body) main {}).1.map (·.blockComments) =
      .ok [(0x10, "about\nl 20 TEXT\ni sub.lst\n# 1\n .")] := by decide +kernel
  have hother : (load (files []) main {}).1.map (·.blockComments) = .ok [(0x10, "about")] := by
    decide +kernel
  have htext : noteText (some "about") [] = "about" := by decide +kernel
  refine ⟨hdiffer, hopening, ?_⟩
  obtain ⟨hsymbols, ⟨plan, plan', h, h', hplan⟩ | ⟨fault, _, h, -⟩⟩ :=
    (load_rewordedNote hdiffer hopening).2 main {}
  · rw [h] at hcomments
    rw [h'] at hother
    refine ⟨plan, h, Except.ok.inj hcomments, ?_, hsymbols⟩
    rcases hplan with rfl | ⟨-, rfl⟩
    · exact absurd (hcomments.symm.trans hother) (by decide)
    · rw [h', htext]
      rfl
  · rw [h] at hcomments
    cases hcomments

end Disassembler
