import Disassembler.Plan.Loader
import Disassembler.Proofs.Symbol.Requests

/-!
What one line of a command file does to the symbols and the plan, as a function of these alone: it
gives the new ones or refuses, and where it refuses it leaves no mark.
-/

namespace Disassembler

structure Location where
  file : Path
  line : Nat
  deriving DecidableEq, Repr

/-- The symbols and the plan that a load has come to. -/
structure Draft where
  symbols : SymbolTable
  plan : Plan := {}
  deriving DecidableEq, Repr

def Loading.draft (s : Loading) : Draft := ⟨s.symbols, s.plan⟩

/-- Add a comment in range, where there is none. -/
def Comments.request (inRange : Int → Bool) (comments : Comments) (address : Int) (text : String) :
    Option Comments :=
  if inRange address then
    match comments.at? address with
    | some _ => none
    | none => some (comments.insert address text)
  else some comments

def Comments.add (comments : Comments) (symbols : SymbolTable) (l : Location) (address : Int)
    (text : String) : Except Fault Comments :=
  match comments.request symbols.inRange address text with
  | some comments => .ok comments
  | none => .error (.commentClash l.file l.line address)

/-- Give an address a label, a generated one if no name is given. -/
def SymbolTable.labelled (symbols : SymbolTable) (l : Location) (address : Int) : Option String →
    Except Fault SymbolTable
  | none => .ok (symbols.autoLabel address).2
  | some name =>
    match symbols.bind address name with
    | .ok symbols => .ok symbols
    | .error _ => .error (.labelClash l.file l.line address ((symbols.label? address).getD "") name)

def Directive.perform (l : Location) (d : Draft) : Directive → Except Fault Draft
  | .segment mode address name =>
    (if name = none ∧ mode ≠ .procs then .ok d.symbols
      else d.symbols.labelled l address name).map fun symbols =>
      ⟨symbols, d.plan.addSegment ⟨address, mode, name⟩⟩
  | .label address name => (d.symbols.labelled l address name).map fun symbols => { d with symbols }
  | .comment address (some text) =>
    (d.plan.lineComments.add d.symbols l address text).map fun comments =>
      { d with plan.lineComments := comments }
  | .range low high => .ok { d with symbols := d.symbols.setRange (some low) (some high) }
  | .terminator value =>
    if value < 256 then .ok { d with plan.terminator := value.toUInt8 }
    else .error (.terminatorTooLarge l.file l.line value)
  | .inputFile name => .ok { d with plan.inputFile := some (l.file.relativeTo name) }
  | .comment _ none | .note .. | .embed _ => .ok d

namespace Loader

/-- The action does to the symbols and the plan what a function says. Where that refuses, it fails
and leaves them. -/
def Performs (m : Loader Unit) (f : Draft → Except Fault Draft) : Prop :=
  ∀ s, (∃ t, m s = .ok () t ∧ f s.draft = .ok t.draft) ∨
    ∃ fault t, m s = .error fault t ∧ f s.draft = .error fault ∧ t.draft = s.draft

section

variable (file : Path) (n : Nat)

theorem bindLabel_labelled (address : Int) (name : String) (s : Loading) :
    (∃ t, bindLabel file n address name s = .ok () t ∧ t.plan = s.plan ∧
      s.symbols.labelled ⟨file, n⟩ address (some name) = .ok t.symbols) ∨
    ∃ fault, bindLabel file n address name s = .error fault s ∧
      s.symbols.labelled ⟨file, n⟩ address (some name) = .error fault := by
  have hget : (get : Loader Loading) s = .ok s s := rfl
  rw [bindLabel, Action.bind_of_ok _ hget]
  simp only [SymbolTable.labelled]
  cases hbind : s.symbols.bind address name with
  | ok symbols => exact .inl ⟨_, rfl, rfl, rfl⟩
  | error fault =>
    obtain ⟨existing, -, hown, rfl⟩ := SymbolTable.bind_eq_error_iff.mp hbind
    obtain ⟨e, he, hlabel, -⟩ := hown
    have hexisting : s.symbols.label? address = some existing := by
      rw [SymbolTable.label?, he]; exact hlabel
    rw [hexisting]
    exact .inr ⟨_, rfl, rfl⟩

theorem label_labelled (address : Int) (name : Option String) (s : Loading) :
    (∃ t, label file n address name s = .ok () t ∧ t.plan = s.plan ∧
      s.symbols.labelled ⟨file, n⟩ address name = .ok t.symbols) ∨
    ∃ fault, label file n address name s = .error fault s ∧
      s.symbols.labelled ⟨file, n⟩ address name = .error fault := by
  cases name with
  | none => exact .inl ⟨_, rfl, rfl, rfl⟩
  | some name => exact bindLabel_labelled file n address name s

theorem performs_addComment {get : Plan → Comments} {put : Comments → Plan → Plan}
    {f : Draft → Except Fault Draft} (address : Int) (text : String)
    (hput : ∀ plan, put (get plan) plan = plan) (hf : ∀ d : Draft, f d =
      ((get d.plan).add d.symbols ⟨file, n⟩ address text).map fun comments =>
        ⟨d.symbols, put comments d.plan⟩) :
    Performs (addComment get put file n address text) f := by
  intro s
  cases hrange : s.symbols.inRange address with
  | false =>
    have hkept : f s.draft = .ok s.draft := by
      rw [hf, Comments.add, Comments.request]
      simp [Loading.draft, hrange, hput, Except.map]
    exact .inl ⟨s, by rw [addComment, if_neg (by simp [hrange])], hkept⟩
  | true =>
    cases hcomment : (get s.plan).at? address with
    | some _ =>
      have hclash : f s.draft = .error (.commentClash file n address) := by
        rw [hf, Comments.add, Comments.request]
        simp [Loading.draft, hrange, hcomment, Except.map]
      exact .inr ⟨_, s, by rw [addComment, if_pos hrange, hcomment], hclash, rfl⟩
    | none =>
      have hadded : f s.draft = .ok ⟨s.symbols, put ((get s.plan).insert address text) s.plan⟩ := by
        rw [hf, Comments.add, Comments.request]
        simp [Loading.draft, hrange, hcomment, Except.map]
      exact .inl ⟨{ s with plan := put ((get s.plan).insert address text) s.plan },
        by rw [addComment, if_pos hrange, hcomment], hadded⟩

theorem startSegment_eq (mode : SegmentMode) (address : Int) (name : Option String) :
    startSegment file n mode address name = (do
      if name = none ∧ mode ≠ .procs then pure () else label file n address name
      onPlan (·.addSegment ⟨address, mode, name⟩)) := by
  cases name with
  | some name => rfl
  | none => by_cases h : mode = .procs <;> simp [startSegment, label, h]

theorem performs_startSegment (mode : SegmentMode) (address : Nat) (name : Option String) :
    Performs (startSegment file n mode address name)
      (Directive.perform ⟨file, n⟩ · (.segment mode address name)) := by
  intro s
  rw [startSegment_eq]
  simp only [Directive.perform, Loading.draft]
  by_cases hbare : name = none ∧ mode ≠ .procs
  · rw [if_pos hbare, if_pos hbare]
    exact .inl ⟨_, rfl, rfl⟩
  · rw [if_neg hbare, if_neg hbare]
    rcases label_labelled file n address name s with ⟨t, ht, hplan, hlabel⟩ | ⟨fault, ht, hlabel⟩
    · rw [Action.bind_of_ok _ ht, hlabel, ← hplan]
      exact .inl ⟨_, rfl, rfl⟩
    · rw [Action.bind_of_error _ ht, hlabel]
      exact .inr ⟨_, _, rfl, rfl, rfl⟩

theorem performs_label (address : Nat) (name : Option String) :
    Performs (label file n address name) (Directive.perform ⟨file, n⟩ · (.label address name)) := by
  intro s
  simp only [Directive.perform, Loading.draft]
  rcases label_labelled file n address name s with ⟨t, ht, hplan, hlabel⟩ | ⟨fault, ht, hlabel⟩
  · rw [ht, hlabel, ← hplan]
    exact .inl ⟨_, rfl, rfl⟩
  · rw [ht, hlabel]
    exact .inr ⟨_, _, rfl, rfl, rfl⟩

/-- Applying a directive does what it says to the symbols and the plan. -/
theorem performs_apply (d : Directive) :
    Performs (apply file n d) (Directive.perform ⟨file, n⟩ · d) := by
  cases d with
  | segment mode address name => exact performs_startSegment file n mode address name
  | label address name => exact performs_label file n address name
  | comment address text =>
    cases text with
    | none => exact fun s => .inl ⟨s, rfl, rfl⟩
    | some text =>
      simp only [apply, addLineComment]
      exact performs_addComment file n address text (fun _ => rfl) fun _ => rfl
  | range low high => exact fun _ => .inl ⟨_, rfl, rfl⟩
  | terminator value =>
    intro s
    simp only [apply, Directive.perform]
    split
    · exact .inl ⟨_, rfl, rfl⟩
    · exact .inr ⟨_, s, rfl, rfl, rfl⟩
  | inputFile name => exact fun _ => .inl ⟨_, rfl, rfl⟩
  | note address text => exact fun s => .inl ⟨s, rfl, rfl⟩
  | embed name => exact fun s => .inl ⟨s, rfl, rfl⟩

end

end Loader

end Disassembler
