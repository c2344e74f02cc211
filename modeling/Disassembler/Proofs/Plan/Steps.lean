import Disassembler.Proofs.Plan.Inlining
import Disassembler.Proofs.Symbol.Run
import Mathlib.Logic.Relation

/-!
What a load can do, step by step, whether or not it succeeds. Whatever every step keeps is kept by
the whole load. In particular no step of a load makes a reference.
-/

namespace Disassembler

/-- All that one step of a load can do. -/
inductive Loading.Step (s : Loading) : Loading → Prop where
  | say (events : List Event) : Step s { s with log := s.log ++ events }
  | autoLabel (address : Int) : Step s { s with symbols := (s.symbols.autoLabel address).2 }
  | bind {address : Int} {name : String} {symbols : SymbolTable}
      (h : s.symbols.bind address name = .ok symbols) :
      Step s { s with symbols }
  | setRange (low high : Option Int) : Step s { s with symbols := s.symbols.setRange low high }
  | segment (segment : Segment) : Step s { s with plan := s.plan.addSegment segment }
  | lineComment {address : Int} (text : String) (hrange : s.symbols.inRange address = true)
      (hfree : s.plan.lineComments.at? address = none) :
      Step s { s with
        plan := { s.plan with lineComments := s.plan.lineComments.insert address text } }
  | blockComment {address : Int} (text : String) (hrange : s.symbols.inRange address = true)
      (hfree : s.plan.blockComments.at? address = none) :
      Step s { s with
        plan := { s.plan with blockComments := s.plan.blockComments.insert address text } }
  | terminator (value : UInt8) : Step s { s with plan := { s.plan with terminator := value } }
  | inputFile (file : Path) : Step s { s with plan := { s.plan with inputFile := some file } }
  | source
      (file : Path) : Step s { s with plan := { s.plan with sources := s.plan.sources ++ [file] } }

abbrev Loading.Steps : Loading → Loading → Prop := Relation.ReflTransGen Loading.Step

namespace Loader

/-- The action goes step by step, also when it fails. -/
def Stepwise {α : Type} (m : Loader α) : Prop := ∀ s, Loading.Steps s (Action.outcome (m s)).2

section

variable {α β : Type}

theorem stepwise_pure (a : α) : Stepwise (pure a) := fun _ => .refl

theorem stepwise_throw (fault : Fault) : Stepwise (throw fault : Loader α) := fun _ => .refl

theorem stepwise_get : Stepwise (get : Loader Loading) := fun _ => .refl

theorem stepwise_modify {f : Loading → Loading} (h : ∀ s, Loading.Step s (f s)) :
    Stepwise (modify f : Loader Unit) :=
  fun s => .single (h s)

theorem Stepwise.bind {m : Loader α} {f : α → Loader β} (hm : Stepwise m)
    (hf : ∀ a, Stepwise (f a)) : Stepwise (m >>= f) := by
  intro s
  have hfirst := hm s
  cases h : m s with
  | error fault t =>
    rw [h] at hfirst
    rw [Action.bind_of_error _ h]
    exact hfirst
  | ok a t =>
    rw [h] at hfirst
    rw [Action.bind_of_ok _ h]
    exact hfirst.trans (hf a t)

theorem stepwise_say (events : List Event) : Stepwise (say events) :=
  stepwise_modify fun _ => .say events

theorem stepwise_onPlan {f : Plan → Plan} (h : ∀ s : Loading, s.Step { s with plan := f s.plan }) :
    Stepwise (onPlan f) := stepwise_modify h

theorem stepwise_autoLabel (address : Int) : Stepwise (autoLabel address) :=
  stepwise_get.bind fun _ => (stepwise_say _).bind fun _ => stepwise_modify fun _ =>
    .autoLabel address

end

/-! ## Directives -/

section

variable (file : Path) (n : Nat)

/-- A label is bound in the state that was looked at, but for what has been said since. -/
theorem stepwise_bindLabel (address : Int) (name : String) :
    Stepwise (bindLabel file n address name) := by
  intro s
  rw [bindLabel, Action.bind_of_ok _ (show (get : Loader Loading) s = .ok s s from rfl)]
  cases hbind : s.symbols.bind address name with
  | ok symbols =>
    have hsay : say (s.symbols.bindEvents address name) s = .ok () _ := rfl
    simp only
    rw [Action.bind_of_ok _ hsay]
    exact (Relation.ReflTransGen.single (.say _)).tail (.bind hbind)
  | error fault => cases fault <;> exact .refl

theorem stepwise_addComment {get : Plan → Comments} {put : Comments → Plan → Plan} {address : Int}
    {text : String} (h : ∀ s : Loading, s.symbols.inRange address = true →
      (get s.plan).at? address = none →
      s.Step { s with plan := put ((get s.plan).insert address text) s.plan }) :
    Stepwise (addComment get put file n address text) := by
  intro s
  unfold addComment
  split
  · next hrange =>
    split
    · exact .refl
    · next hfree => exact .single (h s hrange hfree)
  · exact .refl

theorem Composed.stepwise {α : Type} {m : Path → Nat → Loader α} (h : Composed m) :
    Stepwise (m file n) := by
  induction h with
  | pure a => exact stepwise_pure a
  | throw _ => exact stepwise_throw _
  | bind _ _ hm hf => exact hm.bind hf
  | say events => exact stepwise_say _
  | autoLabel address => exact stepwise_autoLabel address
  | bindLabel address name => exact stepwise_bindLabel file n address name
  | lineComment address text => exact stepwise_addComment file n fun _ => .lineComment text
  | blockComment address text => exact stepwise_addComment file n fun _ => .blockComment text
  | setRange low high => exact stepwise_modify fun _ => .setRange low high
  | segment segment => exact stepwise_onPlan fun _ => .segment segment
  | terminator value => exact stepwise_onPlan fun _ => .terminator value
  | inputFile name => exact stepwise_onPlan fun _ => .inputFile _

/-! ## Files -/

theorem stepwise_readLines {embed : Path → Loader Unit} (hembed : ∀ path, Stepwise (embed path))
    (lines : List (List Char)) (note : Option OpenNote) :
    Stepwise (readLines embed file n lines note) := by
  induction lines generalizing n note with
  | nil =>
    cases note with
    | none => exact stepwise_pure ()
    | some note => exact stepwise_throw _
  | cons raw rest ih =>
    cases hraw : embedded? note.isSome raw with
    | none =>
      rw [readLines_cons_of_none hraw]
      exact ((Composed.readLine raw note).stepwise file n).bind fun after => ih (n + 1) after
    | some name =>
      obtain ⟨events, hcons⟩ : ∃ events, readLines embed file n (raw :: rest) note =
          (do say events; embed (file.relativeTo name); readLines embed file (n + 1) rest none) :=
        readLines_cons_of_some hraw
      rw [hcons]
      exact (stepwise_say events).bind fun _ => (hembed _).bind fun _ => ih (n + 1) none

end

theorem stepwise_readText (files : Files) (file : Path) : Stepwise (readText files file) := by
  unfold readText
  refine Stepwise.bind ?_ fun bytes => ?_
  · cases files file with
    | ok bytes => exact stepwise_pure bytes
    | error reason => exact stepwise_throw _
  · cases String.fromUTF8? ⟨bytes.toArray⟩ with
    | some text => exact stepwise_pure _
    | none => exact stepwise_throw _

theorem stepwise_readFile (files : Files) (levels : Nat) (isIncluded : Bool) (file : Path) :
    Stepwise (readFile files levels isIncluded file) := by
  induction levels generalizing isIncluded file with
  | zero => exact stepwise_throw _
  | succ levels ih =>
    refine (stepwise_readText files file).bind fun text => ?_
    refine (stepwise_onPlan fun _ => .source file).bind fun _ => (stepwise_say _).bind fun _ => ?_
    exact stepwise_readLines file 1 (ih true) (Text.lines text) none

theorem stepwise_loadFile (files : Files) (file : Path) : Stepwise (loadFile files file) := by
  refine (stepwise_readFile files _ false file).bind fun _ => stepwise_get.bind fun s => ?_
  simp only
  split
  · exact stepwise_pure _
  · exact stepwise_throw _

end Loader

/-- A load goes step by step. -/
theorem load_steps (files : Files) (file : Path) (symbols : SymbolTable) :
    Loading.Steps { symbols } (load files file symbols).2 :=
  Loader.stepwise_loadFile files file { symbols }

theorem load_eq_ok {files : Files} {file : Path} {symbols : SymbolTable} {plan : Plan}
    (h : (load files file symbols).1.toOption = some plan) :
    load files file symbols = (.ok plan, (load files file symbols).2) := by
  rcases hload : load files file symbols with ⟨fault | loaded, loading⟩
  · rw [hload] at h
    cases h
  · rw [hload] at h
    rw [Option.some.inj h]

/-! ## References -/

namespace SymbolTable

structure Unreferenced (t : SymbolTable) : Prop where
  ordered : t.Ordered
  refs : ∀ e ∈ t.entries, e.refs = []

namespace Unreferenced

variable {t u : SymbolTable}

theorem of_entries_eq_nil (h : t.entries = []) : t.Unreferenced := by
  refine ⟨?_, ?_⟩
  · rw [Ordered, h]
    exact .nil
  · rw [h]
    simp

theorem update (h : t.Unreferenced) (address : Int) {f : Entry → Entry}
    (haddress : ∀ e, (f e).address = e.address) (hrefs : ∀ e, (f e).refs = e.refs) :
    (t.update address f).Unreferenced := by
  refine ⟨ordered_update h.ordered address haddress, fun e he => ?_⟩
  rcases Entry.mem_update he with rfl | ⟨d, hd, -, rfl⟩ | he
  · rw [hrefs]
  · rw [hrefs]
    exact h.refs d hd
  · exact h.refs e he

theorem bind (h : t.Unreferenced) {address : Int} {name : String} {auto : Bool}
    (hbind : t.bind address name auto = .ok u) : u.Unreferenced := by
  rcases bind_cases t address name auto with ⟨_, -, -, heq⟩ | ⟨-, -, heq⟩ | ⟨-, heq⟩
  · cases heq.symm.trans hbind
  · cases heq.symm.trans hbind
    exact h.update address (fun _ => rfl) fun _ => rfl
  · cases heq.symm.trans hbind
    exact h

theorem autoLabel (h : t.Unreferenced) (address : Int) : (t.autoLabel address).2.Unreferenced := by
  unfold SymbolTable.autoLabel
  split
  · exact h
  split
  · exact h.update address (fun _ => rfl) fun _ => rfl
  · exact h

theorem references_eq_nil (h : t.Unreferenced) (a : Int) : t.references a = [] := by
  unfold references
  cases he : t.get? a with
  | none => rfl
  | some e => exact h.refs e (mem_of_get? he)

end Unreferenced

end SymbolTable

theorem Loading.Step.unreferenced {s t : Loading} (h : s.Step t) (hs : s.symbols.Unreferenced) :
    t.symbols.Unreferenced := by
  cases h with
  | autoLabel address => exact hs.autoLabel address
  | bind hbind => exact hs.bind hbind
  | setRange low high => exact ⟨hs.ordered, hs.refs⟩
  | _ => exact hs

/-- A load makes no references. -/
theorem load_unreferenced (files : Files) (file : Path) {symbols : SymbolTable}
    (h : symbols.Unreferenced) : (load files file symbols).2.symbols.Unreferenced := by
  have hsteps := load_steps files file symbols
  generalize (load files file symbols).2 = t at hsteps
  induction hsteps with
  | refl => exact h
  | tail _ hstep ih => exact hstep.unreferenced ih

end Disassembler
