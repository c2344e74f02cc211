import Disassembler.Plan.Loader

/-!
What the lines of command files do is composed of a few elementary actions, so what these keep is
kept by every line. In particular what directives do does not depend on the log, on the sources of
the plan or on the line, and on the file only through its directory: where a directive succeeds, it
does so from every state that differs in these, and to the same effect.
-/

namespace Disassembler

/-! ## Elementary actions -/

namespace Loader

/-- What a line does, given the file and the number of the line. -/
inductive Composed : {α : Type} → (Path → Nat → Loader α) → Prop where
  | pure {α : Type} (a : α) : Composed fun _ _ => pure a
  /-- no line fails for the nesting of the includes -/
  | throw {α : Type} {fault : Path → Nat → Fault}
      (h : ∀ file n deep, fault file n ≠ .includesTooDeep deep) :
      Composed fun file n => (throw (fault file n) : Loader α)
  | bind {α β : Type} {m : Path → Nat → Loader α} {f : α → Path → Nat → Loader β} :
      Composed m → (∀ a, Composed (f a)) → Composed fun file n => m file n >>= fun a => f a file n
  | say (events : Path → Nat → List Event) : Composed fun file n => say (events file n)
  | autoLabel (address : Int) : Composed fun _ _ => autoLabel address
  | bindLabel (address : Int) (name : String) : Composed fun file n => bindLabel file n address name
  | lineComment (address : Int) (text : String) : Composed fun file n =>
    addLineComment file n address text
  | blockComment (address : Int) (text : String) : Composed fun file n =>
    addBlockComment file n address text
  | setRange (low high : Option Int) :
      Composed fun _ _ => modify fun s => { s with symbols := s.symbols.setRange low high }
  | segment (segment : Segment) : Composed fun _ _ => onPlan (·.addSegment segment)
  | terminator (value : UInt8) : Composed fun _ _ =>
    onPlan fun plan => { plan with terminator := value }
  | inputFile (name : String) :
      Composed fun file _ => onPlan fun plan =>
        { plan with inputFile := some (file.relativeTo name) }

namespace Composed

theorem label (address : Int) (name : Option String) :
    Composed fun file n => label file n address name := by
  cases name with
  | none => exact .autoLabel address
  | some name => exact .bindLabel address name

theorem startSegment (mode : SegmentMode) (address : Int) (name : Option String) :
    Composed fun file n => startSegment file n mode address name := by
  cases name with
  | some name => exact .bind (.bindLabel address name) fun _ => .segment _
  | none =>
    simp only [Loader.startSegment]
    split
    · exact .bind (.autoLabel address) fun _ => .segment _
    · exact .segment _

theorem apply (d : Directive) : Composed fun file n => apply file n d := by
  cases d with
  | segment mode address name => exact .startSegment mode address name
  | label address name => exact .label address name
  | comment address text =>
    cases text with
    | none => exact .pure ()
    | some text => exact .lineComment address text
  | range low high => exact .setRange (some low) (some high)
  | terminator value =>
    simp only [Loader.apply]
    split
    · exact .terminator _
    · exact .throw fun _ _ _ h => by cases h
  | inputFile name => exact .inputFile name
  | note address text => exact .pure ()
  | embed name => exact .pure ()

end Composed

end Loader

/-! ## Loads that differ in what does not matter -/

/-- The same but for the log and the sources of the plan. -/
def Loading.Alike (s t : Loading) : Prop :=
  ∃ log sources, t = { s with log, plan := { s.plan with sources } }

namespace Loading.Alike

variable {s t u : Loading}

theorem symm (h : s.Alike t) : t.Alike s := by
  obtain ⟨log, sources, rfl⟩ := h
  exact ⟨s.log, s.plan.sources, rfl⟩

theorem trans (hst : s.Alike t) (htu : t.Alike u) : s.Alike u := by
  obtain ⟨_, _, rfl⟩ := hst
  obtain ⟨log, sources, rfl⟩ := htu
  exact ⟨log, sources, rfl⟩

end Loading.Alike

/-! ## Actions that repeat others -/

namespace Loader

variable {α β : Type}

/-- Where the first action succeeds, the second does so with the same result from every state that
is alike, and they end alike. -/
def Repeats (m₁ m₂ : Loader α) : Prop :=
  ∀ s₁ a t₁, m₁ s₁ = .ok a t₁ → ∀ s₂, s₁.Alike s₂ → ∃ t₂, m₂ s₂ = .ok a t₂ ∧ t₁.Alike t₂

theorem Repeats.pure (a : α) : Repeats (pure a) (pure a) := by
  intro s₁ b t₁ h s₂ halike
  cases h
  exact ⟨s₂, rfl, halike⟩

theorem Repeats.bind {m₁ m₂ : Loader α} {f₁ f₂ : α → Loader β} (hm : Repeats m₁ m₂)
    (hf : ∀ a, Repeats (f₁ a) (f₂ a)) : Repeats (m₁ >>= f₁) (m₂ >>= f₂) := by
  intro s₁ b t₁ h s₂ halike
  obtain ⟨a, u₁, hfirst, hsecond⟩ := Action.bind_eq_ok h
  obtain ⟨u₂, hfirst', halike'⟩ := hm _ _ _ hfirst _ halike
  obtain ⟨t₂, hsecond', hend⟩ := hf a _ _ _ hsecond _ halike'
  exact ⟨t₂, by rw [Action.bind_of_ok _ hfirst', hsecond'], hend⟩

theorem repeats_say (events₁ events₂ : List Event) : Repeats (say events₁) (say events₂) := by
  rintro s₁ a t₁ h s₂ ⟨log, sources, rfl⟩
  cases h
  exact ⟨_, rfl, log ++ events₂, sources, rfl⟩

theorem repeats_onPlan {f : Plan → Plan}
    (hf : ∀ plan sources, f { plan with sources } = { f plan with sources }) :
    Repeats (onPlan f) (onPlan f) := by
  rintro s₁ a t₁ h s₂ ⟨log, sources, rfl⟩
  cases h
  have hplan := hf s₁.plan sources
  exact ⟨_, rfl, log, sources, by simp only [hplan]⟩

theorem repeats_autoLabel (address : Int) : Repeats (autoLabel address) (autoLabel address) := by
  rintro s₁ a t₁ h s₂ ⟨log, sources, rfl⟩
  cases h
  exact ⟨_, rfl, _, sources, rfl⟩

/-! ## Directives in files of one directory -/

variable {file₁ file₂ : Path} {n₁ n₂ : Nat}

theorem repeats_bindLabel (address : Int) (name : String) :
    Repeats (bindLabel file₁ n₁ address name) (bindLabel file₂ n₂ address name) := by
  rintro s₁ a t₁ h s₂ ⟨log, sources, rfl⟩
  have hget : ∀ s : Loading, (get : Loader Loading) s = .ok s s := fun _ => rfl
  rw [bindLabel, Action.bind_of_ok _ (hget _)] at h ⊢
  cases hbind : s₁.symbols.bind address name with
  | error fault =>
    rw [hbind] at h
    cases fault <;> cases h
  | ok symbols =>
    simp only [hbind] at h ⊢
    cases h
    exact ⟨_, rfl, _, sources, rfl⟩

theorem repeats_addComment {get : Plan → Comments} {put : Comments → Plan → Plan}
    (hget : ∀ plan sources, get { plan with sources } = get plan)
    (hput : ∀ comments plan sources, put comments { plan with sources } =
      { put comments plan with sources })
    (address : Int) (text : String) :
    Repeats (addComment get put file₁ n₁ address text)
      (addComment get put file₂ n₂ address text) := by
  rintro s₁ a t₁ h s₂ ⟨log, sources, rfl⟩
  unfold addComment at h ⊢
  split at h
  · next hrange =>
    rw [if_pos hrange, hget]
    split at h
    · cases h
    · cases h
      have hplan := hput ((get s₁.plan).insert address text) s₁.plan sources
      exact ⟨_, rfl, log, sources, by simp only [hplan]⟩
  · next hrange =>
    cases h
    rw [if_neg hrange]
    exact ⟨_, rfl, log, sources, rfl⟩

/-- What a line does has the same effect in any file of the directory, at any line. -/
theorem Composed.repeats {m : Path → Nat → Loader α} (h : Composed m)
    (hdirectory : file₂.parent = file₁.parent) : Repeats (m file₁ n₁) (m file₂ n₂) := by
  induction h with
  | pure a => exact .pure a
  | throw _ =>
    intro s₁ a t₁ hok
    cases hok
  | bind _ _ hm hf => exact hm.bind hf
  | say events => exact repeats_say _ _
  | autoLabel address => exact repeats_autoLabel address
  | bindLabel address name => exact repeats_bindLabel address name
  | lineComment address text =>
    exact repeats_addComment (fun _ _ => rfl) (fun _ _ _ => rfl) address text
  | blockComment address text =>
    exact repeats_addComment (fun _ _ => rfl) (fun _ _ _ => rfl) address text
  | setRange low high =>
    rintro s₁ a t₁ hok s₂ ⟨log, sources, rfl⟩
    cases hok
    exact ⟨_, rfl, log, sources, rfl⟩
  | segment segment => exact repeats_onPlan fun _ _ => rfl
  | terminator value => exact repeats_onPlan fun _ _ => rfl
  | inputFile name =>
    simp only [Path.relativeTo, hdirectory]
    exact repeats_onPlan fun _ _ => rfl

end Loader

end Disassembler
