import Disassembler.Proofs.Decoder.Composed

/-!
Two runs of the decoder side by side. Outcomes agree if they give the same result or the same fault
and leave related states. A relation that each elementary step keeps is kept by everything composed
of such steps, at every point where decoding can fail as well.
-/

namespace Disassembler.Decoder

variable {α β : Type} {R Q : Decoding → Decoding → Prop}

/-! ## The steps that look at the input -/

section

variable {count : Layout → Nat} {value : Layout → List UInt8 → α} {s : Decoding}

/-- Reading gives a value of the bytes ahead, if there are as many as it asks for. -/
theorem reading_of_le (h : count s.cursor.layout ≤ s.cursor.rest.length) :
    onCursor (Cursor.reading count value) s =
      .ok (value s.cursor.layout (s.cursor.rest.take (count s.cursor.layout)))
        { s with cursor := s.cursor.advance (count s.cursor.layout) } := by
  simp only [onCursor, Action.on, Cursor.reading, Functor.map, EStateM.map, Cursor.take_of_le h]

theorem reading_of_lt (h : s.cursor.rest.length < count s.cursor.layout) :
    onCursor (Cursor.reading count value) s = .error (.endOfInput (some s.cursor.addr)) s := by
  simp only [onCursor, Action.on, Cursor.reading, Functor.map, EStateM.map, Cursor.take_of_lt h]

/-- A look ahead is counted, and leaves everything else as it is. -/
theorem peek_of_le (h : s.cursor.layout.width.size ≤ s.cursor.rest.length) :
    peek s = .ok (s.cursor.layout.order.value (s.cursor.rest.take s.cursor.layout.width.size))
      { s with peeks := s.peeks + 1 } := by
  rw [peek_eq]
  simp only [onCursor, Action.on, Cursor.peek, Functor.map, EStateM.map, Cursor.look_of_le h]

theorem peek_of_lt (h : s.cursor.rest.length < s.cursor.layout.width.size) :
    peek s = .error (.endOfInput (some s.cursor.addr)) { s with peeks := s.peeks + 1 } := by
  rw [peek_eq]
  simp only [onCursor, Action.on, Cursor.peek, Functor.map, EStateM.map, Cursor.look_of_lt h]

end

/-! ## Runs side by side -/

/-- The same result, or the same fault, in states that are related. -/
inductive Agree (R : Decoding → Decoding → Prop) :
    EStateM.Result Fault Decoding α → EStateM.Result Fault Decoding α → Prop where
  | ok {a : α} {t₁ t₂ : Decoding} (h : R t₁ t₂) : Agree R (.ok a t₁) (.ok a t₂)
  | error {fault : Fault} {t₁ t₂ : Decoding}
      (h : R t₁ t₂) : Agree R (.error fault t₁) (.error fault t₂)

def Matched (R : Decoding → Decoding → Prop) (m₁ m₂ : Decoder α) : Prop :=
  ∀ s₁ s₂, R s₁ s₂ → Agree R (m₁ s₁) (m₂ s₂)

theorem Agree.mono {r₁ r₂ : EStateM.Result Fault Decoding α} (h : Agree R r₁ r₂)
    (hQ : ∀ t₁ t₂, R t₁ t₂ → Q t₁ t₂) : Agree Q r₁ r₂ := by
  cases h with
  | ok h => exact .ok (hQ _ _ h)
  | error h => exact .error (hQ _ _ h)

namespace Matched

theorem pure (a : α) : Matched R (pure a) (pure a) := fun _ _ h => .ok h

theorem throw (fault : Fault) : Matched R (throw fault : Decoder α) (throw fault) :=
  fun _ _ h => .error h

/-- Only the results that the first action can give have to be followed up. -/
theorem chain {m₁ m₂ : Decoder α} {f₁ f₂ : α → Decoder β} (hm : Matched R m₁ m₂)
    (hf : ∀ s a t, m₁ s = .ok a t → Matched R (f₁ a) (f₂ a)) :
    Matched R (m₁ >>= f₁) (m₂ >>= f₂) := by
  intro s₁ s₂ h
  have hfirst := hm s₁ s₂ h
  generalize h₁ : m₁ s₁ = r₁ at hfirst
  generalize h₂ : m₂ s₂ = r₂ at hfirst
  cases hfirst with
  | ok ht =>
    rw [Action.bind_of_ok _ h₁, Action.bind_of_ok _ h₂]
    exact hf _ _ _ h₁ _ _ ht
  | error ht =>
    rw [Action.bind_of_error _ h₁, Action.bind_of_error _ h₂]
    exact .error ht

theorem bind {m₁ m₂ : Decoder α} {f₁ f₂ : α → Decoder β} (hm : Matched R m₁ m₂)
    (hf : ∀ a, Matched R (f₁ a) (f₂ a)) : Matched R (m₁ >>= f₁) (m₂ >>= f₂) :=
  hm.chain fun _ a _ _ => hf a

end Matched

/-- A relation that the elementary steps of an instruction at a site keep. -/
structure Steady (site : Site) (kinds : RefKind → Prop)
    (R : Decoding → Decoding → Prop) : Prop where
  read : ∀ {α : Type} (count : Layout → Nat) (value : Layout → List UInt8 → α),
    Matched R (onCursor (Cursor.reading count value)) (onCursor (Cursor.reading count value))
  peek : Matched R peek peek
  here : Matched R here here
  stack : ∀ {α : Type} (m : Action Deferred α), Matched R (onStack m) (onStack m)
  output : ∀ m : Action Output Unit, Matched R (onOutput m) (onOutput m)
  setEffect : ∀ key value, Matched R (setEffect key value) (setEffect key value)
  takeEffect : ∀ key, Matched R (takeEffect key) (takeEffect key)
  note : ∀ message, Matched R (note message) (note message)
  naming : ∀ value shown, Matched R (naming value shown) (naming value shown)
  record : ∀ target kind, kinds kind → Matched R (record site target kind) (record site target kind)

/-- What the elementary steps keep, everything composed of them keeps. -/
theorem Composed.matched {site : Site} {kinds : RefKind → Prop} (hR : Steady site kinds R)
    {m : Decoder α} (h : Composed site kinds m) : Matched R m m := by
  induction h with
  | pure a => exact .pure a
  | throw fault => exact .throw fault
  | chain _ _ ihm ihf => exact ihm.chain ihf
  | read count value => exact hR.read count value
  | peek => exact hR.peek
  | here => exact hR.here
  | stack m => exact hR.stack m
  | output m => exact hR.output m
  | setEffect key value => exact hR.setEffect key value
  | takeEffect key => exact hR.takeEffect key
  | note message => exact hR.note message
  | naming value shown => exact hR.naming value shown
  | record target kind hk => exact hR.record target kind hk

end Disassembler.Decoder
