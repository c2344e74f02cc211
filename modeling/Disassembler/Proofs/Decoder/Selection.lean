import Disassembler.Proofs.Decoder.Agreement
import Disassembler.Proofs.Decoder.Progress

/-!
What selecting a rule keeps. Selecting reads nothing and writes nothing, it only looks at the next
unit where a rule asks for it. What a table does to the state of decoding is therefore what the
selected rule does.
-/

namespace Disassembler

/-! ## Parts of the state that stay -/

namespace Decoder

variable {α β γ : Type} {part : Decoding → γ}

/-- Whether or not it fails, the action leaves a part of the state as it is. -/
def Keeps (part : Decoding → γ) (m : Decoder α) : Prop :=
  ∀ s, part (Action.outcome (m s)).2 = part s

theorem Keeps.of_ok {m : Decoder α} (hm : Keeps part m) {s t : Decoding} {a : α}
    (h : m s = .ok a t) : part t = part s := by
  have hs := hm s
  rwa [h] at hs

theorem Keeps.of_error {m : Decoder α} (hm : Keeps part m) {s t : Decoding} {fault : Fault}
    (h : m s = .error fault t) : part t = part s := by
  have hs := hm s
  rwa [h] at hs

theorem keeps_pure (a : α) : Keeps part (pure a) := fun _ => rfl

theorem Keeps.bind {m : Decoder α} {f : α → Decoder β} (hm : Keeps part m)
    (hf : ∀ a, Keeps part (f a)) : Keeps part (m >>= f) := by
  intro s
  cases h : m s with
  | error fault t =>
    rw [Action.bind_of_error _ h]
    exact hm.of_error h
  | ok a t =>
    rw [Action.bind_of_ok _ h]
    exact (hf a t).trans (hm.of_ok h)

end Decoder

/-! ## Selecting a rule -/

namespace Walk

open Decoder

variable {site : Site} {table : String} {unit : Nat} {rules : List Rule} {seen : Option Nat}
    {s t : Decoding}

/-- The first rule that accepts the unit is selected without a look, unless it has a test. -/
theorem selectBy_of_find? {look : Option Nat → Decoder Nat} {rule : Rule}
    (h : rules.find? (·.accepts unit) = some rule) (htest : rule.test?.isNone = true) :
    selectBy look unit rules seen = pure (some rule) := by
  induction rules with
  | nil => cases h
  | cons first rules ih =>
    rw [List.find?_cons] at h
    rw [selectBy]
    cases ha : first.accepts unit with
    | true =>
      rw [ha] at h
      cases h
      rw [if_pos rfl, Option.isNone_iff_eq_none.mp htest]
    | false =>
      rw [ha] at h
      rw [if_neg Bool.false_ne_true]
      exact ih h

/-! ## What selecting leaves alone -/

theorem keeps_lookahead {γ : Type} {part : Decoding → γ}
    (hpart : ∀ s k, part { s with peeks := k } = part s) (seen : Option Nat) :
    Keeps part (lookahead seen) := by
  cases seen with
  | some unit => exact keeps_pure unit
  | none =>
    intro s
    change part (Action.outcome (peek s)).2 = part s
    by_cases hn : s.cursor.layout.width.size ≤ s.cursor.rest.length
    · rw [peek_of_le hn]
      exact hpart s _
    · rw [peek_of_lt (Nat.lt_of_not_le hn)]
      exact hpart s _

/-- Selecting a rule changes the count of looks and nothing else. -/
theorem keeps_select {γ : Type} {part : Decoding → γ}
    (hpart : ∀ s k, part { s with peeks := k } = part s) (unit : Nat) (rules : List Rule)
    (seen : Option Nat) : Keeps part (selectBy lookahead unit rules seen) := by
  induction rules generalizing seen with
  | nil => exact keeps_pure none
  | cons rule rules ih =>
    rw [selectBy]
    split
    · split
      · exact keeps_pure _
      · refine (keeps_lookahead hpart seen).bind fun next => ?_
        split
        · exact keeps_pure _
        · exact ih _
    · exact ih seen

/-! ## Carrying out a rule that sends the walk on -/

/-- A part of the state that fetching, deferring and the prefix leave alone is the same where the
walk goes on. -/
theorem carryOut_keeps {γ : Type} {part : Decoding → γ} {rule : Rule} {next : Next}
    (h : carryOut site table unit (some rule) s = .ok next t) (hgo : next.goesOn = true)
    (hfetch : Keeps part fetch) (hdefer : ∀ target count, Keeps part (deferFor target count))
    (heffect : ∀ effect kind opcode, rule = .lead effect kind opcode →
      Keeps part (applyEffect site effect kind unit)) : part t = part s := by
  obtain ⟨v, further, hv, h⟩ := carryOut_cases h hgo
  have ht := hfetch.of_ok hv
  rcases h with ⟨target, opcode, hrule, -, rfl⟩ | ⟨target, opcode, count, hrule, -, hdeferred⟩ |
    ⟨effect, kind, opcode, hrule, -, happlied⟩
  · exact ht
  · exact ht.trans ((hdefer target count).of_ok hdeferred)
  · exact ht.trans ((heffect effect kind opcode (Option.some.inj hrule)).of_ok happlied)

end Walk

end Disassembler
