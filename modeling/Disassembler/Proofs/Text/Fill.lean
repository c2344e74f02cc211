import Disassembler.Text.Template
import Mathlib.Data.List.Forall2

/-!
How long a filled template can get. A template that can be filled with some arguments can be filled
with smaller ones as well, and the text gets no longer, so that one look at the largest arguments
bounds them all.
-/

namespace Disassembler.Text

theorem length_digits_le {base : Nat} (hb : 1 < base) (capital : Bool) {a b : Nat} (h : a ≤ b) :
    (digits base capital a).length ≤ (digits base capital b).length := by
  have hpos : 0 < (Nat.toDigits base b).length := Nat.length_toDigits_pos
  have hlt := (Nat.length_toDigits_le_iff hb hpos).mp (Nat.le_refl _)
  simp only [digits, List.length_map]
  exact (Nat.length_toDigits_le_iff hb hpos).mpr (Nat.lt_of_le_of_lt h hlt)

theorem length_layout_le {style : NumeralStyle} (hb : 1 < style.base) {a b : Int} (h₀ : 0 ≤ a)
    (h : a ≤ b) : (style.layout a).length ≤ (style.layout b).length := by
  have hd := length_digits_le hb style.capital (show a.natAbs ≤ b.natAbs by omega)
  have ha : ¬ a < 0 := by omega
  have hn : ¬ b < 0 := by omega
  simp only [NumeralStyle.layout, ha, hn, if_false, List.nil_append, List.length_nil, Nat.sub_zero]
  split <;> simp only [List.leftpad, List.length_append, List.length_replicate] <;> omega

/-- An argument that takes no more room than another one. -/
inductive Under : Value → Value → Prop where
  | number {a b : Int} : 0 ≤ a → a ≤ b → Under (.number a) (.number b)
  | text {s t : String} : s.length ≤ t.length → Under (.text s) (.text t)

theorem Under.nat {a : Nat} {b : Int} (h : (a : Int) ≤ b) : Under (.number a) (.number b) :=
  .number (Int.natCast_nonneg a) h

theorem Under.plain {v w : Value} (h : Under v w) : v.plain.length ≤ w.plain.length := by
  cases h with
  | number h₀ h =>
    simp only [Value.plain, Value.shown, decimal, String.length_ofList]
    exact length_layout_le (by decide) h₀ h
  | text h => exact h

theorem convert_number_under {style : NumeralStyle} (hb : 1 < style.base) {v w : Value}
    (h : Under v w) {text : List Char} (hw : convert.number w style = .ok text) :
    ∃ shorter, convert.number v style = .ok shorter ∧ shorter.length ≤ text.length := by
  cases h with
  | @number a b h₀ h =>
    simp only [convert.number, Value.number?] at hw ⊢
    split at hw
    · cases hw
    · next hroom =>
      cases hw
      exact ⟨_, if_neg hroom, length_layout_le hb h₀ h⟩
  | text h =>
    simp only [convert.number, Value.number?] at hw
    cases hw

theorem convert_under {letter : Char} {zeros : Bool} {width : Nat} {v w : Value} (h : Under v w)
    {text : List Char} (hw : convert letter zeros width w = .ok text) :
    ∃ shorter, convert letter zeros width v = .ok shorter ∧ shorter.length ≤ text.length := by
  unfold convert at hw ⊢
  by_cases hs : letter = 's'
  · simp only [hs, if_true] at hw ⊢
    split at hw
    · cases hw
    · next hroom =>
      cases hw
      refine ⟨_, if_neg hroom, ?_⟩
      have hp := h.plain
      simp only [← String.length_toList] at hp
      simp only [List.leftpad, List.length_append, List.length_replicate]
      omega
  rw [if_neg hs] at hw ⊢
  by_cases hd : letter = 'd'
  · rw [if_pos hd] at hw ⊢
    exact convert_number_under (by simp) h hw
  rw [if_neg hd] at hw ⊢
  by_cases hx : letter = 'x'
  · rw [if_pos hx] at hw ⊢
    exact convert_number_under (by simp) h hw
  rw [if_neg hx] at hw ⊢
  by_cases hX : letter = 'X'
  · rw [if_pos hX] at hw ⊢
    exact convert_number_under (by simp) h hw
  rw [if_neg hX] at hw
  cases hw

theorem map_eq_ok {r : Except TemplateFlaw (List Char)} {f : List Char → List Char}
    {out : List Char} (h : r.map f = .ok out) : ∃ inner, r = .ok inner ∧ f inner = out := by
  cases r with
  | error flaw => cases h
  | ok inner => cases h; exact ⟨inner, rfl, rfl⟩

/-- The induction is on the template; the arguments are used up side by side. -/
theorem expand_under {state : Option (Option (Bool × Nat))} {cs : List Char}
    {args bounds : List Value} (h : List.Forall₂ Under args bounds) {text : List Char}
    (hw : expand state cs bounds = .ok text) :
    ∃ shorter, expand state cs args = .ok shorter ∧ shorter.length ≤ text.length := by
  induction cs generalizing state args bounds text with
  | nil =>
    cases state with
    | none =>
      cases h with
      | nil => exact ⟨text, hw, Nat.le_refl _⟩
      | cons _ _ => cases hw
    | some spec => cases hw
  | cons c cs ih =>
    cases state with
    | none =>
      simp only [expand] at hw ⊢
      by_cases hc : c = '%'
      · simp only [hc, if_true] at hw ⊢
        exact ih h hw
      · simp only [hc, if_false] at hw ⊢
        obtain ⟨inner, hi, rfl⟩ := map_eq_ok hw
        obtain ⟨shorter, hs, hl⟩ := ih h hi
        exact ⟨c :: shorter, by rw [hs]; rfl, Nat.succ_le_succ hl⟩
    | some spec =>
      simp only [expand] at hw ⊢
      by_cases hp : c = '%' ∧ spec = none
      · simp only [hp, and_self, if_true] at hw ⊢
        obtain ⟨inner, hi, rfl⟩ := map_eq_ok hw
        obtain ⟨shorter, hs, hl⟩ := ih h hi
        exact ⟨'%' :: shorter, by rw [hs]; rfl, Nat.succ_le_succ hl⟩
      rw [if_neg hp] at hw ⊢
      by_cases hz : c = '0' ∧ (spec.getD (false, 0)).2 = 0
      · rw [if_pos hz] at hw ⊢
        exact ih h hw
      rw [if_neg hz] at hw ⊢
      by_cases hd : c.isDigit = true
      · rw [if_pos hd] at hw ⊢
        split at hw
        · cases hw
        · next hcount =>
          rw [if_neg hcount]
          exact ih h hw
      rw [if_neg hd] at hw ⊢
      cases h with
      | nil => cases hw
      | @cons v w args bounds hv hrest =>
        simp only at hw ⊢
        cases hcw : convert c (spec.getD (false, 0)).1 (spec.getD (false, 0)).2 w with
        | error flaw => rw [hcw] at hw; cases hw
        | ok longer =>
          rw [hcw] at hw
          obtain ⟨inner, hi, rfl⟩ := map_eq_ok hw
          obtain ⟨piece, hpiece, hlen⟩ := convert_under hv hcw
          obtain ⟨shorter, hs, hl⟩ := ih hrest hi
          refine ⟨piece ++ shorter, by rw [hpiece]; simp only [hs]; rfl, ?_⟩
          simp only [List.length_append]
          omega

/-- The length of a template filled with the given arguments. -/
def widest (template : String) (bounds : List Value) : Option Nat :=
  match fill template bounds with
  | .ok text => some text.length
  | .error _ => none

/-- Smaller arguments make no longer text. -/
theorem fill_under {template : String} {args bounds : List Value} {n : Nat}
    (h : List.Forall₂ Under args bounds) (hw : widest template bounds = some n) :
    ∃ text, fill template args = .ok text ∧ text.length ≤ n := by
  have hempty : args.isEmpty = bounds.isEmpty := by cases h <;> rfl
  unfold widest at hw
  unfold fill at hw ⊢
  rw [hempty]
  cases hb : bounds.isEmpty with
  | true =>
    simp only [hb, if_true, Option.some.injEq] at hw ⊢
    exact ⟨template, rfl, Nat.le_of_eq hw⟩
  | false =>
    simp only [hb, Bool.false_eq_true, if_false] at hw ⊢
    cases he : expand none template.toList bounds with
    | error flaw => rw [he] at hw; cases hw
    | ok longer =>
      rw [he] at hw
      cases hw
      obtain ⟨shorter, hs, hl⟩ := expand_under h he
      refine ⟨String.ofList shorter, by rw [hs]; rfl, ?_⟩
      simpa only [String.length_ofList] using hl

end Disassembler.Text
