import Disassembler.Text.Template
import Mathlib.Algebra.Group.Nat.Defs

/-!
Numerals of a fixed width. A number that has room is laid out in exactly that many digits, and the
digits tell the number. A template with one such numeral gives the same text around it for every
number.
-/

namespace Disassembler.Text

def digitChars : List Char :=
  ['0', '1', '2', '3', '4', '5', '6', '7', '8', '9', 'A', 'B', 'C', 'D', 'E', 'F']

def digitOf (n : Nat) : Char := digitChars.getD n '0'

/-- The last `width` digits of a number. -/
def numeral : Nat → Nat → List Char
  | 0, _ => []
  | width + 1, v => numeral width (v / 16) ++ [digitOf (v % 16)]

@[simp] theorem length_numeral (width v : Nat) : (numeral width v).length = width := by
  induction width generalizing v with
  | zero => rfl
  | succ width ih => simp [numeral, ih]

theorem digitOf_mem (v : Nat) : digitOf (v % 16) ∈ digitChars := by
  have hall : (List.range 16).all (fun n => digitChars.contains (digitOf n)) = true := by decide
  have hlt : v % 16 ∈ List.range 16 := List.mem_range.mpr (Nat.mod_lt v (by decide))
  exact List.contains_iff_mem.mp (List.all_eq_true.mp hall _ hlt)

theorem mem_digitChars_of_mem_numeral {width v : Nat} {c : Char} (h : c ∈ numeral width v) :
    c ∈ digitChars := by
  induction width generalizing v with
  | zero => cases h
  | succ width ih =>
    rcases List.mem_append.mp h with h | h
    · exact ih h
    · rw [List.mem_singleton.mp h]
      exact digitOf_mem v

theorem digitOf_inj {a b : Nat} (ha : a < 16) (hb : b < 16)
    (h : digitOf a = digitOf b) : a = b := by
  have hall : ∀ a < 16, ∀ b < 16, digitOf a = digitOf b → a = b := by decide
  exact hall a ha b hb h

/-- The digits tell the number. -/
theorem numeral_inj {width a b : Nat} (ha : a < 16 ^ width) (hb : b < 16 ^ width)
    (h : numeral width a = numeral width b) : a = b := by
  induction width generalizing a b with
  | zero =>
    rw [Nat.pow_zero] at ha hb
    omega
  | succ width ih =>
    rw [Nat.pow_succ] at ha hb
    obtain ⟨hhigh, hlow⟩ := List.append_inj' h rfl
    have hdiv : a / 16 = b / 16 := ih (by omega) (by omega) hhigh
    have hmod : a % 16 = b % 16 :=
      digitOf_inj (Nat.mod_lt a (by decide)) (Nat.mod_lt b (by decide)) (List.singleton_inj.mp hlow)
    omega

theorem numeral_of_zero (width : Nat) : numeral width 0 = List.replicate width '0' := by
  induction width with
  | zero => rfl
  | succ width ih =>
    rw [numeral, Nat.zero_div, ih, List.replicate_succ']
    rfl

/-- The digits of a number, filled up with zeros. -/
theorem leftpad_digits {width v : Nat} (hwidth : 0 < width) (hv : v < 16 ^ width) :
    (digits 16 true v).leftpad width '0' = numeral width v := by
  have hdigit : ∀ n < 16, (Nat.digitChar n).toUpper = digitOf n := by decide
  have hsmall : ∀ n < 16, digits 16 true n = [digitOf n] := by
    intro n hn
    rw [digits, Nat.toDigits_of_lt_base hn, List.map_singleton, if_pos rfl, hdigit n hn]
  induction width generalizing v with
  | zero => omega
  | succ width ih =>
    rw [numeral]
    by_cases hlt : v < 16
    · rw [hsmall v hlt, Nat.div_eq_of_lt hlt, Nat.mod_eq_of_lt hlt, numeral_of_zero, List.leftpad]
      rfl
    · have hlarge : digits 16 true v = digits 16 true (v / 16) ++ [digitOf (v % 16)] := by
        rw [digits, Nat.toDigits_eq_if (by decide), if_neg hlt, List.map_append,
          List.map_singleton, if_pos rfl, hdigit _ (Nat.mod_lt v (by decide))]
        rfl
      rw [Nat.pow_succ] at hv
      have hpos : 0 < width := by
        rcases Nat.eq_zero_or_pos width with rfl | hpos
        · omega
        · exact hpos
      rw [hlarge, ← ih hpos (show v / 16 < 16 ^ width by omega)]
      simp [List.leftpad]

/-! ## Templates with a numeral -/

/-- The text before and after a numeral of some width that is the only conversion in a template. -/
def splitAtNumeral (width : Nat) : List Char → Option (List Char × List Char)
  | [] => none
  | c :: cs =>
    if c = '%' then
      if cs.take 3 = ['0', digitOf width, 'X'] ∧ '%' ∉ cs.drop 3 then some ([], cs.drop 3) else none
    else (splitAtNumeral width cs).map fun cut => (c :: cut.1, cut.2)

theorem expand_of_notMem {cs : List Char} (h : '%' ∉ cs) : expand none cs [] = .ok cs := by
  induction cs with
  | nil => rfl
  | cons c cs ih =>
    obtain ⟨hc, hcs⟩ := List.ne_and_not_mem_of_not_mem_cons h
    rw [expand, if_neg (Ne.symm hc), ih hcs]
    rfl

/-- A conversion of that width lays a number out in so many digits. -/
theorem expand_conversion {width v : Nat} (hpos : 0 < width) (hlt : width < 10)
    (hv : v < 16 ^ width) (after : List Char) :
    expand (some none) ('0' :: digitOf width :: 'X' :: after) [.number v] =
      (expand none after []).map (numeral width v ++ ·) := by
  have hdigit : ∀ w < 10, 0 < w → digitOf w ≠ '0' ∧ (digitOf w).isDigit = true ∧
      (digitOf w).toNat - 48 = w := by
    decide
  obtain ⟨hzero, hisDigit, hvalue⟩ := hdigit width hlt hpos
  have hcount : ¬ Capacity.maxCount < (width : Int) := by
    rw [show Capacity.maxCount = 9223372036854775807 from rfl]
    omega
  have hroom : ¬ Capacity.room < width := by
    rw [show Capacity.room = 4294967296 from rfl]
    omega
  have hlayout : ({ base := 16, capital := true, zeros := true, width } : NumeralStyle).layout v =
      numeral width v := by
    have hsign : ¬ (v : Int) < 0 := by omega
    simp only [NumeralStyle.layout, if_neg hsign, if_true, List.length_nil, Nat.sub_zero,
      List.nil_append, Int.natAbs_natCast]
    exact leftpad_digits hpos hv
  have hconvert : convert 'X' true width (.number v) = .ok (numeral width v) := by
    rw [← hlayout]
    simp [convert, convert.number, Value.number?, hroom]
  simp [expand, hzero, hisDigit, hvalue, hcount, hconvert]

theorem expand_of_splitAtNumeral {width v : Nat} (hpos : 0 < width) (hlt : width < 10)
    (hv : v < 16 ^ width) {cs before after : List Char}
    (h : splitAtNumeral width cs = some (before, after)) :
    expand none cs [.number v] = .ok (before ++ numeral width v ++ after) := by
  induction cs generalizing before with
  | nil => cases h
  | cons c cs ih =>
    rw [splitAtNumeral] at h
    by_cases hc : c = '%'
    · rw [if_pos hc] at h
      split at h
      · next hcut =>
        cases h
        rw [expand, if_pos hc, ← List.take_append_drop 3 cs, hcut.1]
        simp only [List.cons_append, List.nil_append]
        rw [expand_conversion hpos hlt hv, expand_of_notMem hcut.2]
        rfl
      · cases h
    · rw [if_neg hc] at h
      obtain ⟨cut, hcut, hsplit⟩ := Option.map_eq_some_iff.mp h
      cases hsplit
      rw [expand, if_neg hc, ih hcut]
      rfl

/-- Filling a template that has a numeral changes the digits only. -/
theorem fill_of_splitAtNumeral {width v : Nat} (hpos : 0 < width) (hlt : width < 10)
    (hv : v < 16 ^ width) {template : String} {before after : List Char}
    (h : splitAtNumeral width template.toList = some (before, after)) :
    fill template [.number v] = .ok (String.ofList (before ++ numeral width v ++ after)) := by
  rw [fill, if_neg (by simp), expand_of_splitAtNumeral hpos hlt hv h]
  rfl

end Disassembler.Text
