import Disassembler.Plan.Directive
import Disassembler.Proofs.Text.Numeral

/-!
Reading numerals. The digits that a number is laid out in are digits of the command lines, and their
value there is the number, whatever its width. So a number can be read off the front of a text, with
its sign, if no digit stands behind it.
-/

namespace Disassembler.Text

open Disassembler.Directive (isHexDigit hexDigitValue hexValue)

/-- The value of the digits at the front of a text, and what stands behind them. -/
def readDigits (cs : List Char) : Nat × List Char :=
  (hexValue (cs.takeWhile isHexDigit), cs.dropWhile isHexDigit)

def readNumber (cs : List Char) : Int × List Char :=
  if cs.head? = some '-' then (-(readDigits cs.tail).1, (readDigits cs.tail).2)
  else ((readDigits cs).1, (readDigits cs).2)

def byteOf (high low : Char) : UInt8 := UInt8.ofNat (hexValue [high, low])

/-! ## Digits -/

theorem isHexDigit_of_mem_digitChars {c : Char} (h : c ∈ digitChars) : isHexDigit c = true := by
  have hall : digitChars.all isHexDigit = true := by decide
  exact List.all_eq_true.mp hall c h

theorem hexDigitValue_digitOf {n : Nat} (h : n < 16) : hexDigitValue (digitOf n) = n := by
  have hall : ∀ n < 16, hexDigitValue (digitOf n) = n := by decide
  exact hall n h

theorem hexValue_append_singleton (cs : List Char) (c : Char) :
    hexValue (cs ++ [c]) = 16 * hexValue cs + hexDigitValue c := by
  simp [hexValue]

theorem hexValue_numeral {width v : Nat} (hv : v < 16 ^ width) :
    hexValue (numeral width v) = v := by
  induction width generalizing v with
  | zero =>
    rw [Nat.pow_zero] at hv
    have hzero : v = 0 := by omega
    rw [hzero]
    rfl
  | succ width ih =>
    rw [Nat.pow_succ] at hv
    rw [numeral, hexValue_append_singleton, ih (by omega),
      hexDigitValue_digitOf (Nat.mod_lt v (by decide))]
    omega

/-- Zeros in front do not count. -/
theorem hexValue_leftpad (width : Nat) (cs : List Char) :
    hexValue (cs.leftpad width '0') = hexValue cs := by
  have hzeros : ∀ n, hexValue (List.replicate n '0' ++ cs) = hexValue cs := by
    intro n
    induction n with
    | zero => rfl
    | succ n ih => exact ih
  exact hzeros _

/-- With zeros in front, the digits of any number are a numeral. -/
theorem leftpad_digits_eq_numeral (v : Nat) :
    (digits 16 true v).leftpad (v + 1) '0' = numeral (v + 1) v :=
  leftpad_digits (Nat.succ_pos v) (Nat.lt_trans (Nat.lt_succ_self v) (Nat.lt_pow_self (by decide)))

theorem hexValue_digits (v : Nat) : hexValue (digits 16 true v) = v := by
  have hlarge : v < 16 ^ (v + 1) := Nat.lt_trans (Nat.lt_succ_self v) (Nat.lt_pow_self (by decide))
  rw [← hexValue_leftpad (v + 1), leftpad_digits_eq_numeral, hexValue_numeral hlarge]

theorem isHexDigit_of_mem_digits {v : Nat} {c : Char} (h : c ∈ digits 16 true v) :
    isHexDigit c = true := by
  have hmem : c ∈ numeral (v + 1) v := by
    rw [← leftpad_digits_eq_numeral]
    exact List.mem_append_right _ h
  exact isHexDigit_of_mem_digitChars (mem_digitChars_of_mem_numeral hmem)

theorem isHexDigit_of_mem_leftpad {width v : Nat} {c : Char}
    (h : c ∈ (digits 16 true v).leftpad width '0') : isHexDigit c = true := by
  rcases List.mem_append.mp h with h | h
  · rw [List.eq_of_mem_replicate h]
    decide
  · exact isHexDigit_of_mem_digits h

/-! ## Addresses -/

/-- An address is a sign, if it is negative, and digits for its magnitude. -/
theorem toList_address (a : Int) :
    (address a).toList = (if a < 0 then ['-'] else []) ++
      (digits 16 true a.natAbs).leftpad (4 - (if a < 0 then ['-'] else []).length) '0' := by
  rw [address, String.toList_ofList, NumeralStyle.layout]
  rfl

theorem mem_address {a : Int} {c : Char} (h : c ∈ (address a).toList) :
    c = '-' ∨ isHexDigit c = true := by
  rw [toList_address] at h
  rcases List.mem_append.mp h with h | h
  · split at h
    · exact .inl (List.mem_singleton.mp h)
    · cases h
  · exact .inr (isHexDigit_of_mem_leftpad h)

/-- The digits of an address that is not negative. -/
theorem hexValue_address (v : Nat) : hexValue (address v).toList = v := by
  have hsign : ¬ (v : Int) < 0 := by omega
  rw [toList_address, if_neg hsign, List.nil_append, hexValue_leftpad, Int.natAbs_natCast,
    hexValue_digits]

/-- Digits can be read where no further digit stands behind them. -/
theorem readDigits_append {cs rest : List Char} (hcs : ∀ c ∈ cs, isHexDigit c = true)
    (hrest : ∀ c ∈ rest.head?, isHexDigit c = false) :
    readDigits (cs ++ rest) = (hexValue cs, rest) := by
  rw [readDigits, List.takeWhile_append_of_pos hcs, List.dropWhile_append_of_pos hcs]
  cases rest with
  | nil => simp
  | cons c rest => simp [hrest c rfl]

theorem readNumber_address (a : Int) {rest : List Char}
    (hrest : ∀ c ∈ rest.head?, isHexDigit c = false) :
    readNumber ((address a).toList ++ rest) = (a, rest) := by
  have hread : ∀ width, readDigits ((digits 16 true a.natAbs).leftpad width '0' ++ rest) =
      (a.natAbs, rest) := by
    intro width
    rw [readDigits_append (fun c => isHexDigit_of_mem_leftpad) hrest, hexValue_leftpad,
      hexValue_digits]
  rw [readNumber, toList_address]
  by_cases hneg : a < 0
  · rw [if_pos hneg, if_pos (by rfl), List.append_assoc, List.singleton_append,
      List.tail_cons, hread]
    simp only [Prod.mk.injEq, and_true]
    omega
  · have hsign : ((digits 16 true a.natAbs).leftpad 4 '0' ++ rest).head? ≠ some '-' := by
      have hlong : 0 < ((digits 16 true a.natAbs).leftpad 4 '0').length := by
        rw [List.length_leftpad]
        omega
      obtain ⟨c, cs, hcons⟩ := List.exists_cons_of_length_pos hlong
      have hdigit : isHexDigit c = true := isHexDigit_of_mem_leftpad (hcons ▸ List.mem_cons_self)
      rw [hcons, List.cons_append, List.head?_cons, ne_eq, Option.some.injEq]
      rintro rfl
      exact absurd hdigit (by decide)
    rw [if_neg hneg, List.nil_append, List.length_nil, Nat.sub_zero, if_neg hsign, hread]
    simp only [Prod.mk.injEq, and_true]
    omega

/-! ## Bytes -/

/-- A byte is shown in two digits, which spell it. -/
theorem exists_byte (b : UInt8) :
    ∃ high low, (byte b).toList = [high, low] ∧ high ∈ digitChars ∧ low ∈ digitChars ∧
      byteOf high low = b := by
  have hlt : b.toNat < 16 ^ 2 := b.toNat_lt
  have hlist : (byte b).toList = numeral 2 b.toNat := by
    have hsign : ¬ (b.toNat : Int) < 0 := by omega
    rw [byte, String.toList_ofList, ← leftpad_digits (by decide) hlt, NumeralStyle.layout]
    simp only [byteStyle, if_neg hsign, if_true, List.length_nil, Nat.sub_zero, List.nil_append,
      Int.natAbs_natCast]
  refine ⟨digitOf (b.toNat / 16 % 16), digitOf (b.toNat % 16), hlist, digitOf_mem _,
    digitOf_mem _, ?_⟩
  have hvalue : hexValue [digitOf (b.toNat / 16 % 16), digitOf (b.toNat % 16)] = b.toNat :=
    hexValue_numeral hlt
  rw [byteOf, hvalue, UInt8.ofNat_toNat]

end Disassembler.Text
