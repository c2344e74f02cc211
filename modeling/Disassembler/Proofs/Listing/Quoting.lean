import Disassembler.Proofs.Listing.Recovery

/-!
Strings in quotes. A byte that can be printed stands for itself, and any other is written as a
backslash and its two digits. Reading what is written, with each escape as the byte that it writes,
gives the bytes back as long as no part of them looks like an escape itself.
-/

namespace Disassembler

namespace Row

/-- The byte that is written as a backslash and two characters, if there is one. -/
def escaped? (high low : Char) : Option UInt8 :=
  if stringCell (Text.byteOf high low) = ['\\', high, low] then
    some (Text.byteOf high low) else none

def readQuoted : List Char → List UInt8
  | '\\' :: high :: low :: cs =>
    match escaped? high low with
    | some b => b :: readQuoted cs
    | none => 0x5C :: readQuoted (high :: low :: cs)
  | c :: cs => UInt8.ofNat c.toNat :: readQuoted cs
  | [] => []

/-- What bytes say when they are taken for the text of a string. -/
def asWritten (bytes : List UInt8) : List UInt8 := readQuoted (bytes.map plain)

/-- Somewhere the bytes look like what is written for a byte that cannot be printed. -/
def Spells (bytes : List UInt8) : Prop :=
  ∃ b spelling, isPlain b = false ∧ spelling.map plain = stringCell b ∧ spelling <:+: bytes

/-- In front of this text a character stands for itself: it is no backslash, or no digits of an
escape are behind it. -/
def Stands (c : Char) (cs : List Char) : Prop :=
  c = '\\' → ∀ high low rest, cs = high :: low :: rest → escaped? high low = none

/-! ## Reading -/

/-- A text begins with an escape or with a character that stands for itself. -/
theorem stands_or_escape (c : Char) (cs : List Char) :
    (∃ high low rest b, c = '\\' ∧ cs = high :: low :: rest ∧ escaped? high low = some b) ∨
    Stands c cs := by
  by_cases h : ∃ high low rest b, c = '\\' ∧ cs = high :: low :: rest ∧ escaped? high low = some b
  · exact .inl h
  · refine .inr fun hc high low rest hcs => Option.eq_none_iff_forall_not_mem.mpr fun b hb => ?_
    exact h ⟨high, low, rest, b, hc, hcs, hb⟩

theorem readQuoted_of_some {high low : Char} {b : UInt8} (h : escaped? high low = some b)
    (cs : List Char) : readQuoted ('\\' :: high :: low :: cs) = b :: readQuoted cs := by
  simp only [readQuoted, h]

theorem readQuoted_of_stands {c : Char} {cs : List Char} (h : Stands c cs) :
    readQuoted (c :: cs) = UInt8.ofNat c.toNat :: readQuoted cs := by
  by_cases hc : c = '\\'
  · subst hc
    cases cs with
    | nil => rfl
    | cons high cs =>
      cases cs with
      | nil => rfl
      | cons low rest =>
        simp only [readQuoted, h rfl high low rest rfl]
        rfl
  · rw [readQuoted]
    rintro high low rest rfl
    exact absurd rfl hc

/-- Induction on a text from one escape or character to the next. -/
theorem quoted_induction {motive : List Char → Prop} (nil : motive [])
    (escape : ∀ high low b cs, escaped? high low = some b → motive cs →
      motive ('\\' :: high :: low :: cs))
    (char : ∀ c cs, Stands c cs → motive cs → motive (c :: cs)) (cs : List Char) : motive cs := by
  induction hn : cs.length using Nat.strongRecOn generalizing cs with
  | _ n ih =>
    cases cs with
    | nil => exact nil
    | cons c cs =>
      rcases stands_or_escape c cs with ⟨high, low, rest, b, rfl, rfl, hb⟩ | hstands
      · exact escape high low b rest hb
          (ih rest.length (by simp only [List.length_cons] at hn; omega) rest rfl)
      · exact char c cs hstands (ih cs.length (by simp only [List.length_cons] at hn; omega) cs rfl)

/-! ## Cells -/

theorem stringCell_of_isPlain {b : UInt8} (h : isPlain b = true) :
    stringCell b = [plain b] := if_pos h

/-- A byte that cannot be printed is written as an escape. -/
theorem exists_stringCell {b : UInt8} (h : isPlain b = false) :
    ∃ high low, stringCell b = ['\\', high, low] ∧ escaped? high low = some b := by
  obtain ⟨high, low, hdigits, -, -, hbyte⟩ := Text.exists_byte b
  have hcell : stringCell b = ['\\', high, low] := by
    rw [stringCell, h, hdigits]
    rfl
  exact ⟨high, low, hcell, by rw [escaped?, hbyte, if_pos hcell]⟩

theorem isPlain_eq_false {b : UInt8} {high low : Char} (h : stringCell b = ['\\', high, low]) :
    isPlain b = false := by
  cases hplain : isPlain b with
  | false => rfl
  | true =>
    rw [stringCell_of_isPlain hplain] at h
    exact absurd (congrArg List.length h) (by simp)

/-- The characters of an escape are digits. -/
theorem mem_digitChars_of_escaped? {high low : Char} {b : UInt8} (h : escaped? high low = some b) :
    high ∈ Text.digitChars ∧ low ∈ Text.digitChars ∧ stringCell b = ['\\', high, low] := by
  unfold escaped? at h
  split at h
  · next hcell =>
    cases h
    obtain ⟨x, y, hdigits, hx, hy, -⟩ := Text.exists_byte (Text.byteOf high low)
    have hsame := hcell
    rw [stringCell, isPlain_eq_false hcell, hdigits] at hsame
    cases hsame
    exact ⟨hx, hy, hcell⟩
  · cases h

theorem eq_backslash {b : UInt8} (h : plain b = '\\') : b = 0x5C := by
  have hvalue := congrArg Char.toNat h
  rw [toNat_plain] at hvalue
  exact UInt8.toNat_inj.mp hvalue

theorem stringCell_backslash : stringCell 0x5C = ['\\'] := rfl

theorem ofNat_plain (b : UInt8) : UInt8.ofNat (plain b).toNat = b :=
  by rw [toNat_plain, UInt8.ofNat_toNat]

theorem printable_of_mem_digitChars {c : Char} (h : c ∈ Text.digitChars) :
    32 ≤ c.toNat ∧ c.toNat < 127 := by
  have hall : Text.digitChars.all (fun c => 32 ≤ c.toNat ∧ c.toNat < 127) = true := by decide
  exact of_decide_eq_true (List.all_eq_true.mp hall c h)

theorem isPlain_of_mem_digitChars {b : UInt8} (h : plain b ∈ Text.digitChars) :
    isPlain b = true := by
  rw [isPlain_iff, ← toNat_plain]
  exact printable_of_mem_digitChars h

/-- Where text that is written for bytes does not start with a backslash, it starts with a byte that
can be printed. -/
theorem exists_of_flatMap_stringCell {bytes : List UInt8} {c : Char} {rest : List Char}
    (h : bytes.flatMap stringCell = c :: rest) (hc : c ≠ '\\') :
    ∃ b bs, bytes = b :: bs ∧ c = plain b ∧ rest = bs.flatMap stringCell := by
  cases bytes with
  | nil => cases h
  | cons b bs =>
    cases hplain : isPlain b with
    | true =>
      rw [List.flatMap_cons, stringCell_of_isPlain hplain, List.singleton_append] at h
      cases h
      exact ⟨b, bs, rfl, rfl, rfl⟩
    | false =>
      obtain ⟨high, low, hcell, -⟩ := exists_stringCell hplain
      rw [List.flatMap_cons, hcell] at h
      cases h
      exact absurd rfl hc

/-- A character that stands for itself in front of bytes as text does so in front of what is written
for them. -/
theorem stands_flatMap_of_map {c : Char} {bytes : List UInt8} (h : Stands c (bytes.map plain)) :
    Stands c (bytes.flatMap stringCell) := by
  intro hc high low cs hcs
  refine Option.eq_none_iff_forall_not_mem.mpr fun b hb => ?_
  obtain ⟨hhigh, hlow, -⟩ := mem_digitChars_of_escaped? hb
  obtain ⟨x, bs, rfl, rfl, hrest⟩ :=
    exists_of_flatMap_stringCell hcs (Text.ne_of_mem_digitChars hhigh (by decide))
  obtain ⟨y, rest, rfl, rfl, -⟩ :=
    exists_of_flatMap_stringCell hrest.symm (Text.ne_of_mem_digitChars hlow (by decide))
  exact absurd (h hc (plain x) (plain y) (rest.map plain) rfl)
    (Option.ne_none_iff_exists'.mpr ⟨b, hb⟩)

/-! ## What strings say -/

theorem asWritten_of_some {x y b : UInt8} (h : escaped? (plain x) (plain y) = some b)
    (bytes : List UInt8) : asWritten (0x5C :: x :: y :: bytes) = b :: asWritten bytes :=
  readQuoted_of_some h (bytes.map plain)

theorem asWritten_of_stands {b : UInt8} {bytes : List UInt8}
    (h : Stands (plain b) (bytes.map plain)) : asWritten (b :: bytes) = b :: asWritten bytes := by
  rw [asWritten, List.map_cons, readQuoted_of_stands h, ofNat_plain]
  rfl

/-- Bytes begin with one that stands for itself, or with a backslash and the digits of an escape. -/
theorem stands_or_spelling (b : UInt8) (bytes : List UInt8) :
    (∃ x y rest e, b = 0x5C ∧ bytes = x :: y :: rest ∧ escaped? (plain x) (plain y) = some e) ∨
      Stands (plain b) (bytes.map plain) := by
  rcases stands_or_escape (plain b) (bytes.map plain) with ⟨high, low, cs, e, hb, hcs, he⟩ | hstands
  · obtain ⟨x, bs, rfl, rfl, hrest⟩ := List.map_eq_cons_iff.mp hcs
    obtain ⟨y, rest, rfl, rfl, -⟩ := List.map_eq_cons_iff.mp hrest
    exact .inl ⟨x, y, rest, e, eq_backslash hb, rfl, he⟩
  · exact .inr hstands

/-- Reading what is written for bytes gives what they say as text. -/
theorem readQuoted_flatMap_stringCell (bytes : List UInt8) :
    readQuoted (bytes.flatMap stringCell) = asWritten bytes := by
  -- By length, for a backslash and the digits of an escape are read together.
  induction hn : bytes.length using Nat.strongRecOn generalizing bytes with
  | _ n ih =>
    cases bytes with
    | nil => rfl
    | cons b bytes =>
      simp only [List.length_cons] at hn
      have ihrest := ih bytes.length (by omega) bytes rfl
      rw [List.flatMap_cons]
      rcases stands_or_spelling b bytes with ⟨x, y, rest, e, rfl, rfl, hescaped⟩ | hstands
      · obtain ⟨hx, hy, -⟩ := mem_digitChars_of_escaped? hescaped
        have ihescape := ih rest.length (by simp only [List.length_cons] at hn; omega) rest rfl
        rw [asWritten_of_some hescaped, List.flatMap_cons, List.flatMap_cons, stringCell_backslash,
          stringCell_of_isPlain (isPlain_of_mem_digitChars hx),
          stringCell_of_isPlain (isPlain_of_mem_digitChars hy), List.singleton_append,
          List.singleton_append, List.singleton_append, readQuoted_of_some hescaped, ihescape]
      · rw [asWritten_of_stands hstands]
        cases hplain : isPlain b with
        | true =>
          rw [stringCell_of_isPlain hplain, List.singleton_append,
            readQuoted_of_stands (stands_flatMap_of_map hstands), ofNat_plain, ihrest]
        | false =>
          obtain ⟨high, low, hcell, hescaped⟩ := exists_stringCell hplain
          rw [hcell, List.cons_append, List.cons_append, List.singleton_append,
            readQuoted_of_some hescaped, ihrest]

theorem stringCell_ofNat {c : Char} (h : 32 ≤ c.toNat ∧ c.toNat < 127) :
    stringCell (UInt8.ofNat c.toNat) = [c] := by
  have hvalue : (UInt8.ofNat c.toNat).toNat = c.toNat := by
    rw [UInt8.toNat_ofNat']
    omega
  have hplain : isPlain (UInt8.ofNat c.toNat) = true := (isPlain_iff _).mpr (hvalue.symm ▸ h)
  rw [stringCell_of_isPlain hplain, plain, hvalue, Char.ofNat_toNat]

/-- Text whose characters can all be printed is what is written for the bytes that are read from
it. -/
theorem flatMap_stringCell_readQuoted {cs : List Char}
    (h : ∀ c ∈ cs, 32 ≤ c.toNat ∧ c.toNat < 127) : (readQuoted cs).flatMap stringCell = cs := by
  induction cs using quoted_induction with
  | nil => rfl
  | escape high low b cs hescaped ih =>
    obtain ⟨-, -, hcell⟩ := mem_digitChars_of_escaped? hescaped
    have hcs := ih fun c hc => h c (by simp [hc])
    rw [readQuoted_of_some hescaped, List.flatMap_cons, hcell, hcs]
    rfl
  | char c cs hstands ih =>
    have hcs := ih fun c hc => h c (List.mem_cons_of_mem _ hc)
    rw [readQuoted_of_stands hstands, List.flatMap_cons,
      stringCell_ofNat (h c List.mem_cons_self), hcs]
    rfl

/-- Only characters that can be printed are written for bytes. -/
theorem printable_of_mem_flatMap (bytes : List UInt8) :
    ∀ c ∈ bytes.flatMap stringCell, 32 ≤ c.toNat ∧ c.toNat < 127 := by
  intro c hc
  obtain ⟨b, -, hcell⟩ := List.mem_flatMap.mp hc
  cases hplain : isPlain b with
  | true =>
    rw [stringCell_of_isPlain hplain, List.mem_singleton] at hcell
    rw [hcell, toNat_plain]
    exact (isPlain_iff b).mp hplain
  | false =>
    obtain ⟨high, low, heq, hescaped⟩ := exists_stringCell hplain
    obtain ⟨hhigh, hlow, -⟩ := mem_digitChars_of_escaped? hescaped
    rw [heq] at hcell
    rcases List.mem_cons.mp hcell with rfl | hdigit
    · decide
    · refine printable_of_mem_digitChars ?_
      rcases List.mem_pair.mp hdigit with rfl | rfl
      · exact hhigh
      · exact hlow

/-- Two runs are written alike exactly if they say the same. -/
theorem flatMap_stringCell_eq_iff (r q : List UInt8) :
    r.flatMap stringCell = q.flatMap stringCell ↔ asWritten r = asWritten q := by
  rw [← readQuoted_flatMap_stringCell, ← readQuoted_flatMap_stringCell]
  refine ⟨congrArg readQuoted, fun h => ?_⟩
  rw [← flatMap_stringCell_readQuoted (printable_of_mem_flatMap r), h,
    flatMap_stringCell_readQuoted (printable_of_mem_flatMap q)]

/-! ## Bytes that spell nothing -/

/-- A character that stands for itself before the end does so before a backslash, which is no digit
of an escape. -/
theorem stands_append {c : Char} {cs : List Char} (h : Stands c cs) (rest : List Char) :
    Stands c (cs ++ '\\' :: rest) := by
  intro hc high low tail hcs
  cases cs with
  | nil =>
    cases hcs
    refine Option.eq_none_iff_forall_not_mem.mpr fun b hb => ?_
    exact absurd (mem_digitChars_of_escaped? hb).1 (by decide)
  | cons x cs =>
    cases cs with
    | nil =>
      cases hcs
      refine Option.eq_none_iff_forall_not_mem.mpr fun b hb => ?_
      exact absurd (mem_digitChars_of_escaped? hb).2.1 (by decide)
    | cons y cs =>
      cases hcs
      exact h hc high low cs rfl

/-- A backslash ends what stands before it. -/
theorem readQuoted_append (cs rest : List Char) :
    readQuoted (cs ++ '\\' :: rest) = readQuoted cs ++ readQuoted ('\\' :: rest) := by
  induction cs using quoted_induction with
  | nil => rfl
  | escape high low b cs hescaped ih =>
    rw [List.cons_append, List.cons_append, List.cons_append, readQuoted_of_some hescaped,
      readQuoted_of_some hescaped, ih, List.cons_append]
  | char c cs hstands ih =>
    rw [List.cons_append, readQuoted_of_stands hstands,
      readQuoted_of_stands (stands_append hstands rest), ih, List.cons_append]

theorem length_readQuoted_le (cs : List Char) : (readQuoted cs).length ≤ cs.length := by
  induction cs using quoted_induction with
  | nil => exact Nat.le_refl 0
  | escape high low b cs hescaped ih =>
    rw [readQuoted_of_some hescaped]
    simp only [List.length_cons]
    omega
  | char c cs hstands ih =>
    rw [readQuoted_of_stands hstands]
    exact Nat.succ_le_succ ih

theorem length_asWritten_le (bytes : List UInt8) : (asWritten bytes).length ≤ bytes.length := by
  have hle := length_readQuoted_le (bytes.map plain)
  rwa [List.length_map] at hle

/-- To look like an escape is to be a backslash and its two digits. -/
theorem spells_iff (bytes : List UInt8) :
    Spells bytes ↔ ∃ x y b, [0x5C, x, y] <:+: bytes ∧ escaped? (plain x) (plain y) = some b := by
  constructor
  · rintro ⟨b, spelling, hplain, hspelling, hpart⟩
    obtain ⟨high, low, hcell, hescaped⟩ := exists_stringCell hplain
    rw [hcell] at hspelling
    obtain ⟨z, digits, rfl, hz, hdigits⟩ := List.map_eq_cons_iff.mp hspelling
    obtain ⟨x, tail, rfl, rfl, htail⟩ := List.map_eq_cons_iff.mp hdigits
    obtain ⟨y, rest, rfl, rfl, hrest⟩ := List.map_eq_cons_iff.mp htail
    cases List.map_eq_nil_iff.mp hrest
    cases eq_backslash hz
    exact ⟨x, y, b, hpart, hescaped⟩
  · rintro ⟨x, y, b, hpart, hescaped⟩
    obtain ⟨-, -, hcell⟩ := mem_digitChars_of_escaped? hescaped
    exact ⟨b, [0x5C, x, y], isPlain_eq_false hcell, hcell.symm, hpart⟩

theorem asWritten_cons_of_not_spells {b : UInt8} {bytes : List UInt8} (h : ¬ Spells (b :: bytes)) :
    asWritten (b :: bytes) = b :: asWritten bytes := by
  rcases stands_or_spelling b bytes with ⟨x, y, rest, e, rfl, rfl, hescaped⟩ | hstands
  · exact absurd ((spells_iff _).mpr ⟨x, y, e, ⟨[], rest, rfl⟩, hescaped⟩) h
  · exact asWritten_of_stands hstands

/-- Bytes say themselves exactly if they spell no other. -/
theorem asWritten_eq_self_iff (bytes : List UInt8) : asWritten bytes = bytes ↔ ¬ Spells bytes := by
  constructor
  · intro hself hspells
    obtain ⟨x, y, b, ⟨before, behind, rfl⟩, hescaped⟩ := (spells_iff bytes).mp hspells
    have hsaid : asWritten (before ++ [0x5C, x, y] ++ behind) = asWritten before ++
        b :: asWritten behind := by
      rw [← asWritten_of_some hescaped, List.append_assoc, asWritten, List.map_append]
      exact readQuoted_append _ _
    -- The spelling is three bytes long, and what it says is one.
    have hlength := congrArg List.length (hsaid.symm.trans hself)
    have hbefore := length_asWritten_le before
    have hbehind := length_asWritten_le behind
    simp only [List.length_append, List.length_cons, List.length_nil] at hlength
    omega
  · intro h
    induction bytes with
    | nil => rfl
    | cons b bytes ih =>
      rw [asWritten_cons_of_not_spells h, ih]
      rintro ⟨e, spelling, hplain, hspelling, hpart⟩
      exact h ⟨e, spelling, hplain, hspelling, hpart.trans (List.suffix_cons b bytes).isInfix⟩

theorem not_spells_of_notMem {bytes : List UInt8} (h : 0x5C ∉ bytes) : ¬ Spells bytes := by
  intro hspells
  obtain ⟨x, y, b, hpart, -⟩ := (spells_iff bytes).mp hspells
  exact h (hpart.subset List.mem_cons_self)

theorem toList_stringText_inj (r q : List UInt8) :
    (stringText r).toList = (stringText q).toList ↔
    r.flatMap stringCell = q.flatMap stringCell := by
  simp only [stringText, String.toList_append, String.toList_ofList, List.append_cancel_right_eq,
    List.append_cancel_left_eq]

end Row

end Disassembler
