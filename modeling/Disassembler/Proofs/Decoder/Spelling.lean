import Disassembler.Decoder.Operand
import Disassembler.Proofs.Text.Pattern
import Mathlib.Algebra.Ring.Nat

/-!
How operands are spelled. The text of an operand is a row of pieces: some stand fast and some show a
byte. Each piece has a pattern that every text of it fits, and the text of a row tells all the bytes
that it shows.
-/

namespace Disassembler

open Text (numeral splitAtNumeral splitAtHole)

/-- A displacement with its sign, from a byte. -/
def Displacement.spelled (byte : Nat) : List Char :=
  if byte < 128 then '+' :: '$' :: numeral 2 byte else '-' :: '$' :: numeral 2 (256 - byte)

inductive Piece where
  /-- text as it stands -/
  | text (s : List Char)
  /-- a byte as a number -/
  | byte
  /-- two bytes as a number -/
  | word
  /-- the address that a displacement byte leads to -/
  | target
  /-- a displacement byte with its sign -/
  | offset
  /-- a deferred displacement with its sign -/
  | deferred
  deriving DecidableEq, Repr

namespace Piece

def cells : Piece → Text.Pattern
  | text s => .exactly s
  | byte => [.digit, .digit]
  | word => [.digit, .digit, .digit, .digit]
  | target => [.digit, .digit, .digit, .digit]
  | offset => [.sign, .char '$', .digit, .digit]
  | deferred => [.sign, .char '$', .digit, .digit]

def size : Piece → Nat
  | byte => 1
  | word => 2
  | target => 1
  | offset => 1
  | _ => 0

def units : Piece → Nat
  | deferred => 1
  | _ => 0

/-- `p.Spells a bytes held w`: at the address `a` the piece is read from `bytes` and the deferred
units `held`, and shown as `w`. -/
inductive Spells (a : Int) : Piece → List UInt8 → List UInt8 → List Char → Prop where
  | text (s : List Char) : Spells a (.text s) [] [] s
  | byte (b : UInt8) : Spells a .byte [b] [] (numeral 2 b.toNat)
  | word
      (low high : UInt8) : Spells a .word [low, high] [] (numeral 4 (high.toNat * 256 + low.toNat))
  | target
      (b : UInt8) :
        Spells a .target [b] [] (numeral 4 (Displacement.target (a + 1) b.toNat 8).toNat)
  | offset (b : UInt8) : Spells a .offset [b] [] (Displacement.spelled b.toNat)
  | deferred (b : UInt8) : Spells a .deferred [] [b] (Displacement.spelled b.toNat)

end Piece

namespace Displacement

theorem fits_spelled (b : UInt8) :
    Text.Pattern.Fits [.sign, .char '$', .digit, .digit] (spelled b.toNat) := by
  unfold spelled
  split
  · exact .cons (.inl rfl) (.cons rfl (Text.Pattern.fits_numeral 2 _))
  · exact .cons (.inr rfl) (.cons rfl (Text.Pattern.fits_numeral 2 _))

/-- The sign and the digits tell the byte. -/
theorem spelled_inj {b c : UInt8} (h : spelled b.toNat = spelled c.toNat) : b = c := by
  have hb := b.toNat_lt
  have hc := c.toNat_lt
  apply UInt8.toNat_inj.mp
  unfold spelled at h
  split at h <;> split at h
  · exact Text.numeral_inj (by omega) (by omega)
      (List.cons_inj_right _ |>.mp (List.cons_inj_right _ |>.mp h))
  · cases h
  · cases h
  · have hdigits := List.cons_inj_right _ |>.mp (List.cons_inj_right _ |>.mp h)
    have :=
      Text.numeral_inj (show 256 - b.toNat < 16 ^ 2 by omega) (show 256 - c.toNat <
        16 ^ 2 by omega) hdigits
    omega

theorem target_eq (base : Int) {b : Nat} (hb : b < 256) :
    target base b 8 = (base + if b < 128 then (b : Int) else (b : Int) - 256) % 65536 := by
  have hlow : (b : Int) % (256 : Nat) = b := by omega
  simp only [target, signExtend, show modulus 8 = 256 from rfl, show modulus (8 - 1) = 128 from rfl,
    show modulus 16 = 65536 from rfl, hlow]
  split <;> split <;> first | rfl | omega

/-- No two displacements lead to the same target, also where the address space ends. -/
theorem target_inj {base : Int} {b c : UInt8}
    (h : (target base b.toNat 8).toNat = (target base c.toNat 8).toNat) : b = c := by
  have hb := b.toNat_lt
  have hc := c.toNat_lt
  apply UInt8.toNat_inj.mp
  rw [target_eq base hb, target_eq base hc] at h
  split at h <;> split at h <;> omega

theorem target_nonneg (base : Int) (b : UInt8) : 0 ≤ target base b.toNat 8 := by
  rw [target_eq base b.toNat_lt]
  omega

theorem toNat_target_lt (base : Int) (b : UInt8) : (target base b.toNat 8).toNat < 16 ^ 4 := by
  rw [target_eq base b.toNat_lt]
  omega

end Displacement

namespace Piece.Spells

variable {a : Int} {p : Piece} {bytes bytes' held held' : List UInt8} {w w' : List Char}

theorem fits (h : p.Spells a bytes held w) : p.cells.Fits w := by
  cases h with
  | text => exact Text.Pattern.fits_exactly w
  | byte b => exact Text.Pattern.fits_numeral 2 _
  | word low high => exact Text.Pattern.fits_numeral 4 _
  | target b => exact Text.Pattern.fits_numeral 4 _
  | offset b => exact Displacement.fits_spelled b
  | deferred b => exact Displacement.fits_spelled b

theorem length_bytes (h : p.Spells a bytes held w) : bytes.length = p.size := by cases h <;> rfl

theorem length_held (h : p.Spells a bytes held w) : held.length = p.units := by cases h <;> rfl

/-- The text of a piece tells what it was read from. -/
theorem inj (h : p.Spells a bytes held w) (h' : p.Spells a bytes' held' w') (hw : w = w') :
    bytes = bytes' ∧ held = held' := by
  cases h with
  | text =>
    cases h'
    exact ⟨rfl, rfl⟩
  | byte b =>
    cases h' with
    | byte c =>
      have hvalue := Text.numeral_inj b.toNat_lt c.toNat_lt hw
      exact ⟨by rw [UInt8.toNat_inj.mp hvalue], rfl⟩
  | word low high =>
    cases h' with
    | word low' high' =>
      have hlow := low.toNat_lt
      have hlow' := low'.toNat_lt
      have hhigh := high.toNat_lt
      have hhigh' := high'.toNat_lt
      have hvalue := Text.numeral_inj (by omega) (by omega) hw
      have hsame : low = low' := UInt8.toNat_inj.mp (by omega)
      have hsame' : high = high' := UInt8.toNat_inj.mp (by omega)
      exact ⟨by rw [hsame, hsame'], rfl⟩
  | target b =>
    cases h' with
    | target c =>
      have hvalue :=
        Text.numeral_inj (Displacement.toNat_target_lt _ _) (Displacement.toNat_target_lt _ _) hw
      exact ⟨by rw [Displacement.target_inj hvalue], rfl⟩
  | offset b =>
    cases h' with
    | offset c => exact ⟨by rw [Displacement.spelled_inj hw], rfl⟩
  | deferred b =>
    cases h' with
    | deferred c => exact ⟨rfl, by rw [Displacement.spelled_inj hw]⟩

end Piece.Spells

/-! ## Rows of pieces -/

/-- The pieces one after another; each is read behind the bytes of those before it. -/
inductive Spelling : Int → List Piece → List UInt8 → List UInt8 → List Char → Prop where
  | nil (a : Int) : Spelling a [] [] [] []
  | cons {a : Int} {p : Piece} {ps : List Piece} {bytes bytes' held held' : List UInt8}
      {w w' : List Char}
      (first : p.Spells a bytes held w) (rest : Spelling (a + bytes.length) ps bytes' held' w') :
      Spelling a (p :: ps) (bytes ++ bytes') (held ++ held') (w ++ w')

namespace Spelling

variable {a : Int} {ps qs : List Piece} {bytes bytes' held held' : List UInt8} {w w' : List Char}

theorem single {p : Piece} (h : p.Spells a bytes held w) : Spelling a [p] bytes held w := by
  have hrow := Spelling.cons h (.nil _)
  rwa [List.append_nil, List.append_nil, List.append_nil] at hrow

theorem append (h : Spelling a ps bytes held w)
    (h' : Spelling (a + bytes.length) qs bytes' held' w') :
    Spelling a (ps ++ qs) (bytes ++ bytes') (held ++ held') (w ++ w') := by
  induction h with
  | nil a => simpa using h'
  | @cons a p ps bytes₁ bytes₂ held₁ held₂ w₁ w₂ first rest ih =>
    have hrest := ih (by rwa [List.length_append, Int.natCast_add, ← Int.add_assoc] at h')
    simpa only [List.append_assoc, List.cons_append] using Spelling.cons first hrest

theorem text_cons (s : List Char) (h : Spelling a ps bytes held w) :
    Spelling a (.text s :: ps) bytes held (s ++ w) :=
  .cons (.text s) (by simpa using h)

theorem fits (h : Spelling a ps bytes held w) : Text.Pattern.Fits (ps.flatMap Piece.cells) w := by
  induction h with
  | nil => exact .nil
  | cons first rest ih => exact first.fits.append ih

theorem length_bytes (h : Spelling a ps bytes held w) : bytes.length = (ps.map Piece.size).sum := by
  induction h with
  | nil => rfl
  | cons first rest ih => simp [ih, first.length_bytes]

theorem length_held (h : Spelling a ps bytes held w) : held.length = (ps.map Piece.units).sum := by
  induction h with
  | nil => rfl
  | cons first rest ih => simp [ih, first.length_held]

/-- The text of a row tells all that it was read from. -/
theorem inj (h : Spelling a ps bytes held w) (h' : Spelling a ps bytes' held' w) :
    bytes = bytes' ∧ held = held' := by
  generalize hw : w = v at h'
  induction h generalizing bytes' held' v with
  | nil =>
    cases h'
    exact ⟨rfl, rfl⟩
  | cons first rest ih =>
    cases h' with
    | cons first' rest' =>
      -- every text of a piece is as long as its pattern, so the two texts are cut in the same place
      obtain ⟨hhead, htail⟩ := List.append_inj hw (first.fits.length.trans first'.fits.length.symm)
      obtain ⟨rfl, rfl⟩ := first.inj first' hhead
      obtain ⟨rfl, rfl⟩ := ih _ htail rest'
      exact ⟨rfl, rfl⟩

end Spelling

/-! ## Operands -/

namespace Operand

/-- A piece in place of the numeral of a template. -/
def framed (width : Nat) (template : String) (p : Piece) : Option (List Piece) :=
  match splitAtNumeral width template.toList with
  | some (before, after) => some [.text before, p, .text after]
  | Option.none => Option.none

def wrapped (wrap : String) (row : Option (List Piece)) : Option (List Piece) :=
  match row, splitAtHole wrap.toList with
  | some ps, (before, after) => some (.text before :: (ps ++ [.text after]))
  | Option.none, _ => Option.none

def pieces (selector : Nat) : Operand → Option (List Piece)
  | none => some []
  | literal s => some [.text s.toList]
  | pair first separator second =>
    match first.pieces selector, second.pieces selector with
    | some ps, some qs => some (ps ++ .text separator.toList :: qs)
    | _, _ => Option.none
  | imm8 template => framed 2 template .byte
  | abs8 format wrap => wrapped wrap (framed 2 format .byte)
  | abs16 format wrap => wrapped wrap (framed 4 format .word)
  | rel8 format wrap => wrapped wrap (framed 4 format .target)
  | field shift width names =>
    some [.text (names.getD (selector / 2 ^ shift % 2 ^ width) "").toList]
  | indexed register => some [.text ('(' :: register.toList), .offset, .text [')']]
  | indexedDeferred register => some [.text ('(' :: register.toList), .deferred, .text [')']]
  | _ => Option.none

end Operand

end Disassembler
