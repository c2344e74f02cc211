import Disassembler.Arch.Mos6502
import Disassembler.Arch.Z80
import Disassembler.Proofs.Decoder.Telling

/-!
The texts of two machines tell their instructions. No two forms of the 6502 are spelled alike. Of
the Z80 there are instructions in a longer form with the text of a shorter one, and the bit tests of
the index registers, which do not show all the bits that select them.
-/

namespace Disassembler

namespace Mos6502

theorem tells_forms : arch.tells (fun _ _ => false) 1 = true := by decide +kernel

/-- An instruction of the 6502 is told by its text: two that are found at the same address, where no
address has a label, and that have the same text are of the same length and have the same bytes. -/
theorem raw_eq_of_text (balance₁ balance₂ : Bool) (c₁ c₂ : Cursor) (T₁ T₂ : SymbolTable)
    (i₁ i₂ : Instruction) (hlayout₁ : c₁.layout = ⟨.byte, .little, profile.maxLength⟩)
    (hlayout₂ : c₂.layout = ⟨.byte, .little, profile.maxLength⟩) (haddr : c₂.addr = c₁.addr)
    (hlabels₁ : T₁.labels = []) (hlabels₂ : T₂.labels = [])
    (h₁ : (decode arch balance₁ c₁ T₁).result = .ok i₁)
    (h₂ : (decode arch balance₂ c₂ T₂).result = .ok i₂) (hfound₁ : i₁.found = true)
    (hfound₂ : i₂.found = true) (htext : i₂.text = i₁.text) :
    i₂.length = i₁.length ∧ i₂.raw = i₁.raw := by
  obtain ⟨haddress, f, g, r, r', hsound, hf, hg, hfg⟩ :=
    decode_tells (fun _ _ => id) tells_forms haddr hlayout₁ hlayout₂ hlabels₁ hlabels₂ h₁ h₂ hfound₁
      hfound₂ htext
  obtain rfl : f = g := hfg.resolve_right Bool.false_ne_true
  have hbytes := hf.bytes_eq hg hsound haddress htext
  constructor
  · rw [hg.length, hf.length, hbytes]
  · rw [hg.raw, hf.raw, hbytes]

/-- A branch over the end of the address space, in front of different bytes and with references on
record once. -/
theorem raw_eq_of_text_wrapping :
    let c₁ := Cursor.start ⟨.byte, .little, 3⟩ [0xD0, 0x20] 0xFFF0
    let c₂ := Cursor.start ⟨.byte, .little, 3⟩ [0xEA, 0xD0, 0x20, 0x4C] 0xFFF0 1
    let T₂ : SymbolTable := { entries := [{ address := 0x12, refs := [⟨0x80, .jump⟩] }] }
    ∃ i₁ i₂, (decode arch true c₁ {}).result = .ok i₁ ∧ (decode arch false c₂ T₂).result = .ok i₂ ∧
      i₁.text = "BNE     $0012" ∧ i₂.text = i₁.text ∧ i₂.length = i₁.length ∧ i₂.raw = i₁.raw := by
  intro c₁ c₂ T₂
  have h₁ : (decode arch true c₁ {}).result =
      .ok ⟨"BNE     $0012", 0xFFF0, 0xFFF2, [0xD0, 0x20], true⟩ := by
    decide +kernel
  have h₂ : (decode arch false c₂ T₂).result =
      .ok ⟨"BNE     $0012", 0xFFF0, 0xFFF2, [0xD0, 0x20], true⟩ := by
    decide +kernel
  obtain ⟨hlength, hraw⟩ :=
    raw_eq_of_text true false c₁ c₂ {} T₂ _ _ rfl rfl rfl rfl rfl h₁ h₂ rfl rfl rfl
  exact ⟨_, _, h₁, h₂, rfl, rfl, hlength, hraw⟩

end Mos6502

namespace Z80

/-- Bit tests of the same bit, with the same index register: the low three bits of the unit are not
shown. -/
def BitTests (f g : Form) : Prop :=
  (f.opening = [some 0xDD, some 0xCB, none] ∨ f.opening = [some 0xFD, some 0xCB, none]) ∧
  g.opening = f.opening ∧
    f.mnemonic = "BIT" ∧ g.mnemonic = "BIT" ∧ g.row = f.row ∧ .deferred ∈ f.row ∧ f.size = 4 ∧
    g.unit / 8 = f.unit / 8

instance (f g : Form) : Decidable (BitTests f g) := inferInstanceAs (Decidable (_ ∧ _))

theorem BitTests.symm {f g : Form} (h : BitTests f g) : BitTests g f := by
  obtain ⟨hopening, hsame, hf, hg, hrow, hdeferred, hsize, hunit⟩ := h
  rw [← hsame] at hopening
  rw [← hrow] at hdeferred
  rw [Form.size, ← hsame, ← hrow] at hsize
  exact ⟨hopening, hsame.symm, hg, hf, hrow.symm, hdeferred, hsize, hunit.symm⟩

/-- Forms that may be spelled alike: those of different lengths, and bit tests. -/
def alike (f g : Form) : Bool := f.size ≠ g.size ∨ BitTests f g

theorem alike_symm (f g : Form) (h : alike f g = true) : alike g f = true := by
  have h := of_decide_eq_true h
  exact decide_eq_true (h.imp Ne.symm BitTests.symm)

theorem tells_forms_but_alike : arch.tells alike 3 = true := by decide +kernel

/-- What stands before the unit of a bit test. -/
theorem exists_page_of_opens {opening : List (Option Nat)} {opened : List UInt8}
    (hopening : opening = [some 0xDD, some 0xCB, none] ∨ opening = [some 0xFD, some 0xCB, none])
    (h : Opens opening opened) : ∃ page d : UInt8, (page = 0xDD ∨ page = 0xFD) ∧
    opened = [page, 0xCB, d] := by
  have hbyte : ∀ {b c : UInt8}, (∀ unit ∈ some c.toNat, unit = b.toNat) → b = c :=
    fun hunit => (UInt8.toNat_inj.mp (hunit _ rfl)).symm
  have hthree : ∀ page : UInt8, Opens [some page.toNat, some (0xCB : UInt8).toNat, none] opened →
      ∃ d, opened = [page, 0xCB, d] := by
    intro page hopens
    cases hopens with
    | cons hpage hopens =>
      cases hopens with
      | cons hbits hopens =>
        cases hopens with
        | @cons _ d _ _ _ hopens =>
          cases hopens
          exact ⟨d, by rw [hbyte hpage, hbyte hbits]⟩
  rcases hopening with rfl | rfl
  · obtain ⟨d, rfl⟩ := hthree 0xDD h
    exact ⟨0xDD, d, .inl rfl, rfl⟩
  · obtain ⟨d, rfl⟩ := hthree 0xFD h
    exact ⟨0xFD, d, .inr rfl, rfl⟩

/-- An instruction of the Z80 is told by its text and its length: of two that are found at the same
address, where no address has a label, and that have the same text and the same length the bytes are
the same, unless they are bit tests of an index register, whose last bytes may differ in the low
three bits. -/
theorem raw_eq_or_bit_of_text (balance₁ balance₂ : Bool) (c₁ c₂ : Cursor) (T₁ T₂ : SymbolTable)
    (i₁ i₂ : Instruction) (hlayout₁ : c₁.layout = ⟨.byte, .little, profile.maxLength⟩)
    (hlayout₂ : c₂.layout = ⟨.byte, .little, profile.maxLength⟩) (haddr : c₂.addr = c₁.addr)
    (hlabels₁ : T₁.labels = []) (hlabels₂ : T₂.labels = [])
    (h₁ : (decode arch balance₁ c₁ T₁).result = .ok i₁)
    (h₂ : (decode arch balance₂ c₂ T₂).result = .ok i₂) (hfound₁ : i₁.found = true)
    (hfound₂ : i₂.found = true) (htext : i₂.text = i₁.text) (hlength : i₂.length = i₁.length) :
    i₂.raw = i₁.raw ∨
      "BIT     ".toList <+: i₁.text.toList ∧ ∃ page d b₁ b₂ : UInt8, (page = 0xDD ∨ page = 0xFD) ∧
        i₁.raw = [page, 0xCB, d, b₁] ∧ i₂.raw = [page, 0xCB, d, b₂] ∧
        b₁.toNat / 8 = b₂.toNat / 8 := by
  obtain ⟨haddress, f, g, r, r', hsound, hf, hg, hfg⟩ :=
    decode_tells alike_symm tells_forms_but_alike haddr hlayout₁ hlayout₂ hlabels₁ hlabels₂ h₁ h₂
      hfound₁ hfound₂ htext
  rcases hfg with rfl | halike
  · left
    rw [hg.raw, hf.raw, hf.bytes_eq hg hsound haddress htext]
  · right
    have hsizes : f.size = g.size := by
      have := hf.length_eq_size.symm.trans (hlength.symm.trans hg.length_eq_size)
      omega
    obtain ⟨hopening, hsame, hname, hname', hrow, hdeferred, hsize, hunit⟩ :=
      (of_decide_eq_true halike).resolve_left (· hsizes)
    obtain ⟨hopened, hbehind⟩ :=
      hf.inj hg hsound haddress htext hsame (hname'.trans hname.symm) hrow
    obtain ⟨page, d, hpage, hthree⟩ := exists_page_of_opens hopening hf.reads.opens
    have hnone : r.behind = [] := by
      have hread := hf.reads.length.trans hsize
      rw [Reading.bytes, hthree] at hread
      simpa using hread
    have hcells : f.row.flatMap Piece.cells ≠ [] := by
      intro hnil
      have hdigits := List.flatMap_eq_nil_iff.mp hnil .deferred hdeferred
      cases hdigits
    refine ⟨?_, page, d, r.unit, r'.unit, hpage, ?_, ?_, ?_⟩
    · rw [hf.text_eq hsound hcells, hname]
      exact List.prefix_append _ _
    · rw [hf.raw, Reading.bytes, hthree, hnone]
      rfl
    · rw [hg.raw, Reading.bytes, hopened, hbehind, hthree, hnone]
      rfl
    · rw [hf.reads.unit, hg.reads.unit, hunit]

/-- Two tests of the same bit, from different bytes. -/
theorem raw_eq_or_bit_of_text_indexed :
    let c₁ := Cursor.start ⟨.byte, .little, 4⟩ [0xFD, 0xCB, 0xFB, 0x7E] 0x8000
    let c₂ := Cursor.start ⟨.byte, .little, 4⟩ [0xFD, 0xCB, 0xFB, 0x79, 0xC9] 0x8000
    ∃ i₁ i₂, (decode arch true c₁ {}).result = .ok i₁ ∧ (decode arch true c₂ {}).result = .ok i₂ ∧
      i₁.text = "BIT     7, (IY-$05)" ∧ i₂.text = i₁.text ∧ i₂.length = i₁.length ∧
      i₂.raw ≠ i₁.raw ∧
      ∃ page d b₁ b₂ : UInt8, i₁.raw = [page, 0xCB, d, b₁] ∧ i₂.raw = [page, 0xCB, d, b₂] ∧
        b₁.toNat / 8 = b₂.toNat / 8 := by
  intro c₁ c₂
  have h₁ : (decode arch true c₁ {}).result =
      .ok ⟨"BIT     7, (IY-$05)", 0x8000, 0x8004, [0xFD, 0xCB, 0xFB, 0x7E], true⟩ := by
        decide +kernel
  have h₂ : (decode arch true c₂ {}).result =
      .ok ⟨"BIT     7, (IY-$05)", 0x8000, 0x8004, [0xFD, 0xCB, 0xFB, 0x79], true⟩ := by
        decide +kernel
  have hraw : ([0xFD, 0xCB, 0xFB, 0x79] : List UInt8) ≠ [0xFD, 0xCB, 0xFB, 0x7E] := by decide
  obtain hsame | ⟨-, page, d, b₁, b₂, -, hbits⟩ :=
    raw_eq_or_bit_of_text true true c₁ c₂ {} {} _ _ rfl rfl rfl rfl rfl h₁ h₂ rfl rfl rfl rfl
  · exact absurd hsame hraw
  · exact ⟨_, _, h₁, h₂, rfl, rfl, rfl, hraw, page, d, b₁, b₂, hbits⟩

end Z80

end Disassembler
