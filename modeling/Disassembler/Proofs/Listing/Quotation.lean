import Disassembler.Proofs.Listing.Strings
import Disassembler.Proofs.Plan.Steps

/-!
Quoted strings that look the same. In a row of strings a byte that can be printed stands for itself,
and any other is written as a backslash and its two digits. A backslash stands for itself too, so
that three bytes may look like the one that they spell. This is the only way in which different runs
look the same: reading the text, with each escape as the byte that it writes, gives the same for two
runs exactly if their rows are the same.
-/

namespace Disassembler

/-! ## Segments of strings -/

/-- In some segment of strings, a run of bytes is shown by a row with this text behind its
margin. -/
def Listing.Quotes (l : Listing) (width : Int) (run : List UInt8) (text : List Char) : Prop :=
  ∃ stop s, ∃ row ∈ (l.scan .strings stop s).rows,
    row.body = .string run ∧ Row.behindMargin (row.text width).toList = text

/-- Every run without a terminator is shown, as one text whatever the place. -/
theorem Listing.quotes_iff (l : Listing) (width : Int) (run : List UInt8) (text : List Char) :
    l.Quotes width run text ↔ l.plan.terminator ∉ run ∧ text = (Row.stringText run).toList := by
  have htext : ∀ row : Row, row.body = .string run →
      Row.behindMargin (row.text width).toList = (Row.stringText run).toList := by
    intro row hbody
    rw [Row.text, hbody]
    exact Row.behindMargin_margin _ _
  constructor
  · rintro ⟨stop, s, row, hrow, hbody, rfl⟩
    have hrows := scan_stringRows l stop s
    have hmem : row.body ∈ (cutAt l.plan.terminator (s.cursor.before stop)).map .string :=
      hrows.map_body ▸ List.mem_map_of_mem hrow
    obtain ⟨other, hother, hsame⟩ := List.mem_map.mp (hbody ▸ hmem)
    cases hsame
    exact ⟨hrows.notMem_run run hother, htext row hbody⟩
  · rintro ⟨hrun, rfl⟩
    -- The run alone, with a terminator behind it, is a segment of one row.
    let s : Spot := ⟨Cursor.start ⟨.byte, .little, 1⟩ (run ++ [l.plan.terminator]) 0, {}⟩
    have hcut : cutAt l.plan.terminator (s.cursor.before none) = [run] := cutAt_append_cons hrun []
    have hbodies := (scan_stringRows l none s).map_body
    have hmem : RowBody.string run ∈ (l.scan .strings none s).rows.map (·.body) := by
      rw [hbodies, hcut]
      exact List.mem_cons_self
    obtain ⟨row, hrow, hbody⟩ := List.mem_map.mp hmem
    exact ⟨none, s, row, hrow, hbody, htext row hbody⟩

/-- When runs of bytes are shown as the same text. For every terminator: the runs that a segment of
strings can show are those without a terminator. If one of them is shown as some text, another is
shown as this text exactly if the two say the same, each escape being read as the byte that it
writes. Bytes say themselves exactly if no part of them looks like an escape, so that of such runs
no two are shown alike. In all, runs that are shown alike are equal exactly if the terminator is the
backslash itself. -/
theorem quotes_unambiguous_iff (l : Listing) (width : Int) :
    let t := l.plan.terminator
    (∀ run, (∃ text, l.Quotes width run text) ↔ t ∉ run) ∧
    (∀ r q text, l.Quotes width r text →
      (l.Quotes width q text ↔ t ∉ q ∧ Row.asWritten q = Row.asWritten r)) ∧
    (∀ run, Row.asWritten run = run ↔ ¬ Row.Spells run) ∧
    (∀ r q text, l.Quotes width r text → l.Quotes width q text → ¬ Row.Spells r →
      ¬ Row.Spells q → r = q) ∧
    ((∀ r q text, l.Quotes width r text → l.Quotes width q text → r = q) ↔ t = 0x5C) := by
  intro t
  have hsame : ∀ r q text, l.Quotes width r text →
      (l.Quotes width q text ↔ t ∉ q ∧ Row.asWritten q = Row.asWritten r) := by
    intro r q text hr
    obtain ⟨-, rfl⟩ := (l.quotes_iff width r text).mp hr
    rw [Listing.quotes_iff, Row.toList_stringText_inj, Row.flatMap_stringCell_eq_iff, eq_comm]
  have hplain : ∀ r q text, l.Quotes width r text → l.Quotes width q text → ¬ Row.Spells r →
      ¬ Row.Spells q →
      r = q := by
    intro r q text hr hq hrSpells hqSpells
    have hsaid := ((hsame r q text hr).mp hq).2
    rw [(Row.asWritten_eq_self_iff q).mpr hqSpells,
      (Row.asWritten_eq_self_iff r).mpr hrSpells] at hsaid
    exact hsaid.symm
  refine ⟨fun run => ?_, hsame, Row.asWritten_eq_self_iff, hplain, ?_, ?_⟩
  · simp only [Listing.quotes_iff, exists_and_left, exists_eq, and_true]
    rfl
  · intro hall
    -- Only the terminator can keep a byte and its spelling from being shown alike, so that it is
    -- one of these bytes. Two bytes and their spellings have nothing but the backslash in common.
    have hspelling : ∀ digit b : UInt8, Row.asWritten [b] = Row.asWritten [0x5C, digit, digit] →
        t ∈ [0x5C, digit, digit] ∨ t ∈ [b] := by
      intro digit b hsaid
      refine Decidable.byContradiction fun hnot => ?_
      obtain ⟨hdigits, hb⟩ := not_or.mp hnot
      have hquotes := (l.quotes_iff width [0x5C, digit, digit] _).mpr ⟨hdigits, rfl⟩
      cases hall _ [b] _ hquotes ((hsame _ [b] _ hquotes).mpr ⟨hb, hsaid⟩)
    have hfirst := hspelling 0x38 0x88 (by decide)
    have hsecond := hspelling 0x39 0x99 (by decide)
    simp only [List.mem_cons, List.not_mem_nil, or_false] at hfirst hsecond
    rcases hsecond with (h | h | h) | h
    · exact h
    all_goals
      rw [h] at hfirst
      exact absurd hfirst (by decide)
  · intro ht r q text hr hq
    have hspells : ∀ run, l.Quotes width run text → ¬ Row.Spells run := fun run hrun =>
      Row.not_spells_of_notMem (ht ▸ ((l.quotes_iff width run text).mp hrun).1)
    exact hplain r q text hr hq (hspells r hr) (hspells q hq)

/-- A backslash and two digits before one terminator, and the byte that they spell before the
next. -/
theorem quotes_backslashDigits :
    let files : Files := fun _ => .ok "f rom.bin\nt24\ns8000\n".toUTF8.toList
    let main := Path.ofString "rom.lst"
    let plan : Plan := {
      inputFile := some (.ofString "rom.bin")
      terminator := 0x24
      segments := [⟨0x8000, .strings, none⟩]
      sources := [main] }
    let loading := (load files main {}).2
    let image : List UInt8 := [0x5C, 0x30, 0x30, 0x24, 0x00, 0x24]
    let l : Listing := { arch := Mos6502.arch, plan }
    let w : Writer := { spot := ⟨Cursor.start ⟨.byte, .little, 3⟩ image 0x8000, loading.symbols⟩ }
    let rows := (l.scan .strings none w.spot).rows
    load files main {} = (.ok plan, loading) ∧ l.writer image loading.symbols = .ok w ∧
    (w.render l).1.isOk = true ∧
      rows.map (·.body) = [.string [0x5C, 0x30, 0x30], .string [0x00]] ∧
      rows.map (Row.text 3) = ["    8000:    DB      '\\00'", "    8004:    DB      '\\00'"] ∧
      ∃ text, l.Quotes 3 [0x5C, 0x30, 0x30] text ∧ l.Quotes 3 [0x00] text := by
  intro files main plan loading image l w rows
  have hload : load files main {} = (.ok plan, loading) := load_eq_ok (by decide +kernel)
  have hbodies : rows.map (·.body) = [.string [0x5C, 0x30, 0x30], .string [0x00]] := by
    decide +kernel
  have htexts : rows.map (Row.text 3) = ["    8000:    DB      '\\00'",
    "    8004:    DB      '\\00'"] := by
    decide +kernel
  refine ⟨hload, rfl, by decide +kernel, hbodies, htexts, _,
    (l.quotes_iff 3 _ _).mpr ⟨by decide, rfl⟩, ?_⟩
  exact (l.quotes_iff 3 _ _).mpr ⟨by decide, by decide +kernel⟩

end Disassembler
