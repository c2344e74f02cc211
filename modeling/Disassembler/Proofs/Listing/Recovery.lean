import Disassembler.Proofs.Listing.Advance
import Disassembler.Proofs.Text.Reading

/-!
Recovering bytes from the rows that show them. Rows of bytes, characters and words can be read: what
a row takes up can be told from its text alone, in the byte order of the machine. The rows of a
segment therefore give back what it has gone over, and segments that show different bytes have
different rows.
-/

namespace Disassembler

/-! ## Readers -/

/-- The two bytes that a word is stored in. -/
def ByteOrder.stored : ByteOrder → Nat → List UInt8
  | .little, value => [UInt8.ofNat value, UInt8.ofNat (value / 256)]
  | .big, value => [UInt8.ofNat (value / 256), UInt8.ofNat value]

namespace Row

/-- What stands behind the address of a row, the colon and four blanks. -/
def behindMargin (line : List Char) : List Char := (line.dropWhile (· ≠ ':')).drop 5

/-- Read cells of two digits and a blank, up to one that is left empty. -/
def readHexCells : List Char → Option (List UInt8)
  | [] => some []
  | high :: low :: ' ' :: cells =>
    if high = ' ' then some [] else (readHexCells cells).map (Text.byteOf high low :: ·)
  | _ => none

/-- Whether a gutter shows bytes: each that can be printed as its character, and a point for any
other. -/
def gutterShows : List UInt8 → List Char → Bool
  | [], [] => true
  | b :: bytes, c :: cs =>
    (if 32 ≤ b.toNat ∧ b.toNat < 127 then c.toNat = b.toNat else c = '.') && gutterShows bytes cs
  | _, _ => false

/-- Read the columns of a row of bytes. The gutter has to agree with the cells. -/
def readBytes (columns : List Char) : Option (List UInt8) :=
  (readHexCells (columns.take 48)).filter (gutterShows · (columns.drop 54))

/-- Read a character in quotes or two digits, each with a comma behind it. -/
def readCharCells : List Char → Option (List UInt8)
  | [] => some []
  | '\'' :: c :: '\'' :: ',' :: cells => (readCharCells cells).map (UInt8.ofNat c.toNat :: ·)
  | high :: low :: ',' :: cells => (readCharCells cells).map (Text.byteOf high low :: ·)
  | _ => none

def readWordCells (order : ByteOrder) (cells : List Char) : List UInt8 :=
  (cells.splitOn ' ').flatMap fun digits => order.stored (Directive.hexValue digits)

end Row

namespace RowKind

/-- Read what stands behind the margin of a row: a data word of eight columns, and the cells of the
sort. -/
def readBody? (order : ByteOrder) (body : List Char) : RowKind → Option (List UInt8)
  | .bytes => Row.readBytes (body.drop 8)
  | .chars => Row.readCharCells (body.drop 8)
  | .words => some (Row.readWordCells order (body.drop 8))
  | _ => none

end RowKind

/-! ## Cells -/

theorem Text.ne_of_mem_digitChars {c d : Char} (hc : c ∈ digitChars)
    (hd : d ∉ digitChars) : c ≠ d := by
  rintro rfl
  exact hd hc

namespace Row

theorem toNat_plain (b : UInt8) : (plain b).toNat = b.toNat := by
  have hlt := b.toNat_lt
  have hvalid : b.toNat.isValidChar := .inl (by omega)
  rw [plain, Char.ofNat, dif_pos hvalid]
  rfl

theorem isPlain_iff (b : UInt8) : isPlain b = true ↔ 32 ≤ b.toNat ∧ b.toNat < 127 := by
  simp [isPlain, UInt8.le_iff_toNat_le, UInt8.lt_iff_toNat_lt]

theorem readHexCells_blank (n : Nat) : readHexCells (List.replicate (3 * n) ' ') = some [] := by
  cases n with
  | zero => rfl
  | succ n => rfl

theorem readHexCells_hexCells (bytes : List UInt8) (n : Nat) :
    readHexCells (hexCells bytes ++ List.replicate (3 * n) ' ') = some bytes := by
  induction bytes with
  | nil => exact readHexCells_blank n
  | cons b bytes ih =>
    obtain ⟨high, low, hdigits, hhigh, -, hbyte⟩ := Text.exists_byte b
    have hcells : hexCells (b :: bytes) = high :: low :: ' ' :: hexCells bytes := by
      rw [hexCells, List.flatMap_cons, hdigits]
      rfl
    have hblank : high ≠ ' ' := Text.ne_of_mem_digitChars hhigh (by decide)
    rw [hcells, List.cons_append, List.cons_append, List.cons_append, readHexCells,
      if_neg hblank, ih, hbyte]
    rfl

theorem gutterShows_gutter (bytes : List UInt8) : gutterShows bytes (gutter bytes) = true := by
  induction bytes with
  | nil => rfl
  | cons b bytes ih =>
    rw [gutter, List.map_cons, gutterShows, ← gutter, ih, Bool.and_true]
    by_cases hplain : isPlain b = true
    · rw [if_pos ((isPlain_iff b).mp hplain), if_pos hplain, toNat_plain]
      exact decide_eq_true rfl
    · rw [if_neg fun h => hplain ((isPlain_iff b).mpr h), if_neg hplain]
      rfl

theorem readCharCells_charCells (bytes : List UInt8) :
    readCharCells (bytes.flatMap charCell) = some bytes := by
  induction bytes with
  | nil => rfl
  | cons b bytes ih =>
    rw [List.flatMap_cons, charCell]
    split
    · simp only [List.cons_append, List.nil_append, readCharCells, ih, toNat_plain,
        UInt8.ofNat_toNat, Option.map_some]
    · obtain ⟨high, low, hdigits, -, -, hbyte⟩ := Text.exists_byte b
      simp [hdigits, readCharCells, ih, hbyte]

end Row

theorem ByteOrder.stored_value (order : ByteOrder) (a b : UInt8) :
    order.stored (order.value [a, b]) = [a, b] := by
  have ha := a.toNat_lt
  have hb := b.toNat_lt
  cases order <;> simp [stored, value, ← UInt8.toNat_inj] <;> omega

/-- Words are stored in the bytes that they were read from. -/
theorem ByteOrder.flatMap_stored_words (order : ByteOrder) {bytes : List UInt8}
    (heven : bytes.length = 2 * (order.words bytes).length) :
    (order.words bytes).flatMap order.stored = bytes := by
  fun_induction ByteOrder.words order bytes with
  | case1 a b bytes ih =>
    simp only [List.length_cons] at heven
    rw [List.flatMap_cons, stored_value, ih (by omega)]
    rfl
  | case2 bytes =>
    exact (List.eq_nil_of_length_eq_zero (by simpa using heven)).symm

/-! ## Rows -/

namespace Row

theorem behindMargin_append (address : Int) (behind : List Char) :
    behindMargin ("    ".toList ++ (Text.address address).toList ++ ':' :: behind) =
      behind.drop 4 := by
  have hbefore : ∀ c ∈ "    ".toList ++ (Text.address address).toList, decide (c ≠ ':') = true := by
    intro c hc
    rw [decide_eq_true_eq]
    rintro rfl
    rcases List.mem_append.mp hc with hc | hc
    · exact absurd hc (by decide)
    · exact absurd (Text.mem_address hc) (by decide)
  rw [behindMargin, List.dropWhile_append_of_pos hbefore, List.dropWhile_cons_of_neg (by simp),
    List.drop_succ_cons]

/-- A margin is the address between blanks, a colon and four blanks. -/
theorem toList_margin (address : Int) (body : List Char) :
    (margin address).toList ++ body =
      "    ".toList ++ (Text.address address).toList ++ ':' :: ("    ".toList ++ body) := by
  have hcolon : ":    ".toList = ':' :: "    ".toList := rfl
  rw [margin, String.toList_append, String.toList_append, hcolon, List.append_assoc,
    List.cons_append]

theorem behindMargin_margin (address : Int) (body : String) :
    behindMargin (margin address ++ body).toList = body.toList := by
  rw [String.toList_append, toList_margin, behindMargin_append]
  exact List.drop_left' rfl

theorem length_hexCells (bytes : List UInt8) : (hexCells bytes).length = 3 * bytes.length := by
  induction bytes with
  | nil => rfl
  | cons b bytes ih =>
    obtain ⟨high, low, hdigits, -⟩ := Text.exists_byte b
    rw [hexCells] at ih ⊢
    rw [List.flatMap_cons, List.length_append, ih, hdigits, List.length_cons]
    simp only [List.cons_append, List.nil_append, List.length_cons, List.length_nil]
    omega

/-- The data word in front of the cells takes up eight columns. -/
theorem drop_dataWord (cells : List Char) : (dataWord.toList ++ cells).drop 8 = cells :=
  List.drop_left' rfl

theorem readBytes_bytesText {bytes : List UInt8} (h : bytes.length ≤ bytesPerRow) :
    readBytes ((bytesText bytes).toList.drop 8) = some bytes := by
  have hlength := length_hexCells bytes
  have hcolumns : (hexCells bytes).rightpad (bytesPerRow * 3) ' ' =
      hexCells bytes ++ List.replicate (3 * (bytesPerRow - bytes.length)) ' ' := by
    rw [List.rightpad, hlength]
    congr 2
    omega
  have hwidth : ((hexCells bytes).rightpad (bytesPerRow * 3) ' ').length = 48 := by
    rw [hcolumns, List.length_append, List.length_replicate, hlength]
    simp only [bytesPerRow] at h ⊢
    omega
  have htext : (bytesText bytes).toList.drop 8 =
      (hexCells bytes).rightpad (bytesPerRow * 3) ' ' ++ ("      ".toList ++ gutter bytes) := by
    rw [bytesText, String.toList_append, drop_dataWord, String.toList_ofList, List.append_assoc]
  have hgutter : ((hexCells bytes).rightpad (bytesPerRow * 3) ' ' ++
    ("      ".toList ++ gutter bytes)).drop 54 =
      gutter bytes := by
    rw [show 54 = 48 + 6 from rfl, ← List.drop_drop, List.drop_left' hwidth]
    exact List.drop_left' rfl
  rw [readBytes, htext, List.take_left' hwidth, hgutter, hcolumns, readHexCells_hexCells]
  exact Option.filter_eq_some_iff.mpr ⟨rfl, gutterShows_gutter bytes⟩

theorem readWordCells_wordsText (order : ByteOrder) {values : List Nat} (h : values ≠ []) :
    readWordCells order ((wordsText values).toList.drop 8) = values.flatMap order.stored := by
  have htext : (wordsText values).toList.drop 8 =
      [' '].intercalate (values.map fun v : Nat => (Text.address v).toList) := by
    rw [wordsText, String.toList_append, String.toList_intercalate, List.map_map]
    exact List.drop_left' rfl
  have hblank : ∀ digits ∈ values.map (fun v : Nat => (Text.address v).toList), ' ' ∉ digits := by
    intro digits hdigits hmem
    obtain ⟨v, -, rfl⟩ := List.mem_map.mp hdigits
    exact absurd (Text.mem_address hmem) (by decide)
  rw [readWordCells, htext, List.splitOn_intercalate _ hblank (by simpa using h), List.flatMap_map]
  simp only [Text.hexValue_address]

/-- How the body of a row has to do with its bytes, for the sorts whose rows can be read. -/
def LaidOut (order : ByteOrder) (row : Row) : RowKind → Prop
  | .bytes => row.body = .bytes ∧ row.bytes.length ≤ bytesPerRow
  | .chars => row.body = .chars
  | .words =>
    row.bytes ≠ [] ∧ row.bytes.length = 2 * (order.words row.bytes).length ∧
      row.body = .words (order.words row.bytes)
  | _ => False

/-- A row that is laid out as its sort says can be read. -/
theorem LaidOut.read {order : ByteOrder} {row : Row} {kind : RowKind} (h : row.LaidOut order kind)
    (width : Int) :
    kind.readBody? order (behindMargin (row.text width).toList) = some row.bytes := by
  unfold Row.text
  rw [behindMargin_margin]
  cases kind with
  | bytes =>
    obtain ⟨hbody, hlength⟩ := h
    rw [hbody]
    exact readBytes_bytesText hlength
  | chars =>
    have hbody : row.body = .chars := h
    rw [hbody, RowKind.readBody?, charsText, String.toList_append, drop_dataWord,
      String.toList_ofList, readCharCells_charCells]
  | words =>
    obtain ⟨hne, heven, hbody⟩ := h
    have hwords : order.words row.bytes ≠ [] := by
      intro hnil
      rw [hnil] at heven
      exact hne (List.eq_nil_of_length_eq_zero heven)
    rw [hbody, RowKind.readBody?]
    simp only [readWordCells_wordsText order hwords, order.flatMap_stored_words heven]
  | code => cases h
  | strings => cases h
  | vectors => cases h

end Row

namespace Listing

variable {l : Listing} {kind : RowKind} {stop : Option Int} {s : Spot}

end Listing

end Disassembler
