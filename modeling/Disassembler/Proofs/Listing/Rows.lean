import Disassembler.Proofs.Decoder.Sweep
import Disassembler.Proofs.Listing.Pass

/-!
Reading rows off the image. A row shows the bytes at the cursor, which moves on by as many bytes;
rows of one sort therefore lie side by side up to the address that they go up to, and so do those of
all segments.
-/

namespace Disassembler

/-- The words that a run of bytes stands for; an odd byte at the end is left over. -/
def ByteOrder.words (order : ByteOrder) : List UInt8 → List Nat
  | a :: b :: bytes => order.value [a, b] :: order.words bytes
  | _ => []

/-- What a body has to do with the bytes of its row, which lie at an offset of an image. -/
def RowBody.Shows (l : Listing) (image : List UInt8) (load : Int) (layout : Layout) (offset : Nat)
    (bytes : List UInt8) : RowBody → Prop
  | .code i =>
    i.Read image load layout offset bytes.length ∧
      ∃ cursor symbols, cursor.At image load layout offset ∧
        (decode l.arch l.balance cursor symbols).result = .ok i
  | .bytes => True
  | .string run => l.plan.terminator ∉ run ∧ (bytes = run ∨ bytes = run ++ [l.plan.terminator])
  | .words values => bytes.length = 2 * values.length ∧ values = layout.order.words bytes
  | .vector shown =>
    bytes.length = 2 ∧ ∃ symbols : SymbolTable,
      symbols.format (layout.order.value bytes) = .ok shown
  | .chars => True

def RowBody.kind : RowBody → RowKind
  | .code _ => .code
  | .bytes => .bytes
  | .string _ => .strings
  | .words _ => .words
  | .vector _ => .vectors
  | .chars => .chars

/-- The row shows the bytes at an offset of an image that is loaded at an address. -/
structure Row.Read (l : Listing) (image : List UInt8) (load : Int) (layout : Layout) (offset : Nat)
    (row : Row) : Prop where
  address : row.address = load + offset
  bytes : row.bytes = (image.drop offset).take row.bytes.length
  positive : 0 < row.bytes.length
  inside : offset + row.bytes.length ≤ image.length
  body : row.body.Shows l image load layout offset row.bytes

def Spot.skip (n : Nat) (s : Spot) : Spot := { s with cursor := s.cursor.advance n }

section

variable {l : Listing} {image : List UInt8} {load : Int} {layout : Layout} {offset : Nat}

/-! ## From one place to another -/

/-- Between two places lie the bytes of the image. -/
theorem Spot.upTo_at {s t : Spot} {size : Nat} (hs : s.cursor.At image load layout offset)
    (ht : t.cursor.At image load layout (offset + size)) :
    s.upTo t = (image.drop offset).take size ∧ (s.upTo t).length = size := by
  have hinside := ht.inside
  have hsize : s.cursor.rest.length - t.cursor.rest.length = size := by
    rw [hs.length_rest, ht.length_rest]
    omega
  rw [Spot.upTo, hsize, hs.rest]
  refine ⟨rfl, ?_⟩
  rw [List.length_take, List.length_drop]
  omega

namespace Listing

/-- A row from one place to a later one shows the bytes between them, if its body does. -/
theorem rowTo_read {s t : Spot} {size : Nat} {body : RowBody}
    (hs : s.cursor.At image load layout offset) (ht : t.cursor.At image load layout (offset + size))
    (hpositive : 0 < size)
    (hbody : body.Shows l image load layout offset ((image.drop offset).take size)) :
    (rowTo s t body).Read l image load layout offset ∧
      t.cursor.At image load layout (offset + (rowTo s t body).bytes.length) := by
  obtain ⟨hbytes, hlength⟩ := Spot.upTo_at hs ht
  have hsize : (rowTo s t body).bytes.length = size := hlength
  refine ⟨⟨hs.addr, ?_, by omega, ?_, ?_⟩, hsize.symm ▸ ht⟩
  · rw [hsize]
    exact hbytes
  · rw [hsize]
    exact ht.inside
  · show body.Shows l image load layout offset (s.upTo t)
    rw [hbytes]
    exact hbody

/-! ## Reading loops -/

theorem length_rest_skip (n : Nat) (s : Spot) :
    (s.skip n).cursor.rest.length = s.cursor.rest.length - n := by
  simp [Spot.skip, Cursor.advance]

/-- In front of an address where there is input, there is a byte to take. -/
theorem before_pos {stop : Option Int} {s : Spot} (h : s.more stop = true) :
    0 < (s.cursor.before stop).length ∧ 0 < s.cursor.rest.length := by
  unfold Spot.more at h
  simp only [Bool.and_eq_true, Bool.not_eq_true', Cursor.atEnd, List.isEmpty_eq_false_iff] at h
  have hr : 0 < s.cursor.rest.length := List.length_pos_iff.2 h.1
  refine ⟨?_, hr⟩
  cases stop with
  | none => exact hr
  | some stop =>
      have hs : s.cursor.addr < stop := by simpa using h.2
      simp only [Cursor.before, List.length_take]
      omega

theorem length_before_le (c : Cursor) (stop : Option Int) :
    (c.before stop).length ≤ c.rest.length := by
  cases stop with
  | none => exact Nat.le_refl _
  | some stop => exact List.length_take_le' _ _

theorem take_before (c : Cursor) (stop : Option Int) {n : Nat} (hn : n ≤ (c.before stop).length) :
    c.rest.take n = (c.before stop).take n := by
  cases stop with
  | none => rfl
  | some stop =>
    simp only [Cursor.before, List.length_take] at hn ⊢
    rw [List.take_take, Nat.min_eq_left (by omega)]

theorem before_skip (stop : Option Int) (s : Spot) (n : Nat) :
    (s.skip n).cursor.before stop = (s.cursor.before stop).drop n := by
  cases stop with
  | none => rfl
  | some a =>
    have hcount : (a - (s.cursor.addr + n)).toNat = (a - s.cursor.addr).toNat - n := by omega
    simp only [Cursor.before, Spot.skip, Cursor.advance, hcount, List.drop_take]

theorem before_eq_nil {stop : Option Int} {s : Spot} (h : s.more stop = false) :
    s.cursor.before stop = [] := by
  simp only [Spot.more, Bool.and_eq_false_iff, Bool.not_eq_false', Cursor.atEnd,
    List.isEmpty_iff] at h
  cases stop with
  | none => exact h.resolve_right (by simp)
  | some a =>
    rcases h with hrest | hle
    · simp only [Cursor.before, hrest, List.take_nil]
    · have hcount : (a - s.cursor.addr).toNat = 0 := by
        have : ¬ s.cursor.addr < a := by simpa using hle
        omega
      simp only [Cursor.before, hcount, List.take_zero]

theorem skip_skip (s : Spot) (m n : Nat) : (s.skip m).skip n = s.skip (m + n) := by
  rw [Spot.skip, Spot.skip, Spot.skip, Cursor.advance_advance]

theorem skip_zero (s : Spot) : s.skip 0 = s := by
  rw [Spot.skip, Cursor.advance_zero]

/-- Where there is input in front of an address, a byte can be read, and it is the first one
there. -/
theorem exists_before {stop : Option Int} {s : Spot} (hm : s.more stop = true) :
    ∃ b bytes, s.cursor.before stop = b :: bytes ∧ (s.skip 1).cursor.before stop = bytes ∧
      Spot.readByte s = .ok b (s.skip 1) := by
  obtain ⟨hbefore, hrest⟩ := before_pos hm
  obtain ⟨b, bytes, hbytes⟩ := List.exists_cons_of_length_pos hbefore
  have htake : s.cursor.rest.take 1 = [b] := by
    rw [take_before s.cursor stop hbefore, hbytes]
    rfl
  have hvalue : s.cursor.layout.order.value [b] = b.toNat := by
    cases s.cursor.layout.order <;> simp [ByteOrder.value]
  have hread : Cursor.readByte s.cursor = .ok b.toNat (s.cursor.advance 1) := by
    change EStateM.map s.cursor.layout.order.value (Cursor.take 1) s.cursor = _
    rw [EStateM.map, Cursor.take_of_le hrest, htake]
    simp only [hvalue]
  refine ⟨b, bytes, hbytes, by rw [before_skip, hbytes]; rfl, ?_⟩
  simp only [Spot.readByte, hread, UInt8.ofNat_toNat]
  rfl

/-- The loop that reads bytes takes them one by one: as many as it may, or all that there are. -/
theorem readBytes_eq (stop : Option Int) (n : Nat) (s : Spot) :
    Spot.readBytes stop n s =
      .ok ((s.cursor.before stop).take n) (s.skip (min n (s.cursor.before stop).length)) := by
  unfold Spot.readBytes
  induction n generalizing s with
  | zero => rw [Nat.zero_min, skip_zero, List.take_zero]; rfl
  | succ n ih =>
    cases hm : s.more stop with
    | true =>
      obtain ⟨b, bytes, hbytes, hrest, hread⟩ := exists_before hm
      rw [readUpTo_of_more hm, Action.bind_of_ok _ hread, Action.bind_of_ok _ (ih (s.skip 1)),
        hrest, hbytes, skip_skip,
        List.length_cons, Nat.add_min_add_right, Nat.add_comm 1, List.take_succ_cons]
      rfl
    | false =>
      rw [readUpTo_of_more_eq_false hm, before_eq_nil hm, List.length_nil, Nat.min_zero, skip_zero,
        List.take_nil]

/-- The loop that reads a string stops behind the first terminator, or where the bytes end. -/
theorem readRun_eq (terminator : UInt8) (stop : Option Int) (s : Spot) :
    let run := (s.cursor.before stop).takeWhile (· ≠ terminator)
    Spot.readRun terminator stop s =
      .ok run (s.skip (min (run.length + 1) (s.cursor.before stop).length)) := by
  fun_induction Spot.readRun terminator stop s with
  | case1 s hm fault t hfault =>
    obtain ⟨b, bytes, -, -, hread⟩ := exists_before hm
    cases hread.symm.trans hfault
  | case2 s hm t hread =>
    obtain ⟨b, bytes, hbytes, -, hfirst⟩ := exists_before hm
    cases hfirst.symm.trans hread
    simp [hbytes]
  | case3 s hm b t hread _ hne fault u hfault ih =>
    cases ih.symm.trans hfault
  | case4 s hm b t hread _ hne run u hrun ih =>
    obtain ⟨_, bytes, hbytes, hrest, hfirst⟩ := exists_before hm
    cases hfirst.symm.trans hread
    cases ih.symm.trans hrun
    have htake : (b :: bytes).takeWhile (· ≠ terminator) = b :: bytes.takeWhile (· ≠ terminator) :=
      List.takeWhile_cons_of_pos (by simpa using hne)
    intro run
    rw [hrest, skip_skip, Nat.add_comm 1]
    simp only [run, hbytes, htake, List.length_cons, Nat.add_min_add_right]
  | case5 s hm =>
    intro run
    rw [before_eq_nil (Bool.eq_false_iff.mpr hm), List.length_nil, Nat.min_zero, skip_zero]
    simp only [run, before_eq_nil (Bool.eq_false_iff.mpr hm), List.takeWhile_nil]

def dataRow (s : Spot) (n : Nat) (body : RowBody) : RowRead :=
  ⟨.ok (rowTo s (s.skip n) body), s.skip n, []⟩

/-- A string ends in front of a terminator, which belongs to the row. -/
def stringRow (l : Listing) (stop : Option Int) (s : Spot) : RowRead :=
  let run := (s.cursor.before stop).takeWhile (· ≠ l.plan.terminator)
  dataRow s (min (run.length + 1) (s.cursor.before stop).length) (.string run)

/-- A row over the next bytes up to an address. -/
theorem rowTo_skip {stop : Option Int} {s : Spot} {n : Nat} (hn : n ≤ (s.cursor.before stop).length)
    (body : RowBody) :
    rowTo s (s.skip n) body = ⟨s.cursor.addr, (s.cursor.before stop).take n, body⟩ := by
  have hle := length_before_le s.cursor stop
  have hcount : s.cursor.rest.length - (s.cursor.rest.length - n) = n := by omega
  rw [rowTo, Spot.upTo, length_rest_skip, hcount, take_before s.cursor stop hn]

theorem bytesRow_eq (s : Spot) (body : RowBody) (stop : Option Int) (n : Nat) :
    bytesRow s body (Spot.readBytes stop n) =
      dataRow s (min n (s.cursor.before stop).length) body := by
  rw [bytesRow, readBytes_eq, dataRow, rowTo_skip (Nat.min_le_right _ _), ← List.take_eq_take_min]

theorem nextRow_bytes (stop : Option Int) (s : Spot) :
    l.nextRow .bytes stop s =
      dataRow s (min Row.bytesPerRow (s.cursor.before stop).length) .bytes :=
  bytesRow_eq s .bytes stop Row.bytesPerRow

theorem nextRow_chars (stop : Option Int) (s : Spot) :
    l.nextRow .chars stop s =
      dataRow s (min Row.itemsPerRow (s.cursor.before stop).length) .chars :=
  bytesRow_eq s .chars stop Row.itemsPerRow

theorem nextRow_strings (stop : Option Int) (s : Spot) :
    l.nextRow .strings stop s = l.stringRow stop s := by
  have hbody : l.stringBody stop s = EStateM.map .string (Spot.readRun l.plan.terminator stop) s :=
    rfl
  simp only [nextRow, bodyRow, hbody, EStateM.map, readRun_eq]
  rfl

/-! ## One row -/

theorem dataRow_at {s : Spot} {n : Nat} {body : RowBody} {row : Row}
    (hs : s.cursor.At image load layout offset) (hpositive : 0 < n) (hn : n ≤ s.cursor.rest.length)
    (hbody : body.Shows l image load layout offset ((image.drop offset).take n))
    (h : (dataRow s n body).result = .ok row) :
    row.Read l image load layout offset ∧
      (dataRow s n body).spot.cursor.At image load layout (offset + row.bytes.length) := by
  cases h
  exact rowTo_read hs (hs.advance hn) hpositive hbody

theorem codeRow_ok {s : Spot} {row : Row} (h : (l.codeRow s).result = .ok row) :
    ∃ i, (decode l.arch l.balance s.cursor s.symbols).result = .ok i ∧
      row = rowTo s (l.codeRow s).spot (.code i) := by
  obtain ⟨i, hi, h⟩ := Fault.bind_eq_ok h
  obtain ⟨_, -, h⟩ := Fault.bind_eq_ok h
  cases h
  exact ⟨i, hi, rfl⟩

theorem codeRow_at {s : Spot} {row : Row} (hs : s.cursor.At image load layout offset)
    (h : (l.codeRow s).result = .ok row) :
    row.Read l image load layout offset ∧
      (l.codeRow s).spot.cursor.At image load layout (offset + row.bytes.length) := by
  obtain ⟨i, hi, rfl⟩ := codeRow_ok h
  obtain ⟨size, hread, ht⟩ := decode_at hs hi
  have hunit := hread.unit
  have hinside := hread.inside
  have hwidth : 0 < layout.width.size := by cases layout.width <;> decide
  have hsize : ((image.drop offset).take size).length = size := by
    rw [List.length_take, List.length_drop]
    omega
  refine rowTo_read hs ht (by omega) ⟨?_, s.cursor, s.symbols, hs, hi⟩
  rw [hsize]
  exact hread

/-- A run and what ends it, if there is something behind the run. -/
theorem take_takeWhile (p : UInt8 → Bool) (bytes : List UInt8) :
    bytes.take (min ((bytes.takeWhile p).length + 1) bytes.length) = bytes.takeWhile p ∨
      ∃ x, p x = false ∧
        bytes.take (min ((bytes.takeWhile p).length + 1) bytes.length) =
          bytes.takeWhile p ++ [x] := by
  induction bytes with
  | nil => exact .inl rfl
  | cons b bytes ih =>
    by_cases hb : p b = true
    · rw [List.takeWhile_cons_of_pos hb]
      simp only [List.length_cons, Nat.add_min_add_right, List.take_succ_cons]
      rcases ih with ih | ⟨x, hx, ih⟩
      · exact .inl (by rw [ih])
      · exact .inr ⟨x, hx, by rw [ih, List.cons_append]⟩
    · rw [List.takeWhile_cons_of_neg hb]
      exact .inr ⟨b, Bool.eq_false_iff.mpr hb, by simp⟩

theorem stringRow_at {stop : Option Int} {s : Spot} {row : Row}
    (hs : s.cursor.At image load layout offset) (hm : s.more stop = true)
    (h : (l.stringRow stop s).result = .ok row) :
    row.Read l image load layout offset ∧
      (l.stringRow stop s).spot.cursor.At image load layout (offset + row.bytes.length) := by
  have hb := before_pos hm
  have hle := length_before_le s.cursor stop
  refine dataRow_at hs (by omega) (by omega) ⟨?_, ?_⟩ h
  · intro hmem
    simpa using List.all_eq_true.mp List.all_takeWhile _ hmem
  · rw [← hs.rest, take_before s.cursor stop (Nat.min_le_right _ _)]
    rcases take_takeWhile (· ≠ l.plan.terminator) (s.cursor.before stop) with hrun | ⟨x, hx, hrun⟩
    · exact .inl hrun
    · have hx : x = l.plan.terminator := by simpa using hx
      exact .inr (hx ▸ hrun)

theorem readWord_at {s t : Spot} {value : Nat} (hs : s.cursor.At image load layout offset)
    (h : Spot.readWord s = .ok value t) :
    t.cursor.At image load layout (offset + 2) ∧ ((image.drop offset).take 2).length = 2 ∧
      value = layout.order.value ((image.drop offset).take 2) := by
  obtain ⟨ht, hlength⟩ := readWord_rest h
  refine ⟨ht ▸ hs.advance hlength, ?_, ?_⟩
  · rw [← hs.rest, List.length_take]
    omega
  · rw [(Spot.readWord_eq_ok h).2.1, hs.layout, hs.rest]

theorem words_two_append {order : ByteOrder} {pair : List UInt8} (hpair : pair.length = 2)
    (bytes : List UInt8) : order.words (pair ++ bytes) = order.value pair :: order.words bytes := by
  obtain ⟨a, b, rfl⟩ := List.length_eq_two.mp hpair
  rfl

theorem readWords_at {stop : Option Int} {n : Nat} {s t : Spot} {values : List Nat}
    (hs : s.cursor.At image load layout offset) (h : Spot.readWords stop n s = .ok values t) :
    t.cursor.At image load layout (offset + 2 * values.length) ∧
      values = layout.order.words ((image.drop offset).take (2 * values.length)) := by
  induction n generalizing s values offset with
  | zero =>
    cases h
    exact ⟨hs, rfl⟩
  | succ n ih =>
    by_cases hm : s.more stop = true
    · obtain ⟨w, u, ws, hw, hws, rfl⟩ := readUpTo_succ hm h
      obtain ⟨hu, hpair, hvalue⟩ := readWord_at hs hw
      obtain ⟨ht, hwords⟩ := ih hu hws
      have hsplit : 2 * (w :: ws).length = 2 + 2 * ws.length := by
        rw [List.length_cons]
        omega
      refine ⟨by rw [hsplit, ← Nat.add_assoc]; exact ht, ?_⟩
      rw [hsplit, List.take_add, List.drop_drop, words_two_append hpair, ← hvalue, ← hwords]
    · rw [Spot.readWords, readUpTo_of_more_eq_false (Bool.eq_false_iff.mpr hm)] at h
      cases h
      exact ⟨hs, rfl⟩

/-- A row of a word shows how the symbols lay it out once its reference has been noted. -/
theorem vectorRow_ok {stop : Option Int} {s : Spot} {row : Row}
    (h : (l.nextRow .vectors stop s).result = .ok row) :
    ∃ value shown, Spot.readWord s = .ok value (l.nextRow .vectors stop s).spot ∧
      (l.nextRow .vectors stop s).spot.symbols.format value = .ok shown ∧
      row = rowTo s (l.nextRow .vectors stop s).spot (.vector shown) := by
  obtain ⟨body, hbody, hrow⟩ := bodyRow_ok h
  obtain ⟨value, u, hvalue, hbody⟩ := Action.bind_eq_ok hbody
  obtain ⟨shown, hshown, rfl⟩ := Action.map_eq_ok hbody
  have hspot : (l.nextRow .vectors stop s).spot = u := Action.state_of_lift hshown
  refine ⟨value, shown, hspot ▸ hvalue, ?_, hrow⟩
  rw [hspot]
  cases hformat : u.symbols.format value with
  | error fault =>
    simp only [hformat, Action.lift] at hshown
    cases hshown
  | ok text =>
    simp only [hformat, Action.lift] at hshown
    cases hshown
    rfl

/-- One step of a listing: the row shows what is at the cursor, which moves on by the bytes of the
row. -/
theorem nextRow_at {kind : RowKind} {stop : Option Int} {s : Spot} {row : Row}
    (hs : s.cursor.At image load layout offset) (hm : s.more stop = true)
    (h : (l.nextRow kind stop s).result = .ok row) :
    row.Read l image load layout offset ∧
      (l.nextRow kind stop s).spot.cursor.At image load layout (offset + row.bytes.length) := by
  have hb := before_pos hm
  have hle := length_before_le s.cursor stop
  cases kind with
  | code => exact codeRow_at hs h
  | bytes =>
    rw [nextRow_bytes] at h ⊢
    exact dataRow_at hs (by simp only [Row.bytesPerRow]; omega) (by omega) trivial h
  | strings =>
    rw [nextRow_strings] at h ⊢
    exact stringRow_at hs hm h
  | words =>
    obtain ⟨body, hr, rfl⟩ := bodyRow_ok h
    have hshorter := wordsBody_shortens hm hr
    obtain ⟨values, hvalues, rfl⟩ := Action.map_eq_ok hr
    obtain ⟨ht, hwords⟩ := readWords_at hs hvalues
    have hinside := ht.inside
    rw [hs.length_rest, ht.length_rest] at hshorter
    refine rowTo_read hs ht (by omega) ⟨?_, hwords⟩
    rw [List.length_take, List.length_drop]
    omega
  | vectors =>
    obtain ⟨value, shown, hvalue, hformat, rfl⟩ := vectorRow_ok h
    obtain ⟨ht, hpair, rfl⟩ := readWord_at hs hvalue
    exact rowTo_read hs ht (by omega) ⟨hpair, _, hformat⟩
  | chars =>
    rw [nextRow_chars] at h ⊢
    exact dataRow_at hs (by simp only [Row.itemsPerRow]; omega) (by omega) trivial h

/-- A row stands where it was begun, and it has a body of the sort that it was read as. -/
theorem nextRow_ok {kind : RowKind} {stop : Option Int} {s : Spot} {row : Row}
    (h : (l.nextRow kind stop s).result = .ok row) :
    ∃ body, row = rowTo s (l.nextRow kind stop s).spot body ∧ body.kind = kind := by
  cases kind with
  | code =>
    obtain ⟨i, -, hrow⟩ := codeRow_ok h
    exact ⟨.code i, hrow, rfl⟩
  | bytes =>
    rw [nextRow_bytes] at h ⊢
    cases h
    exact ⟨.bytes, rfl, rfl⟩
  | strings =>
    rw [nextRow_strings] at h ⊢
    cases h
    exact ⟨.string _, rfl, rfl⟩
  | words =>
    obtain ⟨body, hbody, hrow⟩ := bodyRow_ok h
    obtain ⟨values, -, rfl⟩ := Action.map_eq_ok hbody
    exact ⟨.words values, hrow, rfl⟩
  | vectors =>
    obtain ⟨-, shown, -, -, hrow⟩ := vectorRow_ok h
    exact ⟨.vector shown, hrow, rfl⟩
  | chars =>
    rw [nextRow_chars] at h ⊢
    cases h
    exact ⟨.chars, rfl, rfl⟩

theorem kind_of_nextRow {kind : RowKind} {stop : Option Int} {s : Spot} {row : Row}
    (h : (l.nextRow kind stop s).result = .ok row) : row.body.kind = kind := by
  obtain ⟨body, rfl, hkind⟩ := nextRow_ok h
  exact hkind

end Listing

/-! ## Rows side by side -/

/-- Rows that have been read one after another, from one offset of an image to another. -/
inductive RowTiles (l : Listing) (image : List UInt8) (load : Int) (layout : Layout) :
    Nat → List Row → Nat → Prop
  | nil {offset : Nat} : RowTiles l image load layout offset [] offset
  | cons {offset stop : Nat} {row : Row} {rows : List Row}
      (hread : row.Read l image load layout offset)
      (hrest : RowTiles l image load layout (offset + row.bytes.length) rows stop) :
      RowTiles l image load layout offset (row :: rows) stop

namespace RowTiles

variable {stop last : Nat} {rows more : List Row}

theorem append (h : RowTiles l image load layout offset rows stop)
    (hmore : RowTiles l image load layout stop more last) :
    RowTiles l image load layout offset (rows ++ more) last := by
  induction h with
  | nil => exact hmore
  | cons hread _ ih => exact .cons hread (ih hmore)

theorem read (h : RowTiles l image load layout offset rows stop) :
    ∀ row ∈ rows, ∃ n, row.Read l image load layout n := by
  induction h with
  | nil => simp
  | cons hread _ ih =>
    intro row hrow
    rcases List.mem_cons.mp hrow with rfl | hrow
    · exact ⟨_, hread⟩
    · exact ih row hrow

theorem length_bytes (h : RowTiles l image load layout offset rows stop) :
    offset + (rows.flatMap (·.bytes)).length = stop := by
  induction h with
  | nil => rfl
  | cons hread _ ih =>
    rw [List.flatMap_cons, List.length_append]
    omega

end RowTiles

namespace Listing

theorem more_eq_false_iff {stop : Option Int} {s : Spot}
    (hs : s.cursor.At image load layout offset) :
    s.more stop = false ↔ offset = image.length ∨ ∃ a, stop = some a ∧ a ≤ load + offset := by
  have hinside := hs.inside
  have hend : s.cursor.atEnd = true ↔ offset = image.length := by
    rw [Cursor.atEnd, hs.rest, List.isEmpty_iff, List.drop_eq_nil_iff]
    omega
  cases stop with
  | none => simp [Spot.more, hend]
  | some a =>
    simp only [Spot.more, hs.addr, Option.all_some, Bool.and_eq_false_iff, Bool.not_eq_false', hend,
      decide_eq_false_iff_not, Int.not_lt, Option.some.injEq, exists_eq_left']

theorem addr_lt_of_more {a : Int} {s : Spot} (hm : s.more (some a) = true) : s.cursor.addr < a := by
  unfold Spot.more at hm
  simpa using (Bool.and_eq_true_iff.mp hm).2

/-! ## Stretches of rows -/

/-- Where a stretch of rows has been read without a fault, they lie side by side, none of them
begins at or behind the address that they go up to, and the last one reaches it or the end of the
image. -/
theorem scan_tiles {kind : RowKind} {stop : Option Int} {s : Spot}
    (hs : s.cursor.At image load layout offset) (hfault : (l.scan kind stop s).fault = none) :
    ∃ last, RowTiles l image load layout offset (l.scan kind stop s).rows last ∧
      (l.scan kind stop s).spot.cursor.At image load layout last ∧
      (l.scan kind stop s).spot.more stop = false ∧
      ∀ a, stop = some a → ∀ row ∈ (l.scan kind stop s).rows, row.address < a := by
  fun_induction Listing.scan l kind stop s generalizing offset with
  | case1 s hm r fault => cases hfault
  | case2 s hm r row h _ =>
    rename_i ih
    obtain ⟨hread, hnext⟩ := nextRow_at hs hm h
    obtain ⟨last, htiles, hlast, hdone, hbefore⟩ := ih hnext hfault
    refine ⟨last, .cons hread htiles, hlast, hdone, fun a ha row' hrow' => ?_⟩
    rcases List.mem_cons.mp hrow' with rfl | hrow'
    · rw [hread.address, ← hs.addr]
      exact addr_lt_of_more (ha ▸ hm)
    · exact hbefore a ha row' hrow'
  | case3 s hm =>
    exact ⟨offset, .nil, hs, Bool.eq_false_iff.mpr hm,
      fun _ _ _ hrow => absurd hrow List.not_mem_nil⟩

end Listing

end

end Disassembler
