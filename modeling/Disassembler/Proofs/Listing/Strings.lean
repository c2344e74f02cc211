import Disassembler.Proofs.Listing.Printed

/-!
Strings are cut at the terminator. The rows of a segment of strings show the runs between
terminators, in order, each at the address of its first byte or, if it is empty, of the terminator
that ends it. A terminator at the very end closes the last run and opens none. Nothing behind the
end of the segment is read.
-/

namespace Disassembler

/-- The runs of bytes between terminators. A terminator at the end opens no further run. -/
def cutAt (terminator : UInt8) (bytes : List UInt8) : List (List UInt8) :=
  let pieces := bytes.splitOn terminator
  if pieces.getLast? = some [] then pieces.dropLast else pieces

/-- Rows that show bytes from an address on, run by run. All but the last take up a terminator, and
the last may. -/
inductive StringRows (terminator : UInt8) : Int → List UInt8 → List Row → Prop
  | nil {address : Int} : StringRows terminator address [] []
  | last {address : Int} {run : List UInt8} (hrun : terminator ∉ run) (hne : run ≠ []) :
      StringRows terminator address run [⟨address, run, .string run⟩]
  | cons {address : Int} {run rest : List UInt8} {rows : List Row} (hrun : terminator ∉ run)
      (hrest : StringRows terminator (address + (run.length + 1 : Nat)) rest rows) :
      StringRows terminator address (run ++ terminator :: rest)
        (⟨address, run ++ [terminator], .string run⟩ :: rows)

/-! ## Cutting -/

section

variable {t : UInt8}

theorem cutAt_nil : cutAt t [] = [] := rfl

theorem cutAt_of_notMem {run : List UInt8} (hrun : t ∉ run) (hne : run ≠ []) :
    cutAt t run = [run] := by
  simp [cutAt, List.splitOn_eq_singleton hrun, hne]

theorem cutAt_append_cons {run : List UInt8} (hrun : t ∉ run) (rest : List UInt8) :
    cutAt t (run ++ t :: rest) = run :: cutAt t rest := by
  obtain ⟨piece, pieces, hpieces⟩ := List.exists_cons_of_ne_nil (List.splitOn_ne_nil t rest)
  rw [cutAt, cutAt, List.splitOn_append_cons_self_of_not_mem hrun, hpieces, List.getLast?_cons_cons,
    List.dropLast_cons_cons]
  split <;> rfl

example : cutAt 0x0D [0x48, 0x49, 0x0D, 0x0D, 0x4F, 0x4B, 0x0D] =
    [[0x48, 0x49], [], [0x4F, 0x4B]] := by decide

/-- Bytes are one run, or a run and a terminator come before the others. -/
theorem takeWhile_run (t : UInt8) (bytes : List UInt8) :
    bytes.takeWhile (· ≠ t) = bytes ∧ t ∉ bytes ∨
      t ∉ bytes.takeWhile (· ≠ t) ∧ ∃ rest, bytes = bytes.takeWhile (· ≠ t) ++ t :: rest := by
  induction bytes with
  | nil => exact .inl ⟨rfl, List.not_mem_nil⟩
  | cons b bytes ih =>
    by_cases hb : b = t
    · subst hb
      exact .inr ⟨by simp, bytes, by simp⟩
    · have htake : (b :: bytes).takeWhile (· ≠ t) = b :: bytes.takeWhile (· ≠ t) :=
        List.takeWhile_cons_of_pos (by simpa using hb)
      rw [htake]
      rcases ih with ⟨hall, hmem⟩ | ⟨hmem, rest, hrest⟩
      · exact .inl ⟨by rw [hall], List.not_mem_cons_of_ne_of_not_mem (Ne.symm hb) hmem⟩
      · exact .inr ⟨List.not_mem_cons_of_ne_of_not_mem (Ne.symm hb) hmem, rest,
          by rw [List.cons_append, ← hrest]⟩

end

namespace StringRows

variable {t : UInt8} {address : Int} {bytes : List UInt8} {rows : List Row}

/-- The rows show the runs. -/
theorem map_body (h : StringRows t address bytes rows) :
    rows.map (·.body) = (cutAt t bytes).map .string := by
  induction h with
  | nil => rfl
  | last hrun hne =>
    rw [cutAt_of_notMem hrun hne]
    rfl
  | cons hrun _ ih =>
    rw [cutAt_append_cons hrun, List.map_cons, List.map_cons, ih]

theorem notMem_run (h : StringRows t address bytes rows) : ∀ run ∈ cutAt t bytes, t ∉ run := by
  induction h with
  | nil => simp [cutAt_nil]
  | last hrun hne => simpa [cutAt_of_notMem hrun hne] using hrun
  | cons hrun _ ih =>
    rw [cutAt_append_cons hrun]
    intro run hmem
    rcases List.mem_cons.mp hmem with rfl | hmem
    · exact hrun
    · exact ih run hmem

end StringRows

/-! ## Segments of strings -/

namespace Listing

variable {stop : Option Int} {s : Spot}

/-- One row of strings: it shows the run at the cursor, and takes up the terminator behind the run
if there is one. -/
theorem stringRow_stringRows {l : Listing} (hm : s.more stop = true) {rows : List Row}
    (hrest : StringRows l.plan.terminator (l.stringRow stop s).spot.cursor.addr
      ((l.stringRow stop s).spot.cursor.before stop) rows) {row : Row}
        (hrow : (l.stringRow stop s).result = .ok row) :
    StringRows l.plan.terminator s.cursor.addr (s.cursor.before stop) (row :: rows) := by
  have hpos := (before_pos hm).1
  have haddr : ∀ n, (s.skip n).cursor.addr = s.cursor.addr + n := fun _ => rfl
  cases hrow
  simp only [stringRow, dataRow] at hrest ⊢
  rw [haddr, before_skip] at hrest
  rw [rowTo_skip (Nat.min_le_right _ _)]
  generalize s.cursor.before stop = bytes at hrest hpos ⊢
  rcases takeWhile_run l.plan.terminator bytes with ⟨hall, hrun⟩ | ⟨hrun, rest, hbytes⟩
  · rw [hall, Nat.min_eq_right (Nat.le_succ _), List.take_length]
    rw [hall, Nat.min_eq_right (Nat.le_succ _), List.drop_length] at hrest
    rw [List.map_eq_nil_iff.mp hrest.map_body]
    exact .last hrun (List.ne_nil_of_length_pos hpos)
  · generalize bytes.takeWhile (· ≠ l.plan.terminator) = run at hrun hbytes hrest ⊢
    subst hbytes
    have hlength : min (run.length + 1) (run ++ l.plan.terminator :: rest).length =
        run.length + 1 := by
      rw [List.length_append, List.length_cons]
      omega
    rw [hlength] at hrest ⊢
    have hsplit : run ++ l.plan.terminator :: rest = (run ++ [l.plan.terminator]) ++ rest := by simp
    have htaken : (run ++ [l.plan.terminator]).length = run.length + 1 := by simp
    rw [hsplit, List.drop_left' htaken] at hrest
    have hcons := StringRows.cons hrun hrest
    rwa [hsplit, List.take_left' htaken, ← hsplit]

/-- The rows of a segment show its bytes run by run. -/
theorem scan_stringRows (l : Listing) (stop : Option Int) (s : Spot) :
    StringRows l.plan.terminator s.cursor.addr (s.cursor.before stop)
      (l.scan .strings stop s).rows := by
  generalize hkind : RowKind.strings = kind
  fun_induction Listing.scan l kind stop s with
  | case1 s hm r fault hfault =>
    subst hkind
    simp only [r, nextRow_strings] at hfault
    cases hfault
  | case2 s hm r row hrow _ =>
    rename_i ih
    subst hkind
    have hnext : r = l.stringRow stop s := nextRow_strings stop s
    rw [hnext] at hrow ih ⊢
    exact stringRow_stringRows hm ih hrow
  | case3 s hm =>
    rw [before_eq_nil (Bool.eq_false_iff.mpr hm)]
    exact .nil

end Listing

end Disassembler
