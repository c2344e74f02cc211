import Disassembler.Listing.Row
import Disassembler.Plan.Basic

/-!
Scanning the image: from a place in it, the next row of some sort that does not begin behind an
address. Scanning records references in the symbol table, and it may fail.
-/

namespace Disassembler

/-- The sort of rows that a segment is shown in; none when the listing ends there. -/
def SegmentMode.rowKind? : SegmentMode → Option RowKind
  | .code => some .code
  | .procs => some .code
  | .bytes => some .bytes
  | .strings => some .strings
  | .words => some .words
  | .vectors => some .vectors
  | .chars => some .chars
  | .stop => none

/-- What a listing is made of: all that stays fixed while it is written. -/
structure Listing where
  arch : Architecture
  plan : Plan
  /-- whether every match must use up its deferred units -/
  balance : Bool := true

/-- A place in the image together with the symbols known there. -/
structure Spot where
  cursor : Cursor
  symbols : SymbolTable
  deriving DecidableEq, Repr

namespace Spot

/-- Whether there is input in front of an address. -/
def more (stop : Option Int) (s : Spot) : Bool := !s.cursor.atEnd && stop.all (s.cursor.addr < ·)

/-- The bytes between two places. -/
def upTo (s t : Spot) : List UInt8 :=
  s.cursor.rest.take (s.cursor.rest.length - t.cursor.rest.length)

/-- Read a word and note that its address refers to its value. -/
def readWord : Action Spot Nat := fun s =>
  match Cursor.readWord s.cursor with
  | .ok value cursor => .ok value ⟨cursor, s.symbols.record value s.cursor.addr .table⟩
  | .error fault cursor => .error fault { s with cursor }

def readByte : Action Spot UInt8 := fun s =>
  match Cursor.readByte s.cursor with
  | .ok value cursor => .ok (UInt8.ofNat value) { s with cursor }
  | .error fault cursor => .error fault { s with cursor }

/-- Read one item after the other up to an address; at most `n` of them. -/
def readUpTo {α : Type} (stop : Option Int) (read : Action Spot α) : Nat → Action Spot (List α)
  | 0 => pure []
  | n + 1 => fun s =>
    if s.more stop then (do return (← read) :: (← readUpTo stop read n)) s else .ok [] s

def readWords (stop : Option Int) (n : Nat) : Action Spot (List Nat) := readUpTo stop readWord n

def readBytes (stop : Option Int) (n : Nat) : Action Spot (List UInt8) := readUpTo stop readByte n

/-- A word that is read is made of the next two bytes, and is a reference from their place. -/
theorem readWord_eq_ok {s t : Spot} {value : Nat} (h : readWord s = .ok value t) :
    2 ≤ s.cursor.rest.length ∧ value = s.cursor.layout.order.value (s.cursor.rest.take 2) ∧
      t = ⟨s.cursor.advance 2, s.symbols.record value s.cursor.addr .table⟩ := by
  unfold readWord at h
  cases hm : Cursor.readWord s.cursor with
  | error fault c => rw [hm] at h; cases h
  | ok a c =>
    rw [hm] at h
    cases h
    obtain ⟨hle, hvalue, rfl⟩ := Cursor.map_take_eq_ok hm
    exact ⟨hle, hvalue, rfl⟩

theorem readByte_shortens {s t : Spot} {b : UInt8} (h : readByte s = .ok b t) :
    t.cursor.rest.length < s.cursor.rest.length := by
  unfold readByte at h
  cases hm : Cursor.readByte s.cursor with
  | error fault c => rw [hm] at h; cases h
  | ok value c =>
    rw [hm] at h
    cases h
    obtain ⟨hle, -, rfl⟩ := Cursor.map_take_eq_ok hm
    rw [Cursor.advance_rest_length]
    omega

/-- Read bytes up to an address or a terminator. The terminator is taken up, but it does not belong
to the run. -/
def readRun (terminator : UInt8) (stop : Option Int) (s : Spot) :
    EStateM.Result Fault Spot (List UInt8) :=
  if s.more stop then
    match h : readByte s with
    | .error fault t => .error fault t
    | .ok b t =>
      have := readByte_shortens h
      if b = terminator then .ok [] t
      else
        match readRun terminator stop t with
        | .error fault u => .error fault u
        | .ok run u => .ok (b :: run) u
  else .ok [] s
termination_by s.cursor.rest.length

end Spot

/-- What reading one row leaves. -/
structure RowRead where
  result : Except Fault Row
  spot : Spot
  log : List Event := []

namespace Listing

/-- The row that starts at `s` and ends at `t`. -/
def rowTo (s t : Spot) (body : RowBody) : Row := ⟨s.cursor.addr, s.upTo t, body⟩

/-- The column of bytes is looked at when there is an instruction to show. -/
def codeRow (l : Listing) (s : Spot) : RowRead :=
  let d := decode l.arch l.balance s.cursor s.symbols
  let t : Spot := ⟨d.cursor, d.symbols⟩
  let result := do
    let i ← d.result
    Row.checkWidth l.arch.profile.maxLength
    return rowTo s t (.code i)
  ⟨result, t, d.log⟩

/-- A row whose body is read. -/
def bodyRow (s : Spot) (read : Action Spot RowBody) : RowRead :=
  match read s with
  | .ok body t => ⟨.ok (rowTo s t body), t, []⟩
  | .error fault t => ⟨.error fault, t, []⟩

/-- A row that shows the bytes that are read. -/
def bytesRow (s : Spot) (body : RowBody) (read : Action Spot (List UInt8)) : RowRead :=
  match read s with
  | .ok bytes t => ⟨.ok ⟨s.cursor.addr, bytes, body⟩, t, []⟩
  | .error fault t => ⟨.error fault, t, []⟩

def stringBody (l : Listing) (stop : Option Int) : Action Spot RowBody :=
  .string <$> (Spot.readRun l.plan.terminator stop : Action Spot (List UInt8))

def wordsBody (stop : Option Int) : Action Spot RowBody :=
  .words <$> Spot.readWords stop Row.itemsPerRow

def vectorBody : Action Spot RowBody := do
  let value ← Spot.readWord
  fun s => (.vector <$> Action.lift (s.symbols.format value)) s

/-- Read the next row. -/
def nextRow (l : Listing) (kind : RowKind) (stop : Option Int) (s : Spot) : RowRead :=
  match kind with
  | .code => l.codeRow s
  | .bytes => bytesRow s .bytes (Spot.readBytes stop Row.bytesPerRow)
  | .strings => bodyRow s (l.stringBody stop)
  | .words => bodyRow s (wordsBody stop)
  | .vectors => bodyRow s vectorBody
  | .chars => bytesRow s .chars (Spot.readBytes stop Row.itemsPerRow)

/-! ## Every row takes up some input -/

theorem readWord_rest {s t : Spot} {value : Nat} (h : Spot.readWord s = .ok value t) :
    t.cursor = s.cursor.advance 2 ∧ 2 ≤ s.cursor.rest.length := by
  obtain ⟨hle, -, rfl⟩ := Spot.readWord_eq_ok h
  exact ⟨rfl, hle⟩

theorem readWord_shortens {s t : Spot} {value : Nat} (h : Spot.readWord s = .ok value t) :
    t.cursor.rest.length < s.cursor.rest.length := by
  obtain ⟨e, hl⟩ := readWord_rest h
  rw [e, Cursor.advance_rest_length]
  omega

section

variable {α : Type} {read : Action Spot α} {stop : Option Int} {n : Nat} {s t : Spot}
    {items : List α}

theorem readUpTo_of_more (h : s.more stop = true) :
    Spot.readUpTo stop read (n + 1) s = (do return (← read) :: (← Spot.readUpTo stop read n)) s :=
  if_pos h

theorem readUpTo_of_more_eq_false (h : s.more stop = false) (n : Nat) :
    Spot.readUpTo stop read n s = .ok [] s := by
  cases n with
  | zero => rfl
  | succ n => exact if_neg (Bool.eq_false_iff.mp h)

/-- Items are read one after the other. -/
theorem readUpTo_succ (hm : s.more stop = true)
    (h : Spot.readUpTo stop read (n + 1) s = .ok items t) :
    ∃ x u xs, read s = .ok x u ∧ Spot.readUpTo stop read n u = .ok xs t ∧ items = x :: xs := by
  rw [readUpTo_of_more hm] at h
  obtain ⟨x, u, hx, h⟩ := Action.bind_eq_ok h
  obtain ⟨xs, v, hv, h⟩ := Action.bind_eq_ok h
  cases h
  exact ⟨x, u, xs, hx, hv, rfl⟩

theorem readUpTo_le
    (hread : ∀ s t x, read s = .ok x t → t.cursor.rest.length < s.cursor.rest.length)
    (h : Spot.readUpTo stop read n s = .ok items t) :
    t.cursor.rest.length ≤ s.cursor.rest.length := by
  induction n generalizing s items with
  | zero => cases h; exact Nat.le_refl _
  | succ n ih =>
      by_cases hm : s.more stop = true
      · obtain ⟨x, u, xs, hx, hv, -⟩ := readUpTo_succ hm h
        exact Nat.le_trans (ih hv) (Nat.le_of_lt (hread s u x hx))
      · rw [readUpTo_of_more_eq_false (Bool.eq_false_iff.mpr hm)] at h
        cases h
        exact Nat.le_refl _

/-- A loop whose first item takes up some input does so too. -/
theorem readUpTo_shortens
    (hread : ∀ s t x, read s = .ok x t → t.cursor.rest.length < s.cursor.rest.length)
    (hm : s.more stop = true) (h : Spot.readUpTo stop read (n + 1) s = .ok items t) :
    t.cursor.rest.length < s.cursor.rest.length := by
  obtain ⟨x, u, xs, hx, hv, -⟩ := readUpTo_succ hm h
  exact Nat.lt_of_le_of_lt (readUpTo_le hread hv) (hread s u x hx)

end

theorem readRun_shortens {terminator : UInt8} {stop : Option Int} {s t : Spot} {run : List UInt8}
    (h : Spot.readRun terminator stop s = .ok run t) :
    t.cursor.rest.length ≤ s.cursor.rest.length ∧
      (s.more stop = true → t.cursor.rest.length < s.cursor.rest.length) := by
  fun_induction Spot.readRun terminator stop s generalizing run with
  | case1 => cases h
  | case2 s hm u hu hless =>
    cases h
    exact ⟨Nat.le_of_lt hless, fun _ => hless⟩
  | case3 => cases h
  | case4 s hm b u hu hless hne rest v hv ih =>
    cases h
    have hshorter := Nat.lt_of_le_of_lt (ih hv).1 hless
    exact ⟨Nat.le_of_lt hshorter, fun _ => hshorter⟩
  | case5 s hdone =>
    cases h
    exact ⟨Nat.le_refl _, fun hm => absurd hm hdone⟩

theorem bodyRow_ok {s : Spot} {read : Action Spot RowBody} {row : Row}
    (h : (bodyRow s read).result = .ok row) :
    ∃ body, read s = .ok body (bodyRow s read).spot ∧ row = rowTo s (bodyRow s read).spot body := by
  unfold bodyRow at h ⊢
  cases hr : read s with
  | error fault t => rw [hr] at h; cases h
  | ok body t => rw [hr] at h; cases h; exact ⟨body, rfl, rfl⟩

theorem wordsBody_shortens {stop : Option Int} {s t : Spot} {body : RowBody}
    (hm : s.more stop = true) (h : wordsBody stop s = .ok body t) :
    t.cursor.rest.length < s.cursor.rest.length := by
  obtain ⟨values, hr, -⟩ := Action.map_eq_ok h
  exact readUpTo_shortens (fun _ _ _ => readWord_shortens) hm hr

theorem vectorBody_shortens {s t : Spot} {body : RowBody} (h : vectorBody s = .ok body t) :
    t.cursor.rest.length < s.cursor.rest.length := by
  obtain ⟨w, u, hw, h⟩ := Action.bind_eq_ok h
  obtain ⟨shown, hl, -⟩ := Action.map_eq_ok h
  rw [Action.state_of_lift hl]
  exact readWord_shortens hw

theorem bytesRow_ok {s : Spot} {body : RowBody} {read : Action Spot (List UInt8)} {row : Row}
    (h : (bytesRow s body read).result = .ok row) :
    ∃ bytes, read s = .ok bytes (bytesRow s body read).spot ∧
      row = ⟨s.cursor.addr, bytes, body⟩ := by
  unfold bytesRow at h ⊢
  cases hr : read s with
  | error fault t => rw [hr] at h; cases h
  | ok bytes t => rw [hr] at h; cases h; exact ⟨bytes, rfl, rfl⟩

theorem bytesRow_shortens {stop : Option Int} {s : Spot} {n : Nat} {body : RowBody} {row : Row}
    (hm : s.more stop = true)
    (h : (bytesRow s body (Spot.readBytes stop (n + 1))).result = .ok row) :
    (bytesRow s body (Spot.readBytes stop (n + 1))).spot.cursor.rest.length <
      s.cursor.rest.length := by
  obtain ⟨bytes, hr, -⟩ := bytesRow_ok h
  exact readUpTo_shortens (fun _ _ _ => Spot.readByte_shortens) hm hr

/-- A row that was read took up some input. -/
theorem nextRow_shortens {l : Listing} {kind : RowKind} {stop : Option Int} {s : Spot} {row : Row}
    (hm : s.more stop = true) (h : (l.nextRow kind stop s).result = .ok row) :
    (l.nextRow kind stop s).spot.cursor.rest.length < s.cursor.rest.length := by
  cases kind with
  | code =>
      obtain ⟨i, hi, -⟩ := Fault.bind_eq_ok h
      exact decode_shortens hi
  | bytes => exact bytesRow_shortens hm h
  | strings =>
      obtain ⟨body, hr, -⟩ := bodyRow_ok h
      obtain ⟨run, hrun, -⟩ := Action.map_eq_ok hr
      exact (readRun_shortens hrun).2 hm
  | words =>
      obtain ⟨body, hr, -⟩ := bodyRow_ok h
      exact wordsBody_shortens hm hr
  | vectors =>
      obtain ⟨body, hr, -⟩ := bodyRow_ok h
      exact vectorBody_shortens hr
  | chars => exact bytesRow_shortens hm h

end Listing

end Disassembler
