import Disassembler.Proofs.Listing.Printed

/-!
The rows of a listing partition the image. The first row stands at the start address, each further
row stands where the bytes of the one before it end, and every row shows the bytes at its place,
which can be read off its line. A listing goes on to the end of the image, or stops at the first row
boundary that reaches the segment where the plan ends it.
-/

namespace Disassembler

def Line.row? : Line → Option Row
  | row r _ => some r
  | _ => none

/-! ## Rows in print -/

namespace Listing

variable (l : Listing) (symbols : SymbolTable)

def rowsOf (lines : List Line) : List Row := lines.filterMap Line.row?

theorem rowsOf_append (xs ys : List Line) : rowsOf (xs ++ ys) = rowsOf xs ++ rowsOf ys :=
  List.filterMap_append

theorem rowsOf_noteLines (address : Int) : rowsOf (l.noteLines address) = [] := by
  unfold noteLines
  cases l.plan.blockComments.at? address <;> rfl

theorem rowsOf_labelLines (address : Int) : rowsOf (labelLines symbols address) = [] := by
  unfold labelLines
  cases (symbols.label? address).filter (· ≠ "") <;> rfl

theorem rowsOf_rowLines (row : Row) : rowsOf (l.rowLines symbols row) = [row] := by
  unfold rowLines
  split
  · rw [rowsOf_append, rowsOf_append, rowsOf_noteLines, rowsOf_labelLines]
    rfl
  · rw [rowsOf_append, rowsOf_labelLines]
    rfl

theorem rowsOf_flatMap_rowLines (rows : List Row) :
    rowsOf (rows.flatMap (l.rowLines symbols)) = rows := by
  induction rows with
  | nil => rfl
  | cons row rows ih =>
    rw [List.flatMap_cons, rowsOf_append, rowsOf_rowLines, ih, List.singleton_append]

theorem rowsOf_blockLines (b : Block) : rowsOf (l.blockLines symbols b) = b.rows := by
  have hheader : rowsOf (l.headerLines symbols b) = [] := by
    unfold headerLines
    split <;> rfl
  have hlead : rowsOf (l.leadLines b) = [] := by
    unfold leadLines
    split
    · rfl
    · exact l.rowsOf_noteLines b.start
  rw [blockLines, rowsOf_append, rowsOf_append, hheader, hlead, rowsOf_flatMap_rowLines]
  rfl

theorem rowsOf_blocksLines (previous : Option RowKind) (blocks : List Block) :
    rowsOf (l.blocksLines symbols previous blocks) = blocks.flatMap (·.rows) := by
  induction blocks generalizing previous with
  | nil => rfl
  | cons b blocks ih =>
    have hgap : rowsOf (gapLines previous b.kind) = [] := by
      unfold gapLines
      split <;> rfl
    rw [blocksLines, rowsOf_append, rowsOf_append, hgap, rowsOf_blockLines, ih]
    rfl

/-- The rows of a listing are those of its blocks. -/
theorem rowsOf_lines (size : Nat) (start : Int) (blocks : List Block) :
    rowsOf (l.lines size start symbols blocks) = blocks.flatMap (·.rows) := by
  rw [lines, rowsOf_append, rowsOf_append, rowsOf_blocksLines]
  exact List.append_nil _

end Listing

/-! ## Listings -/

theorem Listing.writer_eq_ok {l : Listing} {image : List UInt8} {symbols : SymbolTable}
    {tracer : Tracer} {w : Writer} (h : l.writer image symbols tracer = .ok w) :
    ∃ start, l.plan.start = .ok start ∧ l.arch.cursor image start = .ok w.spot.cursor ∧
      w.spot.symbols = symbols ∧ w.tracer = tracer ∧ w.unknown = 0 := by
  obtain ⟨start, hstart, h⟩ := Fault.bind_eq_ok h
  obtain ⟨cursor, hcursor, h⟩ := Fault.bind_eq_ok h
  cases h
  exact ⟨start, hstart, hcursor, rfl, rfl, rfl⟩

/-- A listing that has been written is the text of the lines of a pass without a fault. -/
theorem Writer.render_eq_ok {l : Listing} {w : Writer} {text : String}
    (h : (w.render l).1 = .ok text) :
    (l.pass l.plan.segments w.spot).fault = none ∧
    (w.render l).2.spot = (l.pass l.plan.segments w.spot).spot ∧
      ∃ lines, Writer.lines l w (l.pass l.plan.segments w.spot) = .ok lines ∧
        text = Writer.listingText l lines (w.render l).2.spot.symbols := by
  obtain ⟨log, hrender⟩ := Writer.render_eq l w
  rw [hrender] at h ⊢
  cases hfault : (l.pass l.plan.segments w.spot).fault with
  | some fault => simp [hfault] at h
  | none =>
    cases hlines : Writer.lines l w (l.pass l.plan.segments w.spot) with
    | error fault => simp [hfault, hlines, Except.map] at h
    | ok lines =>
      simp only [hfault, hlines, Except.map] at h
      cases h
      exact ⟨rfl, rfl, lines, rfl, rfl⟩

theorem Writer.rowsOf_lines {l : Listing} {w : Writer} {p : Pass} {lines : List Line}
    (h : Writer.lines l w p = .ok lines) : Listing.rowsOf lines = p.rows := by
  obtain ⟨start, -, h⟩ := Fault.bind_eq_ok h
  cases h
  exact l.rowsOf_lines w.spot.symbols _ start p.blocks

end Disassembler
