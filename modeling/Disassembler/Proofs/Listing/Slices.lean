import Disassembler.Proofs.Listing.Clock
import Disassembler.Proofs.Trace.Slices
import Mathlib.Data.List.Forall2

/-!
The slices of a traced listing. Each block has a slice, and in it each row of code has one that
lasts for as many ticks as the instruction has bytes; the instructions that no rule matched are
counted, from one on. This holds of every listing that is written to its end by a tracer that is on,
whatever the tracer has recorded before.
-/

namespace Disassembler

open Trace

/-! ## Rows -/

/-- The slice of a row: it has the name and the address of the instruction, and lasts for its
length. -/
def Row.HasSlice (tick : Int) (s : Slice) (row : Row) : Prop :=
  ∃ i, row.body = .code i ∧ s.name = i.head ∧ s.annotations = [("addr", .number row.address)] ∧
    s.stop - s.start = tick * i.length

/-- The values of a counter that goes on for each row with an unknown instruction. -/
def Row.countsFrom (unknown : Nat) (rows : List Row) : List Value :=
  (List.range' (unknown + 1) (rows.countP Row.isUnknown)).map fun n : Nat => .number n

theorem Row.countsFrom_append (unknown : Nat) (rows more : List Row) :
    countsFrom unknown (rows ++ more) = countsFrom unknown rows ++
      countsFrom (unknown + rows.countP isUnknown) more := by
  rw [countsFrom, List.countP_append, ← List.range'_append_1, List.map_append, Nat.add_right_comm]
  rfl

/-- Calls that tell of some rows, between two times. -/
structure Row.Told (tick : Int) (unknown : Nat) (start stop : Int) (rows : List Row)
    (calls : List Call) : Prop where
  segments : ∀ position, Holds 1 position start stop calls []
  instructions : ∀ position, ∃ slices, Holds 2 position start stop calls slices ∧
    List.Forall₂ (HasSlice tick) slices (rows.filter isCode)
  counts : countsOn 4 calls = countsFrom unknown rows

namespace Row.Told

variable {tick start middle stop : Int} {unknown : Nat} {rows more : List Row}
    {calls others : List Call}

theorem nil (tick time : Int) (unknown : Nat) {rows : List Row} (hcode : rows.filter isCode = [])
    (hunknown : rows.countP isUnknown = 0) : Told tick unknown time time rows [] where
  segments position := .nil (Int.le_refl _)
  instructions position := by
    refine ⟨[], .nil (Int.le_refl _), ?_⟩
    rw [hcode]
    exact .nil
  counts := by
    rw [countsFrom, hunknown]
    rfl

theorem append (h : Told tick unknown start middle rows calls)
    (hmore : Told tick (unknown + rows.countP isUnknown) middle stop more others) :
    Told tick unknown start stop (rows ++ more) (calls ++ others) where
  segments position := (h.segments position).append (hmore.segments _)
  instructions position := by
    obtain ⟨slices, hslices, hrows⟩ := h.instructions position
    obtain ⟨slices', hslices', hrows'⟩ := hmore.instructions (position + calls.length)
    refine ⟨slices ++ slices', hslices.append hslices', ?_⟩
    rw [List.filter_append]
    exact List.rel_append hrows hrows'
  counts := by rw [countsOn_append, h.counts, hmore.counts, countsFrom_append]

end Row.Told

/-- An instruction that no rule matched is counted before its slice is opened. -/
def Row.countCalls (unknown : Nat) (time : Int) (row : Row) : List Call :=
  if row.isUnknown then [.count 4 (.number (unknown + 1)) time] else []

theorem Row.holds_countCalls (track position unknown : Nat) (time : Int) (row : Row) :
    Holds track position time time (row.countCalls unknown time) [] := by
  unfold countCalls
  split
  · exact .aside rfl rfl (Int.le_refl _)
  · exact .nil (Int.le_refl _)

theorem Row.told_code {tick : Int} (htick : 0 ≤ tick) (unknown : Nat) (time : Int) {row : Row}
    {i : Instruction} (hbody : row.body = .code i) (hlength : i.length = i.length.toNat) :
    Told tick unknown time (time + i.length.toNat * tick) [row] (row.countCalls unknown time ++
      .enter 2 i.head time [("addr", .number row.address)] ::
        ([] ++ [.leave 2 (time + i.length.toNat * tick)])) := by
  have hlater : time ≤ time + i.length.toNat * tick :=
    Int.le_add_of_nonneg_right (Int.mul_nonneg (Int.natCast_nonneg _) htick)
  have hcode : [row].filter isCode = [row] := by simp [isCode, hbody]
  have hinner : ∀ track position, Holds track position time (time + i.length.toNat * tick) [] [] :=
    fun _ _ => .nil hlater
  refine ⟨fun position => ?_, fun position => ?_, ?_⟩
  · exact (holds_countCalls 1 position unknown time row).append
      ((hinner 1 _).around (by decide) _ _)
  · refine ⟨_, (holds_countCalls 2 position unknown time row).append ((hinner 2 _).slice _ _), ?_⟩
    rw [hcode]
    refine .cons ⟨i, hbody, rfl, rfl, ?_⟩ .nil
    simp only
    rw [hlength, Int.mul_comm, Int.toNat_natCast]
    omega
  · unfold countCalls countsFrom
    cases h : row.isUnknown <;> simp [h, countsOn]

namespace Tracer

variable {tick : Int}

theorem countUnknown_emit {t : Tracer} (h : t.Equipped tick) (unknown : Nat) (row : Row) :
    countUnknown row (unknown, t) =
      (unknown + [row].countP Row.isUnknown, t.emit 0 (row.countCalls unknown t.now)) := by
  unfold countUnknown Row.countCalls
  cases hrow : row.isUnknown with
  | false => simp [hrow, emit_nil]
  | true => simp [hrow, count_emit h]

/-- A row is told of by the calls that it leads to. -/
theorem row_emit {t : Tracer} (htick : 0 ≤ tick) (h : t.Equipped tick) (hon : t.enabled = true)
    (unknown : Nat) {row : Row} (hrow : row.Measured) :
    ∃ ticks calls, Tracer.row (unknown, t) row =
      (unknown + [row].countP Row.isUnknown, t.emit ticks calls) ∧
      Row.Told tick unknown t.now (t.now + ticks * tick) [row] calls := by
  cases hbody : row.body with
  | code i =>
    have hlength : i.length = i.length.toNat := by rw [hrow i hbody, Int.toNat_natCast]
    refine ⟨i.length.toNat, _, ?_, Row.told_code htick unknown t.now hbody hlength⟩
    -- the counter stands in front of the slice, at the same time
    have hcounted := h.emit 0 (row.countCalls unknown t.now)
    have hstill : (t.emit 0 (row.countCalls unknown t.now)).now = t.now := by
      rw [now_emit, Int.natCast_zero, Int.zero_mul, Int.add_zero]
    simp only [Tracer.row, hbody, countUnknown_emit h]
    have hadvance : ∀ u : Tracer, (unknown + [row].countP Row.isUnknown, u.advance i.length) =
        (unknown + [row].countP Row.isUnknown, u.emit i.length.toNat []) := fun u => by
          rw [advance_emit]
    refine (slice_emit hcounted ((t.enabled_emit 0 _).trans hon) (fun r hr => hr.instructions)
      (hadvance _)).trans ?_
    rw [hstill, emit_emit, Nat.zero_add]
  | _ =>
    refine ⟨0, [], ?_, ?_⟩
    · simp [Tracer.row, Row.isUnknown, hbody, emit_nil]
    · simp [Row.Told.nil, Row.isCode, Row.isUnknown, hbody]

theorem rows_emit {t : Tracer} (htick : 0 ≤ tick) (h : t.Equipped tick) (hon : t.enabled = true)
    (unknown : Nat) {rows : List Row} (hrows : ∀ row ∈ rows, row.Measured) :
    ∃ ticks calls, rows.foldl Tracer.row (unknown, t) =
      (unknown + rows.countP Row.isUnknown, t.emit ticks calls) ∧
      Row.Told tick unknown t.now (t.now + ticks * tick) rows calls := by
  refine foldl_emit (List.countP Row.isUnknown) (Row.Told tick) rfl (fun row rows => ?_)
    (fun n time => .nil tick time n rfl rfl) Row.Told.append h hon unknown
      fun row hrow t n ht hon =>
      row_emit htick ht hon n (hrows row hrow)
  rw [← List.countP_append, List.singleton_append]

end Tracer

/-! ## Blocks -/

/-- The slices of a block: one for itself, and inside it one for each row of code. -/
structure Block.HasSlices (tick : Int) (slices : Slice × List Slice) (b : Block) : Prop where
  name : slices.1.name = Text.lower b.segment.mode.name
  annotations : slices.1.annotations = [("start", .number b.segment.address)]
  rows : List.Forall₂ (Row.HasSlice tick) slices.2 (b.rows.filter Row.isCode)
  nested : ∀ s ∈ slices.2, s.Inside slices.1

structure Block.Told (tick : Int) (unknown : Nat) (start stop : Int) (blocks : List Block)
    (calls : List Call) : Prop where
  slices : ∀ position, ∃ slices : List (Slice × List Slice),
    Holds 1 position start stop calls (slices.map (·.1)) ∧
    Holds 2 position start stop calls (slices.flatMap (·.2)) ∧
      List.Forall₂ (HasSlices tick) slices blocks
  counts : countsOn 4 calls = Row.countsFrom unknown (blocks.flatMap (·.rows))

namespace Block.Told

variable {tick start middle stop : Int} {unknown : Nat} {blocks more : List Block}
    {calls others : List Call}

theorem nil (tick time : Int) (unknown : Nat) : Told tick unknown time time [] [] where
  slices _ := ⟨[], .nil (Int.le_refl _), .nil (Int.le_refl _), .nil⟩
  counts := rfl

theorem append (h : Told tick unknown start middle blocks calls)
    (hmore : Told tick (unknown + (blocks.flatMap (·.rows)).countP Row.isUnknown) middle stop
      more others) :
    Told tick unknown start stop (blocks ++ more) (calls ++ others) where
  slices position := by
    obtain ⟨slices, hsegments, hinstructions, hblocks⟩ := h.slices position
    obtain ⟨slices', hsegments', hinstructions', hblocks'⟩ := hmore.slices (position + calls.length)
    refine ⟨slices ++ slices', ?_, ?_, List.rel_append hblocks hblocks'⟩
    · rw [List.map_append]
      exact hsegments.append hsegments'
    · rw [List.flatMap_append]
      exact hinstructions.append hinstructions'
  counts := by
    rw [countsOn_append, h.counts, hmore.counts, List.flatMap_append, Row.countsFrom_append]

/-- Around the calls that tell of its rows. -/
theorem ofRows {b : Block} (h : Row.Told tick unknown start stop b.rows calls) :
    Told tick unknown start stop [b]
      (.enter 1 (Text.lower b.segment.mode.name) start [("start", .number b.segment.address)] ::
        (calls ++ [.leave 1 stop])) where
  slices position := by
    obtain ⟨slices, hslices, hrows⟩ := h.instructions (position + 1)
    refine ⟨[(_, slices)], (h.segments (position + 1)).slice _ _, ?_,
      .cons ⟨rfl, rfl, hrows, fun s hs => ?_⟩ .nil⟩
    · rw [List.flatMap_singleton]
      exact hslices.around (by decide) _ _
    · exact hslices.inside hs _ _
  counts := by
    rw [List.flatMap_singleton, ← h.counts]
    simp [countsOn]

end Block.Told

namespace Tracer

variable {tick : Int}

theorem block_emit {t : Tracer} (htick : 0 ≤ tick) (h : t.Equipped tick) (hon : t.enabled = true)
    (unknown : Nat) {b : Block} (hrows : ∀ row ∈ b.rows, row.Measured) :
    ∃ ticks calls, Tracer.block (unknown, t) b =
      (unknown + b.rows.countP Row.isUnknown, t.emit ticks calls) ∧
      Block.Told tick unknown t.now (t.now + ticks * tick) [b] calls := by
  have henter :=
    h.enter "Segments" (Text.lower b.segment.mode.name) [("start", .number b.segment.address)]
  obtain ⟨ticks, calls, hbody, htold⟩ :=
    rows_emit htick henter ((t.enabled_enter _ _ _).trans hon) unknown hrows
  exact ⟨ticks, _, slice_emit h hon (fun r hr => hr.segments) hbody, .ofRows htold⟩

theorem blocks_emit {t : Tracer} (htick : 0 ≤ tick) (h : t.Equipped tick) (hon : t.enabled = true)
    (unknown : Nat) {blocks : List Block} (hblocks : ∀ b ∈ blocks, ∀ row ∈ b.rows, row.Measured) :
    ∃ ticks calls, blocks.foldl Tracer.block (unknown, t) =
        (unknown + (blocks.flatMap (·.rows)).countP Row.isUnknown, t.emit ticks calls) ∧
      Block.Told tick unknown t.now (t.now + ticks * tick) blocks calls := by
  refine foldl_emit (fun blocks => (blocks.flatMap (·.rows)).countP Row.isUnknown)
    (Block.Told tick) rfl
    (fun b blocks => ?_) (fun n time => .nil tick time n) Block.Told.append h hon unknown
      fun b hb t n ht hon => ?_
  · rw [← List.countP_append, List.flatMap_singleton, List.flatMap_cons]
  · rw [List.flatMap_singleton]
    exact block_emit htick ht hon n (hblocks b hb)

end Tracer

/-! ## Listings -/

/-- A pass without a fault has a block for each segment in front of the first one that ends the
listing. -/
theorem Listing.segments_of_pass {l : Listing} {segments : List Segment} {s : Spot}
    (hfault : (l.pass segments s).fault = none) :
    (l.pass segments s).blocks.map (·.segment) = segments.takeWhile (·.mode ≠ .stop) := by
  induction segments generalizing s with
  | nil => rfl
  | cons segment rest ih =>
    cases hkind : segment.mode.rowKind? with
    | none =>
      have hstop : segment.mode = .stop := rowKind?_eq_none_iff.mp hkind
      rw [pass_of_stop hkind, List.takeWhile_cons]
      simp [hstop]
    | some kind =>
      have hmode : segment.mode ≠ .stop := by
        intro hstop
        rw [rowKind?_eq_none_iff.mpr hstop] at hkind
        cases hkind
      obtain ⟨-, hpass⟩ := pass_of_kind hkind hfault
      rw [hpass] at hfault ⊢
      rw [List.takeWhile_cons, if_pos (decide_eq_true hmode), ← ih hfault]
      rfl

theorem Writer.render_unknown (l : Listing) (w : Writer) :
    (w.render l).2.unknown =
      ((l.pass l.plan.segments w.spot).blocks.foldl Tracer.block (w.unknown, w.tracer)).1 := by
  obtain ⟨log, hrender⟩ := render_eq l w
  rw [hrender]
  rfl

/-- The rows of a listing that is begun at the start of an image are as long as their
instructions. -/
theorem Listing.measured_of_writer {l : Listing} {image : List UInt8} {symbols : SymbolTable}
    {tracer : Tracer} {w : Writer} (h : l.writer image symbols tracer = .ok w) :
    ∀ b ∈ (l.pass l.plan.segments w.spot).blocks, ∀ row ∈ b.rows, row.Measured := by
  intro b hb row hrow
  obtain ⟨start, -, hcursor, -⟩ := Listing.writer_eq_ok h
  have hat : w.spot.cursor.At image start _ (Row.shown []) := (l.arch.cursor_at hcursor).1
  obtain ⟨n, hread⟩ := (Listing.pass_moments hat).1 b hb row hrow
  exact hread.measured

/-- The slices of a traced listing. Let a tracer be on after anything that may have been asked of
it, let its ticks take time, and let a listing be written to its end. The calls that this adds to
the trace close all slices that they open: one for each segment in front of the first one that ends
the listing, and one for each row of code, both in order. The slice of a row lies inside that of its
block and lasts one tick for each byte of the instruction, and no slice of a track begins before the
one in front of it has ended. The counter for instructions that no rule matched goes from one up to
the number that the writer gives, which is the number of such rows in the listing. -/
theorem render_slices {l : Listing} {image : List UInt8} {symbols : SymbolTable}
    {script : Tracer.Script} {tick : Int} {t : Tracer} {r : Recording} {w : Writer} {text : String}
    (htick : 0 < tick) (ht : (script.run { tick }).2 = t) (hr : t.current = some r)
    (hw : l.writer image symbols t = .ok w) (htext : (w.render l).1 = .ok text) :
    let pass := l.pass l.plan.segments w.spot
    ∃ (calls : List Call) (slices : List (Slice × List Slice)) (lines : List Line),
      (w.render l).2.tracer.current = some { r with calls := r.calls ++ calls } ∧
      r.slices? "Segments" calls = some (slices.map (·.1)) ∧
      r.slices? "Instructions" calls = some (slices.flatMap (·.2)) ∧
      List.Forall₂ (Block.HasSlices tick) slices pass.blocks ∧
      pass.blocks.map (·.segment) = l.plan.segments.takeWhile (·.mode ≠ .stop) ∧
      (slices.map (·.1)).Pairwise Slice.Before ∧ (slices.flatMap (·.2)).Pairwise Slice.Before ∧
      r.counts? Tracer.counterName calls =
        some ((List.range' 1 (w.render l).2.unknown).map fun n : Nat => .number n) ∧
      (w.render l).2.unknown = pass.rows.countP Row.isUnknown ∧
      text = Writer.listingText l lines (w.render l).2.spot.symbols ∧
        Listing.rowsOf lines = pass.rows := by
  intro pass
  obtain ⟨hfault, -, lines, hlines, hshown⟩ := Writer.render_eq_ok htext
  have hequipped : t.Equipped tick := ht ▸ script.equipped_run tick
  have hr' := hequipped.current r hr
  have hon : t.enabled = true := by simp [Tracer.enabled, hr]
  obtain ⟨ticks, calls, hfold, htold⟩ :=
    Tracer.blocks_emit (Int.le_of_lt htick) hequipped hon 0 (Listing.measured_of_writer hw)
  have htracer := w.render_tracer l
  have hunknown := w.render_unknown l
  obtain ⟨-, -, -, -, hbegun, hzero⟩ := Listing.writer_eq_ok hw
  rw [hbegun, hzero, hfold] at htracer hunknown
  obtain ⟨slices, hsegments, hinstructions, hblocks⟩ := htold.slices 0
  refine ⟨calls, slices, lines, ?_, ?_, ?_, hblocks, Listing.segments_of_pass hfault,
    hsegments.ordered, hinstructions.ordered, ?_, ?_, hshown, Writer.rowsOf_lines hlines⟩
  · rw [htracer, Tracer.emit, hr, Option.map_some]
  · rw [Recording.slices?_eq hr'.segments, hsegments.slicesOn?_eq]
  · rw [Recording.slices?_eq hr'.instructions, hinstructions.slicesOn?_eq]
  · rw [Recording.counts?, hr'.counter, Option.map_some, htold.counts, hunknown, Nat.zero_add]
    rfl
  · rw [hunknown, Nat.zero_add]
    rfl

/-- Code and data in turn, in a slice that is open already, with an instruction in each stretch of
code that no rule matches; the code behind the end is not traced. -/
theorem render_slices_mixed :
    let l : Listing :=
      { arch := Mos6502.arch
        plan := { segments := [⟨0x8000, .code, none⟩, ⟨0x8004, .bytes, none⟩, ⟨0x8006, .code, none⟩,
          ⟨0x8008, .stop, none⟩, ⟨0x8009, .code, none⟩] } }
    let image : List UInt8 := [0xA9, 0x01, 0x02, 0x60, 0x02, 0x03, 0x02, 0xEA, 0xEA, 0xEA]
    let script : Tracer.Script :=
      .request (.start true "t.trace" "listing")
        (.request (.advance 7) (.request (.enter "Segments" "all" []) .done))
    let t := (script.run { tick := 250 }).2
    let w : Writer := { spot := ⟨Cursor.start ⟨.byte, .little, 3⟩ image 0x8000, {}⟩, tracer := t }
    ∃ r text, t.current = some r ∧ l.writer image {} t = .ok w ∧ (w.render l).1 = .ok text ∧
      ∃ calls segments instructions, (w.render l).2.tracer.current =
        some { r with calls := r.calls ++ calls } ∧
        r.slices? "Segments" calls = some segments ∧ segments.length = 3 ∧
        r.slices? "Instructions" calls = some instructions ∧ instructions.Pairwise Slice.Before ∧
        r.counts? Tracer.counterName calls = some [.number 1, .number 2] := by
  intro l image script t w
  have hok : (w.render l).1.isOk = true := by decide +kernel
  have hunknown : (w.render l).2.unknown = 2 := by decide +kernel
  have hblocks : (l.pass l.plan.segments w.spot).blocks.length = 3 := by decide +kernel
  have hw : l.writer image {} t = .ok w := rfl
  obtain ⟨r, hr⟩ : ∃ r, t.current = some r := ⟨_, rfl⟩
  cases htext : (w.render l).1 with
  | error fault =>
    rw [htext] at hok
    cases hok
  | ok text =>
    obtain ⟨calls, slices, -, hcalls, hsegments, hinstructions, hslices, -, -, hordered,
      hcounts, -⟩ :=
      render_slices (by decide) rfl hr hw htext
    rw [hunknown] at hcounts
    refine ⟨r, text, hr, hw, rfl, calls, _, _, hcalls, hsegments, ?_, hinstructions,
      hordered, hcounts⟩
    rw [List.length_map, hslices.length_eq, hblocks]

end Disassembler
