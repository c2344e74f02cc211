import Disassembler.Proofs.Listing.Partition
import Disassembler.Proofs.Trace.WellFormed

/-!
The clock of a traced listing. A slice begins when as many ticks have passed as bytes were shown as
code before it: data does not move the clock. So the trace mirrors the image, with one tick for each
byte, exactly as long as no data was shown before a slice begins.
-/

namespace Disassembler

open Trace

/-! ## Slices in a trace -/

namespace Trace

/-- The slice that a call begins: its name, what is told about it, and its time. -/
def Call.begin? : Call → Option (String × Annotations × Int)
  | enter _ name time annotations => some (name, annotations, time)
  | _ => none

def begun (calls : List Call) : List (String × Annotations × Int) := calls.filterMap Call.begin?

theorem begun_concat (calls : List Call) (c : Call) :
    begun (calls ++ [c]) = begun calls ++ c.begin?.toList :=
  filterMap_concat Call.begin?

namespace Recording

variable (r : Recording)

theorem begun_track (name : String) : begun (r.track name).2.calls = begun r.calls := by
  unfold Recording.track
  split
  · rfl
  · exact (begun_concat _ _).trans (List.append_nil _)

theorem begun_count (name : String) (value : Value) (time : Int) :
    begun (r.count name value time).calls = begun r.calls := by
  have hcounter : begun (r.counter name).2.calls = begun r.calls := by
    unfold Recording.counter
    split
    · rfl
    · exact (begun_concat _ _).trans (List.append_nil _)
  rw [← hcounter]
  exact (begun_concat _ _).trans (List.append_nil _)

theorem begun_enter (track name : String) (time : Int) (annotations : Annotations) :
    begun (r.enter track name time annotations).calls = begun r.calls ++
      [(name, annotations, time)] := by
  rw [← r.begun_track track]
  exact begun_concat _ _

theorem begun_leave (track : String) (time : Int) :
    begun (r.leave track time).calls = begun r.calls := by
  unfold Recording.leave
  split
  · exact (begun_concat _ _).trans (List.append_nil _)
  · rfl

theorem begun_finish (time : Int) : begun (r.finish time) = begun r.calls := by
  have hclosing : begun (r.tracks.flatMap (closing time)) = [] := by
    refine List.filterMap_eq_nil_iff.mpr fun c hc => ?_
    obtain ⟨t, -, hc⟩ := List.mem_flatMap.mp hc
    rw [List.eq_of_mem_replicate hc]
    rfl
  rw [Recording.finish, begun_concat, begun, List.filterMap_append]
  simp only [begun] at hclosing
  simp [begun, hclosing, Call.begin?]

end Recording

end Trace

/-! ## Moments of a listing -/

namespace Row

def isCode (row : Row) : Bool :=
  match row.body with
  | .code _ => true
  | _ => false

def shown (rows : List Row) : Nat := (rows.flatMap (·.bytes)).length

def shownAsCode (rows : List Row) : Nat := shown (rows.filter isCode)

theorem shown_append (rows more : List Row) : shown (rows ++ more) = shown rows + shown more := by
  simp [shown]

theorem shownAsCode_append (rows more : List Row) :
    shownAsCode (rows ++ more) = shownAsCode rows + shownAsCode more := by
  simp [shownAsCode, shown_append]

theorem shownAsCode_singleton (row : Row) :
    shownAsCode [row] = if row.isCode then row.bytes.length else 0 := by
  unfold shownAsCode
  cases h : row.isCode <;> simp [h, shown]

theorem shownAsCode_le (rows : List Row) : shownAsCode rows ≤ shown rows := by
  induction rows with
  | nil => exact Nat.le_refl 0
  | cons row rows ih =>
    have hrow : shownAsCode [row] ≤ shown [row] := by
      rw [shownAsCode_singleton]
      split <;> simp [shown]
    rw [← List.singleton_append, shownAsCode_append, shown_append]
    omega

/-- All the bytes are shown as code when all the rows are code. -/
theorem shownAsCode_eq_shown_iff {rows : List Row}
    (hpositive : ∀ row ∈ rows, 0 < row.bytes.length) :
    shownAsCode rows = shown rows ↔ ∀ row ∈ rows, row.isCode = true := by
  induction rows with
  | nil => simp [shownAsCode, shown]
  | cons row rows ih =>
    obtain ⟨hrow, hrows⟩ := List.forall_mem_cons.mp hpositive
    have hle := shownAsCode_le rows
    have hone : shown [row] = row.bytes.length := by simp [shown]
    rw [List.forall_mem_cons, ← ih hrows, ← List.singleton_append, shownAsCode_append, shown_append,
      shownAsCode_singleton, hone]
    cases row.isCode with
    | true =>
      simp only [if_true, true_and]
      omega
    | false =>
      simp only [Bool.false_eq_true, if_false, false_and, iff_false]
      omega

end Row

/-- A slice that a listing begins: its name, what is told about it, where the cursor stands, and the
rows that have been shown before. -/
structure Moment where
  name : String
  annotations : Annotations
  address : Int
  before : List Row
  deriving DecidableEq, Repr

namespace Moment

/-- The slice on a clock that ticks for the bytes of code. -/
def onClock (tick : Int) (m : Moment) : String × Annotations × Int :=
  (m.name, m.annotations, Row.shownAsCode m.before * tick)

/-- The slice on a clock that mirrors an image from an address on. -/
def mirrored (tick start : Int) (m : Moment) : String × Annotations × Int :=
  (m.name, m.annotations, (m.address - start) * tick)

end Moment

def Row.moment? (before : List Row) (row : Row) : Option Moment :=
  match row.body with
  | .code i => some ⟨i.head, [("addr", .number row.address)], row.address, before⟩
  | _ => none

def Row.moments (before : List Row) : List Row → List Moment
  | [] => []
  | row :: rows => (row.moment? before).toList ++ moments (before ++ [row]) rows

def Block.moments (before : List Row) (b : Block) : List Moment :=
  ⟨Text.lower b.segment.mode.name, [("start", .number b.segment.address)], b.start, before⟩ ::
    Row.moments before b.rows

def Block.allMoments (before : List Row) : List Block → List Moment
  | [] => []
  | b :: blocks => b.moments before ++ allMoments (before ++ b.rows) blocks

def Pass.moments (p : Pass) : List Moment := Block.allMoments [] p.blocks

/-! ## The trace of a listing -/

/-- A tracer that is on: its clock, what it has saved, and the slices of the present trace. -/
structure Tracer.On (tick : Int) (saved : List (List Call)) (elapsed : Nat)
    (slices : List (String × Annotations × Int)) (t : Tracer) : Prop where
  tick : t.tick = tick
  saved : t.finished = saved
  elapsed : t.elapsed = elapsed
  slices : ∃ r, t.current = some r ∧ begun r.calls = slices

namespace Tracer.On

variable {tick : Int} {saved : List (List Call)} {elapsed : Nat}
    {slices : List (String × Annotations × Int)}
  {t : Tracer}

theorem enabled (h : t.On tick saved elapsed slices) : t.enabled = true := by
  obtain ⟨r, hr, -⟩ := h.slices
  simp [Tracer.enabled, hr]

theorem now (h : t.On tick saved elapsed slices) : t.now = elapsed * tick := by
  rw [Tracer.now, h.tick, h.elapsed]

theorem record {f : Recording → Recording} {more : List (String × Annotations × Int)}
    (h : t.On tick saved elapsed slices) (hf : ∀ r, begun (f r).calls = begun r.calls ++ more) :
    (t.record f).On tick saved elapsed (slices ++ more) := by
  obtain ⟨r, hr, hslices⟩ := h.slices
  refine ⟨h.tick, h.saved, h.elapsed, f r, ?_, ?_⟩
  · simp [Tracer.record, hr]
  · rw [hf, hslices]

/-- What begins no slice. -/
theorem record_same {f : Recording → Recording} (h : t.On tick saved elapsed slices)
    (hf : ∀ r, begun (f r).calls = begun r.calls) : (t.record f).On tick saved elapsed slices := by
  have hrecord := h.record fun r => (hf r).trans (List.append_nil _).symm
  rwa [List.append_nil] at hrecord

theorem enter (h : t.On tick saved elapsed slices) (track name : String)
    (annotations : Annotations) :
    (t.enter track name annotations).On tick saved elapsed
      (slices ++ [(name, annotations, elapsed * tick)]) := by
  rw [← h.now]
  exact h.record fun r => r.begun_enter track name t.now annotations

theorem leave (h : t.On tick saved elapsed slices) (track : String) :
    (t.leave track).On tick saved elapsed slices :=
  h.record_same fun r => r.begun_leave track t.now

theorem advance (h : t.On tick saved elapsed slices) (ticks : Int) :
    (t.advance ticks).On tick saved (elapsed + ticks.toNat) slices :=
  ⟨h.tick, h.saved, congrArg (· + ticks.toNat) h.elapsed, h.slices⟩

/-- What a slice holds, between its beginning and its end. -/
theorem slice {α : Type} {later : Nat} {more : List (String × Annotations × Int)}
    {body : Tracer → α × Tracer} {name : String} {annotations : Annotations}
    (h : t.On tick saved elapsed slices) (track : String)
    (hbody : ∀ u, u.On tick saved elapsed (slices ++ [(name, annotations, elapsed * tick)]) →
      (body u).2.On tick saved later (slices ++ more)) :
    (t.slice track name annotations body).2.On tick saved later (slices ++ more) := by
  rw [Tracer.slice, if_pos h.enabled]
  exact (hbody _ (h.enter track name annotations)).leave track

theorem countUnknown {state : Nat × Tracer} (h : state.2.On tick saved elapsed slices) (row : Row) :
    (Tracer.countUnknown row state).2.On tick saved elapsed slices := by
  unfold Tracer.countUnknown
  split
  · exact h.record_same fun r => r.begun_count counterName (.number (state.1 + 1)) state.2.now
  · exact h

end Tracer.On

/-- An instruction is as long as the bytes of its row. -/
def Row.Measured (row : Row) : Prop := ∀ i, row.body = .code i → i.length = row.bytes.length

namespace Tracer.On

variable {tick : Int} {saved : List (List Call)} {slices : List (String × Annotations × Int)}
    {before : List Row}
  {state : Nat × Tracer}

theorem row {row : Row} (h : state.2.On tick saved (Row.shownAsCode before) slices)
    (hrow : row.Measured) :
    (Tracer.row state row).2.On tick saved (Row.shownAsCode (before ++ [row]))
      (slices ++ (row.moment? before).toList.map (Moment.onClock tick)) := by
  rw [Row.shownAsCode_append, Row.shownAsCode_singleton]
  cases hbody : row.body with
  | code i =>
    have hlength : i.length.toNat = row.bytes.length := by
      rw [hrow i hbody]
      exact Int.toNat_natCast _
    simp only [Tracer.row, Row.moment?, Row.isCode, hbody, if_true, ← hlength]
    exact (h.countUnknown row).slice "Instructions" fun u hu => hu.advance i.length
  | _ =>
    simp only [Tracer.row, Row.moment?, Row.isCode, hbody, Bool.false_eq_true, if_false]
    simpa using h

theorem rows {rows : List Row} (h : state.2.On tick saved (Row.shownAsCode before) slices)
    (hrows : ∀ row ∈ rows, row.Measured) :
    (rows.foldl Tracer.row state).2.On tick saved (Row.shownAsCode (before ++ rows))
      (slices ++ (Row.moments before rows).map (Moment.onClock tick)) := by
  induction rows generalizing before slices state with
  | nil => simpa [Row.moments] using h
  | cons row rows ih =>
    obtain ⟨hrow, hrows⟩ := List.forall_mem_cons.mp hrows
    have hrest := ih (h.row hrow) hrows
    rw [List.append_assoc, List.append_assoc, List.singleton_append, ← List.map_append] at hrest
    exact hrest

theorem block {b : Block} (h : state.2.On tick saved (Row.shownAsCode before) slices)
    (hrows : ∀ row ∈ b.rows, row.Measured) :
    (Tracer.block state b).2.On tick saved (Row.shownAsCode (before ++ b.rows))
      (slices ++ (b.moments before).map (Moment.onClock tick)) := by
  refine h.slice "Segments" fun u hu => ?_
  have hblock : (b.rows.foldl Tracer.row (state.1, u)).2.On _ _ _ _ := rows hu hrows
  rw [List.append_assoc, List.singleton_append] at hblock
  exact hblock

theorem blocks {blocks : List Block} (h : state.2.On tick saved (Row.shownAsCode before) slices)
    (hrows : ∀ b ∈ blocks, ∀ row ∈ b.rows, row.Measured) :
    (blocks.foldl Tracer.block state).2.On tick saved
      (Row.shownAsCode (before ++ blocks.flatMap (·.rows)))
      (slices ++ (Block.allMoments before blocks).map (Moment.onClock tick)) := by
  induction blocks generalizing before slices state with
  | nil => simpa [Block.allMoments] using h
  | cons b blocks ih =>
    obtain ⟨hb, hblocks⟩ := List.forall_mem_cons.mp hrows
    have hrest := ih (h.block hb) hblocks
    rw [List.append_assoc, List.append_assoc, ← List.map_append] at hrest
    rw [List.flatMap_cons]
    exact hrest

/-- The trace is saved with the slices that have been begun. -/
theorem stop {t : Tracer} {elapsed : Nat} (h : t.On tick saved elapsed slices) :
    ∃ calls, t.stop.finished = saved ++ [calls] ∧ begun calls = slices := by
  obtain ⟨r, hr, hslices⟩ := h.slices
  refine ⟨r.finish t.now, ?_, (r.begun_finish t.now).trans hslices⟩
  simp only [Tracer.stop, hr, h.saved]

end Tracer.On

/-! ## Moments and the image -/

theorem Row.mem_of_moments {before rows : List Row} {m : Moment}
    (hm : m ∈ Row.moments before rows) : ∀ row ∈ m.before, row ∈ before ++ rows := by
  induction rows generalizing before with
  | nil => cases hm
  | cons first rows ih =>
    rcases List.mem_append.mp hm with hfirst | hrest
    · have hbefore : m.before = before := by
        cases hbody : first.body <;> simp [Row.moment?, hbody] at hfirst
        rw [hfirst]
      intro row hrow
      exact List.mem_append_left _ (hbefore ▸ hrow)
    · simpa using ih hrest

theorem Block.mem_of_allMoments {before : List Row} {blocks : List Block} {m : Moment}
    (hm : m ∈ Block.allMoments before blocks) :
    ∀ row ∈ m.before, row ∈ before ++ blocks.flatMap (·.rows) := by
  induction blocks generalizing before with
  | nil => cases hm
  | cons b blocks ih =>
    rw [List.flatMap_cons, ← List.append_assoc]
    rcases List.mem_append.mp hm with hfirst | hrest
    · intro row hrow
      refine List.mem_append_left _ ?_
      rcases List.mem_cons.mp hfirst with rfl | hrows
      · exact List.mem_append_left _ hrow
      · exact Row.mem_of_moments hrows row hrow
    · exact ih hrest

section

variable {l : Listing} {image : List UInt8} {load : Int} {layout : Layout} {offset : Nat}

theorem Row.Read.measured {row : Row} (h : row.Read l image load layout offset) : row.Measured := by
  intro i hbody
  have hshows := h.body
  rw [hbody] at hshows
  exact hshows.1.length_eq

/-- An instruction's slice begins where its row stands. -/
theorem RowTiles.address_of_moments {before rows : List Row} {last : Nat}
    (h : RowTiles l image load layout offset rows last) (hoffset : offset = Row.shown before) :
    ∀ m ∈ Row.moments before rows, m.address = load + Row.shown m.before := by
  induction h generalizing before with
  | nil => exact fun m hm => (nomatch hm)
  | @cons offset last row rows hread hrest ih =>
    intro m hm
    rcases List.mem_append.mp hm with hfirst | hm
    · cases hbody : row.body <;> simp [Row.moment?, hbody] at hfirst
      rw [hfirst, hread.address, hoffset]
    · refine ih ?_ m hm
      rw [Row.shown_append, hoffset]
      simp [Row.shown]

namespace Listing

/-- The rows of a stretch lie side by side also when a fault ends it. -/
theorem scan_rows (kind : RowKind) (stop : Option Int) {s : Spot}
    (hs : s.cursor.At image load layout offset) :
    ∃ last, RowTiles l image load layout offset (l.scan kind stop s).rows last ∧
      ((l.scan kind stop s).fault = none →
        (l.scan kind stop s).spot.cursor.At image load layout last) := by
  fun_induction Listing.scan l kind stop s generalizing offset with
  | case1 s hm r fault => exact ⟨offset, .nil, fun hfault => by cases hfault⟩
  | case2 s hm r row h _ =>
    rename_i ih
    obtain ⟨hread, hnext⟩ := nextRow_at hs hm h
    obtain ⟨last, htiles, hlast⟩ := ih hnext
    exact ⟨last, .cons hread htiles, hlast⟩
  | case3 s hm => exact ⟨offset, .nil, fun _ => hs⟩

/-- In a pass every row has been read off the image, and every slice begins behind the bytes that
were shown before. -/
theorem pass_moments {segments : List Segment} {s : Spot} {before : List Row}
    (hs : s.cursor.At image load layout (Row.shown before)) :
    (∀ b ∈ (l.pass segments s).blocks, ∀ row ∈ b.rows, ∃ n, row.Read l image load layout n) ∧
      ∀ m ∈ Block.allMoments before (l.pass segments s).blocks,
        m.address = load + Row.shown m.before := by
  induction segments generalizing s before with
  | nil => exact ⟨fun b hb => (nomatch hb), fun m hm => (nomatch hm)⟩
  | cons segment rest ih =>
    cases hkind : segment.mode.rowKind? with
    | none =>
      rw [pass_of_stop hkind]
      exact ⟨fun b hb => (nomatch hb), fun m hm => (nomatch hm)⟩
    | some kind =>
      obtain ⟨last, htiles, hlast⟩ := scan_rows (l := l) kind (rest.head?.map (·.address)) hs
      have hmoments : ∀ m ∈
          ((l.scan kind (rest.head?.map (·.address)) s).block segment kind s.cursor.addr).moments
            before,
          m.address = load + Row.shown m.before := by
        intro m hm
        rcases List.mem_cons.mp hm with rfl | hm
        · exact hs.addr
        · exact htiles.address_of_moments rfl m hm
      cases hfault : (l.scan kind (rest.head?.map (·.address)) s).fault with
      | some fault =>
        simp only [pass, hkind, hfault, List.forall_mem_singleton, Block.allMoments,
          List.append_nil]
        exact ⟨htiles.read, hmoments⟩
      | none =>
        have hnext : last =
            Row.shown (before ++ (l.scan kind (rest.head?.map (·.address)) s).rows) := by
          rw [Row.shown_append]
          exact htiles.length_bytes.symm
        obtain ⟨hreads, hlater⟩ := ih (hnext ▸ hlast hfault)
        simp only [pass, hkind, hfault]
        exact ⟨List.forall_mem_cons.mpr ⟨htiles.read, hreads⟩,
          List.forall_mem_append.mpr ⟨hmoments, hlater⟩⟩

end Listing

end

/-- The two clocks agree on a slice as long as no data was shown before it. -/
theorem Moment.onClock_eq_mirrored_iff {tick start : Int} {m : Moment}
    (haddress : m.address = start + Row.shown m.before)
    (hpositive : ∀ row ∈ m.before, 0 < row.bytes.length) :
    m.onClock tick = m.mirrored tick start ↔ tick = 0 ∨ ∀ row ∈ m.before, row.isCode = true := by
  have hshown : m.address - start = Row.shown m.before := by omega
  rw [← Row.shownAsCode_eq_shown_iff hpositive, onClock, mirrored, hshown]
  simp only [Prod.mk.injEq, true_and]
  constructor
  · intro htime
    by_cases htick : tick = 0
    · exact .inl htick
    · exact .inr (Int.ofNat_inj.mp (Int.eq_of_mul_eq_mul_right htick htime))
  · rintro (rfl | hsame)
    · rw [Int.mul_zero, Int.mul_zero]
    · rw [hsame]

/-- Rendering traces the blocks of a pass, whether or not it fails. -/
theorem Writer.render_tracer (l : Listing) (w : Writer) :
    (w.render l).2.tracer =
      ((l.pass l.plan.segments w.spot).blocks.foldl Tracer.block (w.unknown, w.tracer)).2 := by
  obtain ⟨log, hrender⟩ := render_eq l w
  rw [hrender]
  rfl

/-- The clock of a traced listing. Let a tracer be on, with no slice begun and its clock at the
start, and let a listing be written, with or without success. In the trace that is saved every slice
begins after a tick for each byte that was shown as code before it, while the cursor stands behind
all the bytes that were shown. The trace therefore mirrors the image if and only if no row of data
is shown before a slice begins, unless ticks take no time at all. -/
theorem render_clock {l : Listing} {image : List UInt8} {symbols : SymbolTable} {t : Tracer}
    {r : Recording} {w : Writer} {start : Int} (hcurrent : t.current = some r)
    (hslices : begun r.calls = []) (helapsed : t.elapsed = 0) (hstart : l.plan.start = .ok start)
    (hw : l.writer image symbols t = .ok w) :
    let moments := (l.pass l.plan.segments w.spot).moments
    ∃ calls, (w.render l).2.tracer.stop.finished = t.finished ++ [calls] ∧
      begun calls = moments.map (Moment.onClock t.tick) ∧
      (∀ m ∈ moments, m.address = start + Row.shown m.before) ∧
      (begun calls = moments.map (Moment.mirrored t.tick start) ↔
        t.tick = 0 ∨ ∀ m ∈ moments, ∀ row ∈ m.before, row.isCode = true) := by
  intro moments
  obtain ⟨start', hstart', hcursor, -, hstarted, -⟩ := Listing.writer_eq_ok hw
  cases hstart.symm.trans hstart'
  obtain ⟨hreads, haddress⟩ : (∀ b ∈ (l.pass l.plan.segments w.spot).blocks, ∀ row ∈ b.rows,
      ∃ n, row.Read l image start _ n) ∧ ∀ m ∈ moments, m.address = start + Row.shown m.before :=
    Listing.pass_moments (l.arch.cursor_at hcursor).1
  have hmeasured : ∀ b ∈ (l.pass l.plan.segments w.spot).blocks, ∀ row ∈ b.rows, row.Measured := by
    intro b hb row hrow
    obtain ⟨n, hread⟩ := hreads b hb row hrow
    exact hread.measured
  have hpositive : ∀ m ∈ moments, ∀ row ∈ m.before, 0 < row.bytes.length := by
    intro m hm row hrow
    obtain ⟨b, hb, hrow⟩ := List.mem_flatMap.mp (Block.mem_of_allMoments hm row hrow)
    obtain ⟨n, hread⟩ := hreads b hb row hrow
    exact hread.positive
  have hon : t.On t.tick t.finished (Row.shownAsCode []) [] :=
    ⟨rfl, rfl, helapsed, r, hcurrent, hslices⟩
  have hclock :
      ((l.pass l.plan.segments w.spot).blocks.foldl Tracer.block (w.unknown, t)).2.On _ _ _ _ :=
    Tracer.On.blocks hon hmeasured
  have htracer := w.render_tracer l
  rw [hstarted] at htracer
  rw [← htracer] at hclock
  obtain ⟨calls, hsaved, hbegun⟩ := hclock.stop
  refine ⟨calls, hsaved, hbegun, haddress, ?_⟩
  have heach : ∀ m ∈ moments, m.onClock t.tick = m.mirrored t.tick start ↔
      t.tick = 0 ∨ ∀ row ∈ m.before, row.isCode = true :=
    fun m hm => Moment.onClock_eq_mirrored_iff (haddress m hm) (hpositive m hm)
  rw [hbegun, List.nil_append]
  change moments.map _ = moments.map _ ↔ _
  rw [List.map_inj_left, forall₂_congr heach]
  by_cases htick : t.tick = 0
  · simp [htick]
  · simp only [htick, false_or]

/-- Code in front of data: the trace mirrors the image, which is loaded at an address of its own. -/
theorem render_clock_codeFirst :
    let l : Listing :=
      { arch := Mos6502.arch
        plan := { segments := [⟨0x8000, .code, none⟩, ⟨0x8003, .bytes, none⟩] } }
    let image : List UInt8 := [0xA9, 0x01, 0x60, 0x02, 0x03]
    let r := Tracer.newRecording "t.trace" "listing"
    let t : Tracer := { current := some r }
    let w : Writer := { spot := ⟨Cursor.start ⟨.byte, .little, 3⟩ image 0x8000, {}⟩, tracer := t }
    ({} : Tracer).start true "t.trace" "listing" = .ok t ∧ l.writer image {} t = .ok w ∧
      ∃ calls, (w.render l).2.tracer.stop.finished = [calls] ∧
        begun calls = [("code", [("start", .number 0x8000)], 0),
          ("LDA", [("addr", .number 0x8000)], 0),
          ("RTS", [("addr", .number 0x8002)], 2000),
            ("bytes", [("start", .number 0x8003)], 3000)] := by
  intro l image r t w
  have hw : l.writer image {} t = .ok w := rfl
  have hcurrent : t.current = some r := rfl
  have hslices : begun r.calls = [] := by decide +kernel
  obtain ⟨calls, hsaved, -, -, hmirrors⟩ := render_clock hcurrent hslices rfl rfl hw
  refine ⟨rfl, hw, calls, hsaved, (hmirrors.mpr (.inr ?_)).trans ?_⟩
  · decide +kernel
  · decide +kernel

/-- Data in front of code: two bytes have been consumed when the code begins, and the clock has not
moved. -/
theorem render_clock_dataFirst :
    let l : Listing :=
      { arch := Mos6502.arch
        plan := { segments := [⟨0x8000, .bytes, none⟩, ⟨0x8002, .code, none⟩] } }
    let image : List UInt8 := [0x01, 0x02, 0x60]
    let t : Tracer := { current := some (Tracer.newRecording "t.trace" "listing") }
    let w : Writer := { spot := ⟨Cursor.start ⟨.byte, .little, 3⟩ image 0x8000, {}⟩, tracer := t }
    ({} : Tracer).start true "t.trace" "listing" = .ok t ∧ l.writer image {} t = .ok w ∧
      ∃ calls, (w.render l).2.tracer.stop.finished = [calls] ∧
        begun calls = [("bytes", [("start", .number 0x8000)], 0),
          ("code", [("start", .number 0x8002)], 0), ("RTS", [("addr", .number 0x8002)], 0)] ∧
        begun calls ≠ (l.pass l.plan.segments w.spot).moments.map
          (Moment.mirrored t.tick 0x8000) := by
  intro l image t w
  have hslices : (w.render l).2.tracer.stop.finished.map begun =
      [[("bytes", [("start", .number 0x8000)], 0),
      ("code", [("start", .number 0x8002)], 0), ("RTS", [("addr", .number 0x8002)], 0)]] := by
        decide +kernel
  obtain ⟨calls, hsaved, hbegun⟩ := List.map_eq_singleton_iff.mp hslices
  refine ⟨rfl, rfl, calls, hsaved, hbegun, ?_⟩
  rw [hbegun]
  decide +kernel

end Disassembler
