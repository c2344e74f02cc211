import Disassembler.Listing.Writer

/-!
Passes over the segments of a plan, without a tracer. A writer traces each row as soon as it has
been read, and puts a slice around each segment, which is left also when a row of it cannot be read.
All the same it reads what is read without tracing: the rows and the faults are those of a pass that
knows nothing of the tracer, and what has been traced in the end is what a look at its blocks gives.
-/

namespace Disassembler

/-- The rows of a stretch of the image, and what reading them leaves. A fault ends the stretch; the
row that it strikes is not there. -/
structure Stretch where
  rows : List Row := []
  fault : Option Fault := none
  spot : Spot
  log : List Event := []

def Stretch.cons (row : Row) (log : List Event) (rest : Stretch) : Stretch :=
  { rest with rows := row :: rest.rows, log := log ++ rest.log }

/-- Read rows of one sort up to an address or the end of the image. -/
def Listing.scan (l : Listing) (kind : RowKind) (stop : Option Int) (s : Spot) : Stretch :=
  if hm : s.more stop = true then
    let r := l.nextRow kind stop s
    match h : r.result with
    | .error fault => { fault := some fault, spot := r.spot, log := r.log }
    | .ok row =>
      have := Listing.nextRow_shortens hm h
      .cons row r.log (l.scan kind stop r.spot)
  else { spot := s }
termination_by s.cursor.rest.length

/-- The blocks of one pass, and what it leaves. A fault ends the pass; the block that it strikes is
the last one. -/
structure Pass where
  blocks : List Block := []
  fault : Option Fault := none
  spot : Spot
  log : List Event := []

def Pass.cons (block : Block) (log : List Event) (rest : Pass) : Pass :=
  { rest with blocks := block :: rest.blocks, log := log ++ rest.log }

def Pass.rows (p : Pass) : List Row := p.blocks.flatMap (·.rows)

def Stretch.block (stretch : Stretch) (s : Segment) (kind : RowKind) (start : Int) : Block :=
  ⟨s, kind, start, stretch.rows⟩

/-- Go through segments; each ends where the next one starts. -/
def Listing.pass (l : Listing) : List Segment → Spot → Pass
  | [], spot => { spot }
  | s :: rest, spot =>
    match s.mode.rowKind? with
    | none => { spot }
    | some kind =>
      let stretch := l.scan kind (rest.head?.map (·.address)) spot
      let block := stretch.block s kind spot.cursor.addr
      let log := s.event :: stretch.log
      match stretch.fault with
      | some fault => { blocks := [block], fault := some fault, spot := stretch.spot, log }
      | none => .cons block log (l.pass rest stretch.spot)

namespace Listing

variable {l : Listing}

theorem scan_of_more_eq_false {kind : RowKind} {stop : Option Int} {s : Spot}
    (h : s.more stop = false) : l.scan kind stop s = { spot := s } := by
  rw [Listing.scan, dif_neg (by simp [h])]

theorem scan_of_error {kind : RowKind} {stop : Option Int} {s : Spot} {fault : Fault}
    (hm : s.more stop = true) (h : (l.nextRow kind stop s).result = .error fault) :
    l.scan kind stop s =
      { fault := some fault, spot := (l.nextRow kind stop s).spot,
        log := (l.nextRow kind stop s).log } := by
  rw [Listing.scan, dif_pos hm]
  simp only
  split
  · next fault' h' =>
    cases h.symm.trans h'
    rfl
  · next row h' => cases h.symm.trans h'

theorem scan_of_ok {kind : RowKind} {stop : Option Int} {s : Spot} {row : Row}
    (hm : s.more stop = true) (h : (l.nextRow kind stop s).result = .ok row) :
    l.scan kind stop s =
      .cons row (l.nextRow kind stop s).log (l.scan kind stop (l.nextRow kind stop s).spot) := by
  rw [Listing.scan, dif_pos hm]
  simp only
  split
  · next fault h' => cases h.symm.trans h'
  · next row' h' =>
    cases h.symm.trans h'
    rfl

theorem rowKind?_eq_none_iff {mode : SegmentMode} : mode.rowKind? = none ↔ mode = .stop := by
  cases mode <;> simp [SegmentMode.rowKind?]

theorem pass_of_stop {segment : Segment} (hkind : segment.mode.rowKind? = none)
    (rest : List Segment) (s : Spot) : l.pass (segment :: rest) s = { spot := s } := by
  simp only [pass, hkind]

/-- A pass without a fault shows the rows of its first segment and then those of the others. -/
theorem pass_of_kind {segment : Segment} {kind : RowKind} {rest : List Segment} {s : Spot}
    (hkind : segment.mode.rowKind? = some kind)
    (hfault : (l.pass (segment :: rest) s).fault = none) :
    (l.scan kind (rest.head?.map (·.address)) s).fault = none ∧
      l.pass (segment :: rest) s =
        .cons ((l.scan kind (rest.head?.map (·.address)) s).block segment kind s.cursor.addr)
          (segment.event :: (l.scan kind (rest.head?.map (·.address)) s).log)
          (l.pass rest (l.scan kind (rest.head?.map (·.address)) s).spot) := by
  cases hscan : (l.scan kind (rest.head?.map (·.address)) s).fault with
  | none => simp only [pass, hkind, hscan, and_self]
  | some fault => simp [pass, hkind, hscan] at hfault

end Listing

/-! ## Tracing what has been read -/

/-- The trace of a finished block: a slice, and inside it one for each instruction. -/
def Tracer.block (state : Nat × Tracer) (b : Block) : Nat × Tracer :=
  state.2.slice "Segments" (Text.lower b.segment.mode.name)
    [("start", .number b.segment.address)] fun t =>
    b.rows.foldl Tracer.row (state.1, t)

/-- A result, unless there was a fault in its place. -/
def Action.unless {σ α : Type} (fault : Option Fault) (a : α) (s : σ) : EStateM.Result Fault σ α :=
  match fault with
  | none => .ok a s
  | some fault => .error fault s

/-- A function of a result leaves the fault in its place. -/
theorem Action.map_unless {σ α β : Type} {m : Action σ α} {s t : σ} {fault : Option Fault}
    {a : α} (f : α → β) (h : m s = Action.unless fault a t) :
    (do return f (← m)) s = Action.unless fault (f a) t := by
  cases fault with
  | none => exact Action.bind_of_ok _ h
  | some fault => exact Action.bind_of_error _ h

namespace Writer

def through (w : Writer) (stretch : Stretch) : Writer :=
  let (unknown, tracer) := stretch.rows.foldl Tracer.row (w.unknown, w.tracer)
  { spot := stretch.spot, unknown, tracer, log := w.log ++ stretch.log }

def after (w : Writer) (p : Pass) : Writer :=
  let (unknown, tracer) := p.blocks.foldl Tracer.block (w.unknown, w.tracer)
  { spot := p.spot, unknown, tracer, log := w.log ++ p.log }

def lines (l : Listing) (w : Writer) (p : Pass) : Except Fault (List Line) := do
  let start ← l.plan.start
  return l.lines w.spot.cursor.size start w.spot.symbols p.blocks

variable (l : Listing)

/-- Reading a stretch goes on from a writer that has traced its first row. -/
theorem through_cons (w : Writer) (spot : Spot) (row : Row) (log : List Event) (rest : Stretch) :
    w.through (.cons row log rest) =
      (observe row { w with spot, log := w.log ++ log }).through rest := by
  simp only [through, observe, Stretch.cons, List.foldl_cons, List.append_assoc]

/-- Tracing each row when it has been read gives the rows that are read without tracing, and the
same fault. -/
theorem scan_eq (kind : RowKind) (stop : Option Int) (w : Writer) :
    w.scan l kind stop =
      Action.unless (l.scan kind stop w.spot).fault (l.scan kind stop w.spot).rows
        (w.through (l.scan kind stop w.spot)) := by
  fun_induction Writer.scan l kind stop w with
  | case1 w hm r t fault h =>
    rw [Listing.scan_of_error hm h]
    rfl
  | case2 w hm r t row h _ fault u hrest ih =>
    rw [hrest] at ih
    rw [Listing.scan_of_ok hm h, through_cons w r.spot]
    change _ = Action.unless (l.scan kind stop r.spot).fault _ _ at ih ⊢
    cases hfault : (l.scan kind stop r.spot).fault with
    | none => rw [hfault] at ih; cases ih
    | some other => rw [hfault] at ih; exact ih
  | case3 w hm r t row h _ rows u hrest ih =>
    rw [hrest] at ih
    rw [Listing.scan_of_ok hm h, through_cons w r.spot]
    change _ = Action.unless (l.scan kind stop r.spot).fault _ _ at ih ⊢
    cases hfault : (l.scan kind stop r.spot).fault with
    | none => rw [hfault] at ih; cases ih; rfl
    | some other => rw [hfault] at ih; cases ih
  | case4 w hm =>
    rw [Listing.scan_of_more_eq_false (Bool.eq_false_iff.mpr hm)]
    simp [Action.unless, through]

/-- A slice is left both on the way out with a result and on the way out with a fault. -/
theorem within_unless {α : Type} {track name : String} {annotations : Trace.Annotations}
    {body : Writer → EStateM.Result Fault Writer α} {w t : Writer} {fault : Option Fault} {a : α}
    (hon : w.tracer.enabled = true)
    (hbody : body { w with tracer := w.tracer.enter track name annotations } =
      Action.unless fault a t) :
    within track name annotations body w = Action.unless fault a
      { t with tracer := t.tracer.leave track } := by
  rw [within, if_pos hon, hbody]
  cases fault with
  | none => rfl
  | some fault => rfl

theorem within_of_off {α : Type} {track name : String} {annotations : Trace.Annotations}
    {body : Writer → EStateM.Result Fault Writer α} {w : Writer} (hoff : w.tracer.enabled = false) :
    within track name annotations body w = body w :=
  if_neg (Bool.eq_false_iff.mp hoff)

theorem within_scan (track name : String) (annotations : Trace.Annotations) (kind : RowKind)
    (stop : Option Int) (w : Writer) :
    let stretch := l.scan kind stop w.spot
    let traced := w.tracer.slice track name annotations fun t =>
      stretch.rows.foldl Tracer.row (w.unknown, t)
    within track name annotations (scan l kind stop) w =
      Action.unless stretch.fault stretch.rows
        { spot := stretch.spot, unknown := traced.1, tracer := traced.2,
          log := w.log ++ stretch.log } := by
  intro stretch traced
  cases hon : w.tracer.enabled with
  | true =>
    have htraced : traced =
        ((stretch.rows.foldl Tracer.row (w.unknown, w.tracer.enter track name annotations)).1,
        (stretch.rows.foldl Tracer.row (w.unknown, w.tracer.enter track name annotations)).2.leave
          track) := by
      simp only [traced, Tracer.slice, hon, if_true]
    rw [within_unless hon (scan_eq l kind stop _), htraced]
    rfl
  | false =>
    have htraced : traced = stretch.rows.foldl Tracer.row (w.unknown, w.tracer) := by
      simp only [traced, Tracer.slice, hon, Bool.false_eq_true, if_false]
    rw [within_of_off hon, scan_eq, htraced]
    rfl

theorem after_cons (w : Writer) (block : Block) (spot : Spot) (log : List Event) (rest : Pass) :
    w.after (.cons block log rest) = (w.after { blocks := [block], spot, log }).after rest := by
  simp only [after, Pass.cons, List.foldl_cons, List.foldl_nil, List.append_assoc]

theorem pass_of_kind {s : Segment} {kind : RowKind} (hkind : s.mode.rowKind? = some kind)
    (rest : List Segment) (w : Writer) :
    pass l (s :: rest) w =
      (within "Segments" (Text.lower s.mode.name) [("start", .number s.address)]
          (scan l kind (rest.head?.map (·.address))) >>= fun rows => do
        return ⟨s, kind, w.spot.cursor.addr, rows⟩ :: (← pass l rest))
          { w with log := w.log ++ [s.event] } := by
  rw [pass, hkind]
  rfl

/-- A pass that traces gives the blocks of a pass that does not, or its fault. Either way it leaves
what a look at those blocks makes of the writer. -/
theorem pass_eq (segments : List Segment) (w : Writer) :
    pass l segments w =
      Action.unless (l.pass segments w.spot).fault (l.pass segments w.spot).blocks
        (w.after (l.pass segments w.spot)) := by
  have hstay : ∀ v : Writer, v.after { spot := v.spot } = v := fun v => by simp [after]
  induction segments generalizing w with
  | nil => exact congrArg (EStateM.Result.ok []) (hstay w).symm
  | cons s rest ih =>
    cases hkind : s.mode.rowKind? with
    | none =>
      rw [Listing.pass_of_stop hkind, hstay, pass, hkind]
      rfl
    | some kind =>
      let stretch := l.scan kind (rest.head?.map (·.address)) w.spot
      let block := stretch.block s kind w.spot.cursor.addr
      let log := s.event :: stretch.log
      have hslice : within "Segments" (Text.lower s.mode.name) [("start", .number s.address)]
          (scan l kind (rest.head?.map (·.address))) { w with log := w.log ++ [s.event] } =
          Action.unless stretch.fault stretch.rows
            (w.after { blocks := [block], spot := stretch.spot, log }) := by
        rw [within_scan, after, List.append_assoc]
        rfl
      cases hfault : stretch.fault with
      | some fault =>
        have hpass : l.pass (s :: rest) w.spot =
            { blocks := [block], fault := some fault, spot := stretch.spot, log } := by
          simp only [Listing.pass, hkind, stretch] at hfault ⊢
          rw [hfault]
        rw [hfault] at hslice
        rw [hpass, pass_of_kind l hkind, Action.bind_of_error _ hslice]
        rfl
      | none =>
        have hpass : l.pass (s :: rest) w.spot = .cons block log (l.pass rest stretch.spot) := by
          simp only [Listing.pass, hkind, stretch] at hfault ⊢
          rw [hfault]
        rw [hfault] at hslice
        have hrest := ih (w.after { blocks := [block], spot := stretch.spot, log })
        rw [hpass, after_cons w block stretch.spot, pass_of_kind l hkind,
          Action.bind_of_ok _ hslice]
        exact Action.map_unless (block :: ·) hrest

/-! ## Listings -/

/-- A listing is what is made of the blocks of a pass, or its fault, and it leaves what the pass
makes of the writer. -/
theorem render_eq (w : Writer) :
    let p := l.pass l.plan.segments w.spot
    ∃ log, w.render l =
      (match p.fault with
        | some fault => .error fault
        | none => (lines l w p).map fun lines => listingText l lines p.spot.symbols,
      { w.after p with log }) := by
  intro p
  have hpass : pass l l.plan.segments w = Action.unless p.fault p.blocks (w.after p) :=
    pass_eq l l.plan.segments w
  rw [render, write, lines]
  cases hstart : l.plan.start with
  | error fault =>
    -- a plan without a start has no segments
    have hsegments : l.plan.segments = [] := by
      unfold Plan.start at hstart
      split at hstart
      · assumption
      · cases hstart
    have hidle : p = { spot := w.spot } := by
      simp only [p, hsegments]
      rfl
    rw [hidle]
    exact ⟨w.log, rfl⟩
  | ok start =>
    cases hfault : p.fault with
    | some fault =>
      rw [hfault] at hpass
      refine ⟨(w.after p).log, ?_⟩
      exact congrArg Action.outcome (Action.bind_of_error _ hpass)
    | none =>
      rw [hfault] at hpass
      exact ⟨_, congrArg Action.outcome (Action.bind_of_ok _ hpass)⟩

end Writer

end Disassembler
