import Disassembler.Listing.Line
import Disassembler.Listing.Timeline
import Disassembler.Symbol.Report
import Disassembler.Text.Case

/-!
Writing a listing. A writer may be asked more than once: it goes on from where it stopped, with the
symbols that it has recorded.
-/

namespace Disassembler

structure Writer where
  spot : Spot
  /-- how many instructions no rule matched -/
  unknown : Nat := 0
  tracer : Tracer := {}
  log : List Event := []

/-- A writer at the start of an image. -/
def Listing.writer (l : Listing) (image : List UInt8) (symbols : SymbolTable)
    (tracer : Tracer := {}) : Except Fault Writer := do
  let start ← l.plan.start
  let cursor ← l.arch.cursor image start
  return { spot := ⟨cursor, symbols⟩, tracer }

namespace Writer

def say (events : List Event) : Action Writer Unit :=
  modify fun w => { w with log := w.log ++ events }

/-- Trace a row. The number of unknown instructions is carried along. -/
def observe (row : Row) (w : Writer) : Writer :=
  let (unknown, tracer) := Tracer.row (w.unknown, w.tracer) row
  { w with unknown, tracer }

/-- Do something inside a slice, which is left also when that fails. Whether there is a slice is
decided before. -/
def within {α : Type} (track name : String) (annotations : Trace.Annotations)
    (body : Writer → EStateM.Result Fault Writer α) : Action Writer α := fun w =>
  if w.tracer.enabled then
    match body { w with tracer := w.tracer.enter track name annotations } with
    | .ok a t => .ok a { t with tracer := t.tracer.leave track }
    | .error fault t => .error fault { t with tracer := t.tracer.leave track }
  else body w

/-- Read rows of one sort up to an address or the end of the image. Each is traced before the next
one is read. -/
def scan (l : Listing) (kind : RowKind) (stop : Option Int) (w : Writer) :
    EStateM.Result Fault Writer (List Row) :=
  if hm : w.spot.more stop = true then
    let r := l.nextRow kind stop w.spot
    let t : Writer := { w with spot := r.spot, log := w.log ++ r.log }
    match h : r.result with
    | .error fault => .error fault t
    | .ok row =>
      have := Listing.nextRow_shortens hm h
      match scan l kind stop (t.observe row) with
      | .error fault u => .error fault u
      | .ok rows u => .ok (row :: rows) u
  else .ok [] w
termination_by w.spot.cursor.rest.length

/-- Go through segments; each ends where the next one starts, and is traced as a slice. -/
def pass (l : Listing) : List Segment → Action Writer (List Block)
  | [] => pure []
  | s :: rest =>
    match s.mode.rowKind? with
    | none => pure []
    | some kind => do
      let start := (← get).spot.cursor.addr
      say [s.event]
      let rows ← within "Segments" (Text.lower s.mode.name) [("start", .number s.address)]
        (scan l kind (rest.head?.map (·.address)))
      return ⟨s, kind, start, rows⟩ :: (← pass l rest)

/-- The closing remark on instructions that no rule matched. -/
def summary (w : Writer) : List Event :=
  if w.unknown = 0 then []
  else [⟨.info, .listing, Text.decimal w.unknown ++ " unrecognised instructions"⟩]

/-- The text of lines and of the report on the symbols. -/
def listingText (l : Listing) (lines : List Line) (symbols : SymbolTable) : String :=
  "\n".intercalate (lines.map (Line.toString l.arch.profile.maxLength)) ++ "\n" ++ symbols.report

/-- Write the listing. The labels in front of its rows are those known when it is begun. -/
def write (l : Listing) : Action Writer String := do
  let start ← Action.lift l.plan.start
  let begun ← get
  let blocks ← pass l l.plan.segments
  let done ← get
  say done.summary
  return listingText l (l.lines begun.spot.cursor.size start begun.spot.symbols blocks)
    done.spot.symbols

/-- What is written or what goes wrong, and the writer that this leaves. -/
def render (l : Listing) (w : Writer) : Except Fault String × Writer := Action.outcome (write l w)

end Writer

end Disassembler
