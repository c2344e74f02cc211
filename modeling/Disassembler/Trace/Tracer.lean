import Disassembler.Fault
import Disassembler.Log
import Disassembler.Trace.Recording

/-!
The tracer records what a listing does on a logical clock: one tick for each byte of input. It is
off until it is started, and what happens while it is off is not recorded.
-/

namespace Disassembler

open Trace

structure Tracer where
  /-- the time between two ticks -/
  tick : Int := 1000
  /-- the ticks since the start -/
  elapsed : Nat := 0
  current : Option Recording := none
  /-- what was recorded before, in order -/
  finished : List (List Call) := []
  deriving DecidableEq, Repr, Inhabited

namespace Tracer

def enabled (t : Tracer) : Bool := t.current.isSome

def now (t : Tracer) : Int := t.elapsed * t.tick

/-- Every trace so far, the one being recorded included. -/
def traces (t : Tracer) : List (List Call) := t.finished ++ (t.current.map (·.calls)).toList

/-- Move the clock forward; it never goes back. -/
def advance (t : Tracer) (ticks : Int) : Tracer := { t with elapsed := t.elapsed + ticks.toNat }

/-- The tracks that every trace has. -/
def trackNames : List String := ["Segments", "Instructions", "Loader"]

def counterName : String := "unknown opcodes"

def defaultTitle : String := "retrodasm"

/-- A new recording with its tracks. -/
def newRecording (path title : String) : Recording :=
  let titled : Recording := { path, calls := [.title title] }
  ((trackNames.foldl (fun r name => (r.track name).2) titled).counter counterName).2

/-- Start to record unless that has been done. `backend` says whether there is a way to save a
trace. -/
def start (t : Tracer) (backend : Bool) (path title : String) : Except Fault Tracer :=
  if t.enabled then .ok t
  else if backend then .ok { t with elapsed := 0, current := some (newRecording path title) }
  else .error .noTraceBackend

/-- Close what is open and save. -/
def stop (t : Tracer) : Tracer :=
  match t.current with
  | none => t
  | some r => { t with current := none, finished := t.finished ++ [r.finish t.now] }

/-- Change what is being recorded. -/
def record (t : Tracer) (f : Recording → Recording) : Tracer :=
  { t with current := t.current.map f }

def instant (t : Tracer) (track name : String) (annotations : Annotations := []) : Tracer :=
  t.record (·.instant track name t.now annotations)

def count (t : Tracer) (name : String) (value : Value) : Tracer :=
  t.record (·.count name value t.now)

def enter (t : Tracer) (track name : String) (annotations : Annotations := []) : Tracer :=
  t.record (·.enter track name t.now annotations)

def leave (t : Tracer) (track : String) : Tracer := t.record (·.leave track t.now)

/-- What `body` does, inside a slice. Whether there is a slice is decided before `body`. -/
def slice {α : Type} (t : Tracer) (track name : String) (annotations : Annotations)
    (body : Tracer → α × Tracer) : α × Tracer :=
  if t.enabled then
    let (a, t) := body (t.enter track name annotations)
    (a, t.leave track)
  else body t

/-! ## Events -/

def startEvents (t : Tracer) (path : String) : List Event :=
  if t.enabled then [] else [⟨.info, .tracer, "tracing to " ++ path⟩]

def stopEvents (t : Tracer) : List Event :=
  t.current.toList.map fun r => ⟨.info, .tracer, "trace written to " ++ r.path⟩

end Tracer

end Disassembler
