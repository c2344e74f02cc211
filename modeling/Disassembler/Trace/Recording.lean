import Disassembler.Value

/-!
A recorded trace: a list of calls, in order. Events stand on numbered tracks; a track is declared
before its first event, and a slice is opened and closed on a track.
-/

namespace Disassembler.Trace

/-- What is told about an event, by name. -/
abbrev Annotations := List (String × Value)

inductive Call where
  | title (text : String)
  | thread (name : String) (id : Nat)
  | counterTrack (name unit : String) (id : Nat)
  | instant (track : Nat) (name : String) (time : Int) (annotations : Annotations)
  | enter (track : Nat) (name : String) (time : Int) (annotations : Annotations)
  | leave (track : Nat) (time : Int)
  | count (track : Nat) (value : Value) (time : Int)
  | save (path : String)
  deriving DecidableEq, Repr

/-- A track of slices; `depth` counts those that are open. -/
structure Track where
  name : String
  id : Nat
  depth : Nat := 0
  deriving DecidableEq, Repr

/-- A trace that is being recorded. -/
structure Recording where
  path : String
  calls : List Call
  tracks : List Track := []
  counters : List (String × Nat) := []
  deriving DecidableEq, Repr

namespace Recording

def call (r : Recording) (c : Call) : Recording := { r with calls := r.calls ++ [c] }

/-- Tracks of both sorts are numbered together. -/
def nextId (r : Recording) : Nat := r.tracks.length + r.counters.length + 1

def track? (r : Recording) (name : String) : Option Track := r.tracks.find? (·.name = name)

/-- The number of a track, which is declared if it is new. -/
def track (r : Recording) (name : String) : Nat × Recording :=
  match r.track? name with
  | some t => (t.id, r)
  | none =>
    (r.nextId,
      { r.call (.thread name r.nextId) with tracks := r.tracks ++ [{ name, id := r.nextId }] })

/-- The number of a counter, which is declared if it is new. -/
def counter (r : Recording) (name : String) : Nat × Recording :=
  match r.counters.lookup name with
  | some id => (id, r)
  | none =>
    (r.nextId,
      { r.call (.counterTrack name "count" r.nextId) with
        counters := r.counters ++ [(name, r.nextId)] })

/-- Change how many slices are open on a track. -/
def setDepth (r : Recording) (name : String) (f : Nat → Nat) : Recording :=
  { r with
    tracks := r.tracks.map fun t => if t.name = name then { t with depth := f t.depth } else t }

def instant (r : Recording) (track name : String) (time : Int) (annotations : Annotations) :
    Recording :=
  (r.track track).2.call (.instant (r.track track).1 name time annotations)

def count (r : Recording) (name : String) (value : Value) (time : Int) : Recording :=
  (r.counter name).2.call (.count (r.counter name).1 value time)

def enter (r : Recording) (track name : String) (time : Int) (annotations : Annotations) :
    Recording :=
  ((r.track track).2.setDepth track (· + 1)).call (.enter (r.track track).1 name time annotations)

/-- Close the innermost slice of a track, if one is open. -/
def leave (r : Recording) (track : String) (time : Int) : Recording :=
  match r.track? track with
  | some { depth := _ + 1, id, .. } => (r.setDepth track (· - 1)).call (.leave id time)
  | _ => r

/-- The calls that close what is open on a track. -/
def closing (time : Int) (t : Track) : List Call := List.replicate t.depth (.leave t.id time)

/-- Close every open slice and save. -/
def finish (r : Recording) (time : Int) : List Call :=
  r.calls ++ r.tracks.flatMap (closing time) ++ [.save r.path]

end Recording

end Disassembler.Trace
