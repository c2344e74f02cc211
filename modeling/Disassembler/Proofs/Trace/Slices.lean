import Disassembler.Proofs.Trace.Runs

/-!
The slices of a trace, read off its calls: a call that closes a slice belongs to the call that
opened the innermost one on its track. Stretches of calls that close what they open are read one
after the other, and the slices in them come one after the other, in the trace and in time.
-/

namespace Disassembler.Trace

/-- A slice of a trace. The calls that open and close it stand at two positions. -/
structure Slice where
  name : String
  annotations : Annotations
  opened : Nat
  closed : Nat
  start : Int
  stop : Int
  deriving DecidableEq, Repr

/-- The one slice ends before the other begins, in the trace and in time. -/
def Slice.Before (s t : Slice) : Prop := s.closed < t.opened ∧ s.stop ≤ t.start

/-- The one slice begins and ends while the other is open. -/
def Slice.Inside (s t : Slice) : Prop :=
  t.opened < s.opened ∧ s.opened < s.closed ∧ s.closed < t.closed ∧ t.start ≤ s.start ∧
  s.stop ≤ t.stop

structure OpenSlice where
  name : String
  annotations : Annotations
  opened : Nat
  start : Int
  deriving DecidableEq, Repr

def OpenSlice.close (s : OpenSlice) (closed : Nat) (stop : Int) : Slice :=
  ⟨s.name, s.annotations, s.opened, closed, s.start, stop⟩

/-- How far the slices of a track have been read; the innermost open one comes first. -/
structure Reading where
  position : Nat := 0
  opened : List OpenSlice := []
  slices : List Slice := []
  deriving DecidableEq, Repr

/-- Read one more call; a slice that is not open cannot be closed. -/
def Reading.next (track : Nat) (g : Reading) : Call → Option Reading
  | .enter id name time annotations =>
    if id = track then
      some { g with
        position := g.position + 1
        opened := ⟨name, annotations, g.position, time⟩ :: g.opened }
    else some { g with position := g.position + 1 }
  | .leave id time =>
    if id = track then
      match g.opened with
      | [] => none
      | s :: opened => some ⟨g.position + 1, opened, g.slices ++ [s.close g.position time]⟩
    else some { g with position := g.position + 1 }
  | _ => some { g with position := g.position + 1 }

/-- The slices of a track in the order in which they are closed, if all of them are. -/
def slicesOn? (track : Nat) (calls : List Call) : Option (List Slice) :=
  match calls.foldlM (Reading.next track) {} with
  | some ⟨_, [], slices⟩ => some slices
  | _ => none

def countsOn (track : Nat) (calls : List Call) : List Value :=
  calls.filterMap fun
    | .count id value _ => if id = track then some value else none
    | _ => none

def Recording.slices? (r : Recording) (track : String) (calls : List Call) : Option (List Slice) :=
  (r.track? track).bind fun t => slicesOn? t.id calls

def Recording.counts? (r : Recording) (name : String) (calls : List Call) : Option (List Value) :=
  (r.counters.lookup name).map (countsOn · calls)

theorem countsOn_append (track : Nat) (calls more : List Call) :
    countsOn track (calls ++ more) = countsOn track calls ++ countsOn track more :=
  List.filterMap_append

/-! ## Stretches of calls -/

/-- A stretch of calls, from a position and a time on up to another time, has some slices on a track
and leaves alone those that were open before. -/
structure Holds (track position : Nat) (start stop : Int) (calls : List Call)
    (slices : List Slice) : Prop where
  reads : ∀ opened before, calls.foldlM (Reading.next track) ⟨position, opened, before⟩ =
    some ⟨position + calls.length, opened, before ++ slices⟩
  forward : start ≤ stop
  within : ∀ s ∈ slices, position ≤ s.opened ∧ s.opened < s.closed ∧
    s.closed < position + calls.length ∧ start ≤ s.start ∧ s.start ≤ s.stop ∧ s.stop ≤ stop
  ordered : slices.Pairwise Slice.Before

namespace Holds

variable {track position : Nat} {start middle stop : Int} {calls more : List Call}
    {slices others : List Slice}

theorem slicesOn?_eq (h : Holds track 0 start stop calls slices) :
    slicesOn? track calls = some slices := by
  have hreads := h.reads [] []
  rw [List.nil_append] at hreads
  rw [slicesOn?, hreads]

theorem nil (hle : start ≤ stop) : Holds track position start stop [] [] where
  reads opened before := by
    rw [List.append_nil]
    rfl
  forward := hle
  within := List.forall_mem_nil _
  ordered := .nil

theorem append (h : Holds track position start middle calls slices)
    (hmore : Holds track (position + calls.length) middle stop more others) :
    Holds track position start stop (calls ++ more) (slices ++ others) where
  reads opened before := by
    rw [List.foldlM_append, h.reads opened before]
    simp only [Option.bind_eq_bind, Option.bind_some]
    rw [hmore.reads, List.length_append, List.append_assoc, Nat.add_assoc]
  forward := Int.le_trans h.forward hmore.forward
  within s hs := by
    have hforward := h.forward
    have hforward' := hmore.forward
    rw [List.length_append]
    rcases List.mem_append.mp hs with hs | hs
    · have hwithin := h.within s hs
      omega
    · have hwithin := hmore.within s hs
      omega
  ordered := by
    refine List.pairwise_append.mpr ⟨h.ordered, hmore.ordered, fun s hs t ht => ?_⟩
    have hs := h.within s hs
    have ht := hmore.within t ht
    exact ⟨by omega, by omega⟩

/-- A call that has nothing to do with the slices of the track. -/
theorem aside {c : Call} (henters : c.enters track = false) (hleaves : c.leaves track = false)
    (hle : start ≤ stop) : Holds track position start stop [c] [] where
  reads opened before := by
    have hnext : Reading.next track ⟨position, opened, before⟩ c =
        some ⟨position + 1, opened, before⟩ := by
      cases c with
      | enter id name time annotations => exact if_neg (by simpa [Call.enters] using henters)
      | leave id time => exact if_neg (by simpa [Call.leaves] using hleaves)
      | _ => rfl
    rw [List.append_nil, List.foldlM_cons, hnext]
    rfl
  forward := hle
  within := List.forall_mem_nil _
  ordered := .nil

/-- A slice around calls that have no slice on its track. -/
theorem slice (h : Holds track (position + 1) start stop calls []) (name : String)
    (annotations : Annotations) :
    Holds track position start stop (.enter track name start annotations ::
      (calls ++ [.leave track stop]))
      [⟨name, annotations, position, position + 1 + calls.length, start, stop⟩] where
  reads opened before := by
    have henter : Reading.next track ⟨position, opened, before⟩
        (.enter track name start annotations) =
        some ⟨position + 1, ⟨name, annotations, position, start⟩ :: opened, before⟩ := if_pos rfl
    have hleave : Reading.next track ⟨position + 1 + calls.length,
      ⟨name, annotations, position, start⟩ :: opened, before⟩
        (.leave track stop) = some ⟨position + 1 + calls.length + 1, opened,
          before ++ [⟨name, annotations, position, position + 1 + calls.length, start, stop⟩]⟩ :=
            if_pos rfl
    have hlength : position + (Call.enter track name start annotations ::
      (calls ++ [.leave track stop])).length =
        position + 1 + calls.length + 1 := by
      simp only [List.length_cons, List.length_append, List.length_nil]
      omega
    rw [List.foldlM_cons, henter, hlength]
    simp only [Option.bind_eq_bind, Option.bind_some]
    rw [List.foldlM_append, h.reads, List.append_nil]
    simp only [Option.bind_eq_bind, Option.bind_some]
    rw [List.foldlM_cons, hleave]
    rfl
  forward := h.forward
  within := by
    refine List.forall_mem_singleton.mpr ?_
    have hforward := h.forward
    simp only [List.length_cons, List.length_append, List.length_nil]
    omega
  ordered := List.pairwise_singleton _ _

/-- Calls inside a slice on another track. -/
theorem around {other : Nat} (h : Holds track (position + 1) start stop calls slices)
    (hne : other ≠ track) (name : String) (annotations : Annotations) :
    Holds track position start stop (.enter other name start annotations ::
      (calls ++ [.leave other stop])) slices := by
  have henter : Holds track position start start [.enter other name start annotations] [] :=
    aside (by simpa [Call.enters] using hne) rfl (Int.le_refl _)
  have hleave : Holds track (position + 1 + calls.length) stop stop [.leave other stop] [] :=
    aside rfl (by simpa [Call.leaves] using hne) (Int.le_refl _)
  have hall := henter.append (h.append hleave)
  rw [List.append_nil] at hall
  exact hall

/-- What is read inside a slice lies inside it. -/
theorem inside {s : Slice} (h : Holds track (position + 1) start stop calls slices)
    (hs : s ∈ slices) (name : String) (annotations : Annotations) :
    s.Inside ⟨name, annotations, position, position + 1 + calls.length, start, stop⟩ := by
  obtain ⟨hopened, hpositions, hclosed, hstart, -, hstop⟩ := h.within s hs
  exact ⟨hopened, hpositions, hclosed, hstart, hstop⟩

end Holds

/-! ## The tracks of every trace -/

namespace Recording

/-- A recording has the tracks of slices and the counter that a listing needs, numbered as in a new
recording. -/
structure Equipped (r : Recording) : Prop where
  segments : (r.track? "Segments").map (·.id) = some 1
  instructions : (r.track? "Instructions").map (·.id) = some 2
  counter : r.counters.lookup Tracer.counterName = some 4

variable {r : Recording}

theorem track?_setDepth (r : Recording) (name other : String) (f : Nat → Nat) :
    (r.setDepth name f).track? other =
      (r.track? other).map fun t => if t.name = name then { t with depth := f t.depth } else t := by
  have hname : ((fun t : Track => decide (t.name = other)) ∘ fun t =>
      if t.name = name then { t with depth := f t.depth } else t) =
        fun t => decide (t.name = other) := by
    funext t
    simp only [Function.comp]
    split <;> rfl
  rw [track?, setDepth, List.find?_map, hname]
  rfl

theorem slices?_eq {track : String} {id : Nat} (h : (r.track? track).map (·.id) = some id)
    (calls : List Call) : r.slices? track calls = slicesOn? id calls := by
  obtain ⟨t, ht, rfl⟩ := Option.map_eq_some_iff.mp h
  rw [slices?, ht, Option.bind_some]

/-- Opening and closing once leaves the tracks as they were. -/
theorem setDepth_setDepth (r : Recording) (name : String) :
    (r.setDepth name (· + 1)).setDepth name (· - 1) = r := by
  have hsame : r.tracks.map
      ((fun t => if t.name = name then { t with depth := t.depth - 1 } else t) ∘ fun t =>
      if t.name = name then { t with depth := t.depth + 1 } else t) = r.tracks := by
    refine (List.map_congr_left fun t _ => ?_).trans r.tracks.map_id
    by_cases h : t.name = name
    · subst h
      simp
    · simp [h]
  simp only [setDepth, List.map_map, hsame]

theorem enter_of_track? {track : String} {t : Track} (h : r.track? track = some t) (name : String)
    (time : Int) (annotations : Annotations) :
    r.enter track name time annotations = (r.setDepth track (· + 1)).call
      (.enter t.id name time annotations) := by
  simp only [enter, Recording.track, h]

theorem leave_of_track? {track name : String} {id depth : Nat}
    (h : r.track? track = some ⟨name, id, depth + 1⟩) (time : Int) :
    r.leave track time = (r.setDepth track (· - 1)).call (.leave id time) := by
  simp only [leave, h]

/-- A slice that was opened on a track can be closed, whatever else has been recorded in between. -/
theorem leave_setDepth {track : String} {t : Track} (h : r.track? track = some t)
    (calls : List Call) (time : Int) :
    ({ r.setDepth track (· + 1) with calls } : Recording).leave track time =
      { r with calls := calls ++ [.leave t.id time] } := by
  have hname : t.name = track := by simpa using List.find?_some h
  have hopen : ({ r.setDepth track (· + 1) with calls } : Recording).track? track =
      some { t with depth := t.depth + 1 } := by
    have hdepth := r.track?_setDepth track track (· + 1)
    rw [h, Option.map_some, if_pos hname] at hdepth
    exact hdepth
  have hsame := congrArg Recording.tracks (r.setDepth_setDepth track)
  simp only [setDepth] at hsame
  rw [leave_of_track? hopen]
  simp only [call, setDepth, hsame]

namespace Equipped

theorem call (h : r.Equipped) (c : Call) : (r.call c).Equipped :=
  ⟨h.segments, h.instructions, h.counter⟩

theorem track (h : r.Equipped) (name : String) : (r.track name).2.Equipped := by
  have happend : ∀ {other : String} {id : Nat} (t : Track), (r.track? other).map (·.id) = some id →
      ((r.tracks ++ [t]).find? (·.name = other)).map (·.id) = some id := by
    intro other id t hid
    obtain ⟨u, hu, hid⟩ := Option.map_eq_some_iff.mp hid
    rw [track?] at hu
    rw [List.find?_append, hu, Option.some_or, Option.map_some, hid]
  unfold Recording.track
  split
  · exact h
  · exact ⟨happend _ h.segments, happend _ h.instructions, h.counter⟩

theorem counters (h : r.Equipped) (name : String) : (r.counter name).2.Equipped := by
  unfold Recording.counter
  split
  · exact h
  · refine ⟨h.segments, h.instructions, ?_⟩
    rw [List.lookup_append, h.counter, Option.some_or]

theorem setDepth (h : r.Equipped) (name : String) (f : Nat → Nat) :
    (r.setDepth name f).Equipped := by
  have hid : ∀ other, ((r.setDepth name f).track? other).map (·.id) =
      (r.track? other).map (·.id) := by
    intro other
    rw [track?_setDepth, Option.map_map]
    refine congrArg (fun g => (r.track? other).map g) (funext fun t => ?_)
    simp only [Function.comp]
    split <;> rfl
  exact ⟨(hid _).trans h.segments, (hid _).trans h.instructions, h.counter⟩

end Equipped

end Recording

end Disassembler.Trace

namespace Disassembler.Tracer

open Trace

theorem equipped_newRecording (path title : String) : (newRecording path title).Equipped :=
  ⟨rfl, rfl, rfl⟩

/-- A tracer with a time between two ticks, and with the tracks of every trace while it is on. -/
structure Equipped (tick : Int) (t : Tracer) : Prop where
  tick : t.tick = tick
  current : ∀ r, t.current = some r → r.Equipped

namespace Equipped

variable {tick : Int} {t : Tracer}

theorem record (h : t.Equipped tick) {f : Recording → Recording}
    (hf : ∀ r, r.Equipped → (f r).Equipped) : (t.record f).Equipped tick := by
  refine ⟨h.tick, fun r hr => ?_⟩
  obtain ⟨old, hold, rfl⟩ := Option.map_eq_some_iff.mp hr
  exact hf old (h.current old hold)

theorem enter (h : t.Equipped tick) (track name : String) (annotations : Annotations) :
    (t.enter track name annotations).Equipped tick :=
  h.record fun _ hr => ((hr.track track).setDepth track (· + 1)).call _

theorem leave (h : t.Equipped tick) (track : String) : (t.leave track).Equipped tick := by
  refine h.record fun r hr => ?_
  unfold Recording.leave
  split
  · exact (hr.setDepth track (· - 1)).call _
  · exact hr

end Equipped

theorem Request.equipped {tick : Int} {t u : Tracer} (r : Request) (h : t.Equipped tick)
    (hu : r.perform t = .ok u) : u.Equipped tick := by
  cases r with
  | start backend path title =>
    simp only [perform, Tracer.start] at hu
    split at hu
    · cases hu
      exact h
    · split at hu
      · cases hu
        refine ⟨h.tick, ?_⟩
        rintro _ ⟨⟩
        exact equipped_newRecording path title
      · cases hu
  | stop =>
    cases hu
    unfold Tracer.stop
    split
    · exact h
    · exact ⟨h.tick, fun r hr => (by cases hr)⟩
  | advance ticks =>
    cases hu
    exact ⟨h.tick, h.current⟩
  | instant track name annotations =>
    cases hu
    exact h.record fun _ hr => (hr.track track).call _
  | count name value =>
    cases hu
    exact h.record fun _ hr => (hr.counters name).call _
  | enter track name annotations =>
    cases hu
    exact h.enter track name annotations
  | leave track =>
    cases hu
    exact h.leave track

/-- Whatever was asked of a tracer before. -/
theorem Script.equipped_run (s : Script) (tick : Int) : (s.run { tick }).2.Equipped tick :=
  s.run_keeps (fun r _ _ h hu => r.equipped h hu) ⟨rfl, fun _ hr => (by cases hr)⟩

/-! ## Calls of a tracer -/

/-- The tracer when some ticks have passed, and some calls have been recorded if it is on. -/
def emit (t : Tracer) (ticks : Nat) (calls : List Call) : Tracer :=
  { t with
    elapsed := t.elapsed + ticks
    current := t.current.map fun r => { r with calls := r.calls ++ calls } }

theorem emit_nil (t : Tracer) : t.emit 0 [] = t := by
  cases h : t.current <;> simp [emit, h] <;> rw [← h]

theorem emit_emit (t : Tracer) (ticks more : Nat) (calls others : List Call) :
    (t.emit ticks calls).emit more others = t.emit (ticks + more) (calls ++ others) := by
  simp only [emit, Option.map_map, Nat.add_assoc, Function.comp_def, List.append_assoc]

theorem Equipped.emit {tick : Int} {t : Tracer} (h : t.Equipped tick) (ticks : Nat)
    (calls : List Call) : (t.emit ticks calls).Equipped tick := by
  refine ⟨h.tick, fun r hr => ?_⟩
  obtain ⟨old, hold, rfl⟩ := Option.map_eq_some_iff.mp hr
  exact ⟨(h.current old hold).segments, (h.current old hold).instructions,
    (h.current old hold).counter⟩

theorem enabled_emit (t : Tracer) (ticks : Nat) (calls : List Call) :
    (t.emit ticks calls).enabled = t.enabled := by
  simp [enabled, emit]

theorem now_emit (t : Tracer) (ticks : Nat) (calls : List Call) :
    (t.emit ticks calls).now = t.now + ticks * t.tick := by
  simp only [now, emit, Int.natCast_add, Int.add_mul]

theorem advance_emit (t : Tracer) (ticks : Int) : t.advance ticks = t.emit ticks.toNat [] := by
  cases h : t.current <;> simp [advance, emit, h]

theorem count_emit {tick : Int} {t : Tracer} (h : t.Equipped tick) (value : Value) :
    t.count counterName value = t.emit 0 [.count 4 value t.now] := by
  unfold count record emit
  cases hcurrent : t.current with
  | none => rfl
  | some r =>
    simp only [Option.map_some, Recording.count, Recording.counter, (h.current r hcurrent).counter,
      Recording.call, Nat.add_zero]

theorem enabled_enter (t : Tracer) (track name : String) (annotations : Annotations) :
    (t.enter track name annotations).enabled = t.enabled := by
  simp [enabled, enter, record]

/-- A slice is opened and closed around what happens in it. -/
theorem slice_emit {α : Type} {tick : Int} {t : Tracer} {track : String} {id : Nat} {name : String}
    {annotations : Annotations} {body : Tracer → α × Tracer} {a : α} {ticks : Nat}
    {calls : List Call} (h : t.Equipped tick) (hon : t.enabled = true)
    (hid : ∀ r : Recording, r.Equipped → (r.track? track).map (·.id) = some id)
    (hbody : body (t.enter track name annotations) =
      (a, (t.enter track name annotations).emit ticks calls)) :
    t.slice track name annotations body =
      (a, t.emit ticks (.enter id name t.now annotations ::
        (calls ++ [.leave id (t.now + ticks * tick)]))) := by
  obtain ⟨r, hr⟩ := Option.isSome_iff_exists.mp hon
  obtain ⟨u, hu, rfl⟩ := Option.map_eq_some_iff.mp (hid r (h.current r hr))
  have henter : t.enter track name annotations =
      { t with
        current :=
          some ((r.setDepth track (· + 1)).call (.enter u.id name t.now annotations)) } := by
    rw [enter, record, hr, Option.map_some, Recording.enter_of_track? hu]
  have htime : (t.now + ticks * tick : Int) = (t.emit ticks calls).now := by rw [now_emit, h.tick]
  -- opening and closing cancel out in the tracks, and only the calls are left
  rw [slice, if_pos hon, hbody, henter, htime]
  simp only [leave, record, emit, Option.map_some, hr, Recording.call, Recording.leave_setDepth hu]
  simp only [List.append_assoc, List.singleton_append]
  rfl

/-- What is done step after step. Each step adds to a number and records calls that tell of it; so
does a whole run, if what tells of some steps and then of others tells of them all. -/
theorem foldl_emit {β : Type} {tick : Int} {step : Nat × Tracer → β → Nat × Tracer}
    (amount : List β → Nat) (Told : Nat → Int → Int → List β → List Call → Prop)
    (hzero : amount [] = 0) (hadd : ∀ b bs, amount (b :: bs) = amount [b] + amount bs)
    (hnil : ∀ n time, Told n time time [] [])
    (happend : ∀ {n start middle stop b bs calls more}, Told n start middle [b] calls →
      Told (n + amount [b]) middle stop bs more →
      Told n start stop (b :: bs) (calls ++ more)) {t : Tracer}
    (h : t.Equipped tick) (hon : t.enabled = true) (n : Nat) {bs : List β}
    (hstep : ∀ b ∈ bs, ∀ (t : Tracer) (n : Nat), t.Equipped tick → t.enabled = true →
      ∃ ticks calls, step (n, t) b = (n + amount [b], t.emit ticks calls) ∧
        Told n t.now (t.now + ticks * tick) [b] calls) :
    ∃ ticks calls, bs.foldl step (n, t) = (n + amount bs, t.emit ticks calls) ∧
      Told n t.now (t.now + ticks * tick) bs calls := by
  induction bs generalizing t n with
  | nil =>
    refine ⟨0, [], ?_, ?_⟩
    · rw [emit_nil, hzero]
      rfl
    · rw [Int.natCast_zero, Int.zero_mul, Int.add_zero]
      exact hnil n t.now
  | cons b bs ih =>
    obtain ⟨hb, hbs⟩ := List.forall_mem_cons.mp hstep
    obtain ⟨ticks, calls, hfirst, htold⟩ := hb t n h hon
    obtain ⟨more, others, hrest, htold'⟩ :=
      ih (h.emit ticks calls) ((t.enabled_emit ticks calls).trans hon) (n + amount [b]) hbs
    refine ⟨ticks + more, calls ++ others, ?_, ?_⟩
    · rw [List.foldl_cons, hfirst, hrest, emit_emit, Nat.add_assoc, ← hadd]
    · rw [now_emit, h.tick] at htold'
      rw [Int.natCast_add, Int.add_mul, ← Int.add_assoc]
      exact happend htold htold'

end Disassembler.Tracer
