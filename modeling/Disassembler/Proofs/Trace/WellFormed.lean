import Disassembler.Trace.Recording
import Mathlib.Algebra.Ring.Nat

/-!
Well-formed traces. Slices are closed after they were opened, events stand on tracks that have been
declared, no track is declared twice, and time does not go back. A recording is kept such that this
holds of its calls so far, with as many slices open on each track as it counts there; finishing it
closes them.
-/

namespace Disassembler.Trace

namespace Call

def enters (id : Nat) : Call → Bool
  | enter track _ _ _ => track = id
  | _ => false

def leaves (id : Nat) : Call → Bool
  | leave track _ => track = id
  | _ => false

def time? : Call → Option Int
  | instant _ _ time _ => some time
  | enter _ _ time _ => some time
  | leave _ time => some time
  | count _ _ time => some time
  | _ => none

def thread? : Call → Option (String × Nat)
  | thread name id => some (name, id)
  | _ => none

def counter? : Call → Option (String × Nat)
  | counterTrack name _ id => some (name, id)
  | _ => none

def declared? (c : Call) : Option Nat := (c.thread?.or c.counter?).map (·.2)

/-- The track of an event is among those declared before it, as one of the sort that it needs. -/
def StandsOn (before : List Call) : Call → Prop
  | instant track _ _ _ => track ∈ (before.filterMap thread?).map (·.2)
  | enter track _ _ _ => track ∈ (before.filterMap thread?).map (·.2)
  | leave track _ => track ∈ (before.filterMap thread?).map (·.2)
  | count track _ _ => track ∈ (before.filterMap counter?).map (·.2)
  | _ => True

end Call

def entered (calls : List Call) (id : Nat) : Nat := calls.countP (Call.enters id)

def left (calls : List Call) (id : Nat) : Nat := calls.countP (Call.leaves id)

def times (calls : List Call) : List Int := calls.filterMap Call.time?

/-- What holds of the calls of a trace at any time. -/
structure Orderly (calls : List Call) : Prop where
  nested : ∀ before, before <+: calls → ∀ id, left before id ≤ entered before id
  declared : ∀ before c, before ++ [c] <+: calls → c.StandsOn before
  threads : ((calls.filterMap Call.thread?).map (·.1)).Nodup
  counters : ((calls.filterMap Call.counter?).map (·.1)).Nodup
  numbers : (calls.filterMap Call.declared?).Nodup
  forward : (times calls).Pairwise (· ≤ ·)

/-- A trace that is complete: every slice is closed. -/
structure WellFormed (calls : List Call) : Prop extends Orderly calls where
  closed : ∀ id, left calls id = entered calls id

/-! ## One more call -/

section

variable {calls more : List Call} {c : Call}

theorem entered_append (id : Nat) :
    entered (calls ++ more) id = entered calls id + entered more id :=
  List.countP_append

theorem left_append (id : Nat) : left (calls ++ more) id = left calls id + left more id :=
  List.countP_append

theorem entered_enter (track id : Nat) (name : String) (time : Int) (annotations : Annotations) :
    entered [.enter track name time annotations] id = if track = id then 1 else 0 := by
  simp [entered, Call.enters, List.countP_cons]

theorem left_enter (track id : Nat) (name : String) (time : Int) (annotations : Annotations) :
    left [.enter track name time annotations] id = 0 := rfl

theorem entered_leave (track id : Nat) (time : Int) : entered [.leave track time] id = 0 := rfl

theorem left_leave (track id : Nat) (time : Int) :
    left [.leave track time] id = if track = id then 1 else 0 := by
  simp [left, Call.leaves, List.countP_cons]

theorem times_append : times (calls ++ more) = times calls ++ times more := List.filterMap_append

theorem orderly_nil : Orderly [] := by
  refine ⟨fun before h id => ?_, fun before c h => ?_, List.nodup_nil, List.nodup_nil,
    List.nodup_nil, List.Pairwise.nil⟩
  · rw [List.prefix_nil.mp h]
    exact Nat.le_refl 0
  · simp at h

/-- What is asked of one more call. -/
structure Fits (calls : List Call) (c : Call) : Prop where
  leaves : ∀ id, c.leaves id = true → left calls id < entered calls id
  standsOn : c.StandsOn calls
  thread : ∀ p, c.thread? = some p → p.1 ∉ (calls.filterMap Call.thread?).map (·.1)
  counter : ∀ p, c.counter? = some p → p.1 ∉ (calls.filterMap Call.counter?).map (·.1)
  number : ∀ id, c.declared? = some id → id ∉ calls.filterMap Call.declared?
  time : ∀ time, c.time? = some time → ∀ past ∈ times calls, past ≤ time

/-- A title or a save fits everywhere. -/
theorem Fits.aside (htime : c.time? = none) (hdeclared : c.declared? = none) : Fits calls c := by
  cases c with
  | title _ | save _ =>
    constructor
      <;> simp [Call.leaves, Call.StandsOn, Call.thread?, Call.counter?, Call.declared?, Call.time?]
  | thread _ _ | counterTrack _ _ _ => cases hdeclared
  | _ => cases htime

theorem filterMap_concat {α : Type} (f : Call → Option α) :
    (calls ++ [c]).filterMap f = calls.filterMap f ++ (f c).toList := by
  rw [List.filterMap_append]
  cases hc : f c <;> simp [hc]

theorem nodup_concat {α : Type} {as : List α} {a? : Option α} (h : as.Nodup)
    (hnew : ∀ a, a? = some a → a ∉ as) : (as ++ a?.toList).Nodup := by
  cases a? with
  | none => simpa using h
  | some a =>
    rw [Option.toList_some, List.nodup_append]
    refine ⟨h, by simp, fun b hb d hd hbd => hnew a rfl ?_⟩
    rw [List.mem_singleton.mp hd] at hbd
    exact hbd ▸ hb

theorem nested_concat
    (hcalls : ∀ before, before <+: calls → ∀ id, left before id ≤ entered before id)
    (hc : ∀ id, c.leaves id = true → left calls id < entered calls id) :
    ∀ before, before <+: calls ++ [c] → ∀ id, left before id ≤ entered before id := by
  intro before hbefore id
  rcases List.prefix_concat_iff.mp hbefore with rfl | hbefore
  · have hbalance := hcalls calls List.prefix_rfl id
    rw [left_append, entered_append]
    by_cases hleaves : c.leaves id = true
    · have hopen := hc id hleaves
      have hone : left [c] id = 1 := by simp [left, hleaves]
      omega
    · have hnone : left [c] id = 0 := by simp [left, hleaves]
      omega
  · exact hcalls before hbefore id

theorem Orderly.concat (h : Orderly calls) (hc : Fits calls c) : Orderly (calls ++ [c]) where
  nested := nested_concat h.nested hc.leaves
  declared before d hbefore := by
    rcases List.prefix_concat_iff.mp hbefore with heq | hbefore
    · obtain ⟨rfl, hcd⟩ := List.append_inj' heq rfl
      cases hcd
      exact hc.standsOn
    · exact h.declared before d hbefore
  threads := by
    rw [filterMap_concat, List.map_append, ← Option.toList_map]
    refine nodup_concat h.threads fun name hname => ?_
    obtain ⟨p, hp, rfl⟩ := Option.map_eq_some_iff.mp hname
    exact hc.thread p hp
  counters := by
    rw [filterMap_concat, List.map_append, ← Option.toList_map]
    refine nodup_concat h.counters fun name hname => ?_
    obtain ⟨p, hp, rfl⟩ := Option.map_eq_some_iff.mp hname
    exact hc.counter p hp
  numbers := by
    rw [filterMap_concat]
    exact nodup_concat h.numbers hc.number
  forward := by
    rw [times, filterMap_concat]
    refine List.pairwise_append.mpr ⟨h.forward, ?_, fun past hpast time htime => ?_⟩
    · cases c.time? <;> simp
    · exact hc.time time (Option.mem_toList.mp htime) past hpast

end

/-! ## Recordings -/

def openOn (tracks : List Track) (id : Nat) : Nat :=
  (tracks.map fun t => if t.id = id then t.depth else 0).sum

namespace Recording

/-- A recording agrees with its calls at a time: it knows the tracks that they declare, which are
numbered one after the other, and counts the slices that they leave open; no event is later than
that time. -/
structure Valid (r : Recording) (now : Int) : Prop where
  orderly : Orderly r.calls
  threads : r.calls.filterMap Call.thread? = r.tracks.map fun t => (t.name, t.id)
  counters : r.calls.filterMap Call.counter? = r.counters
  numbers : r.calls.filterMap Call.declared? = List.range' 1 (r.tracks.length + r.counters.length)
  balance : ∀ id, entered r.calls id = left r.calls id + openOn r.tracks id
  past : ∀ time ∈ times r.calls, time ≤ now
  unsaved : ∀ path, Call.save path ∉ r.calls

namespace Valid

variable {r : Recording} {now later : Int}

theorem mono (h : r.Valid now) (hle : now ≤ later) : r.Valid later :=
  { h with past := fun time htime => Int.le_trans (h.past time htime) hle }

theorem names (h : r.Valid now) : (r.tracks.map (·.name)).Nodup := by
  have hthreads := h.orderly.threads
  rw [h.threads, List.map_map] at hthreads
  exact hthreads

theorem id_mem (h : r.Valid now) {t : Track} (ht : t ∈ r.tracks) :
    t.id ∈ (r.calls.filterMap Call.thread?).map (·.2) := by
  rw [h.threads, List.map_map]
  exact List.mem_map_of_mem ht

/-- One more call that fits, with the tracks, the counters and the open slices brought up to
date. -/
theorem concat (h : r.Valid now) {c : Call} {tracks : List Track} {counters : List (String × Nat)}
    (hfits : Fits r.calls c)
    (htracks : tracks.map (fun t => (t.name, t.id)) = r.tracks.map (fun t => (t.name, t.id)) ++
      c.thread?.toList)
    (hcounters : counters = r.counters ++ c.counter?.toList)
    (hnumbers : List.range' 1 (tracks.length + counters.length) =
      List.range' 1 (r.tracks.length + r.counters.length) ++ c.declared?.toList)
    (hopen : ∀ id, openOn tracks id + left [c] id = openOn r.tracks id + entered [c] id)
    (hpast : ∀ time, c.time? = some time → time ≤ now) (hunsaved : ∀ path, c ≠ .save path) :
    Valid { r with calls := r.calls ++ [c], tracks, counters } now := by
  refine ⟨h.orderly.concat hfits, ?_, ?_, ?_, fun id => ?_, fun time htime => ?_,
    fun path hsave => ?_⟩
  · rw [filterMap_concat, h.threads, htracks]
  · rw [filterMap_concat, h.counters, hcounters]
  · rw [filterMap_concat, h.numbers, hnumbers]
  · have hbalance := h.balance id
    have hopen := hopen id
    change entered (r.calls ++ [c]) id = left (r.calls ++ [c]) id + openOn tracks id
    rw [entered_append, left_append]
    omega
  · rw [times, filterMap_concat] at htime
    rcases List.mem_append.mp htime with hbefore | hlast
    · exact h.past time hbefore
    · exact hpast time (Option.mem_toList.mp hlast)
  · rcases List.mem_append.mp hsave with hbefore | hlast
    · exact h.unsaved path hbefore
    · exact hunsaved path (List.mem_singleton.mp hlast).symm

/-- One more event at the present time, which may open or close a slice on the tracks that there
are. -/
theorem event (h : r.Valid now) {c : Call} {tracks : List Track}
    (htracks : tracks.map (fun t => (t.name, t.id)) = r.tracks.map fun t => (t.name, t.id))
    (hthread : c.thread? = none) (hcounter : c.counter? = none) (htime : c.time? = some now)
    (hstandsOn : c.StandsOn r.calls)
    (hopen : ∀ id, openOn tracks id + left [c] id = openOn r.tracks id + entered [c] id) :
    Valid { r with calls := r.calls ++ [c], tracks } now := by
  have hnumber : c.declared? = none := by simp [Call.declared?, hthread, hcounter]
  have hleaves : ∀ id, c.leaves id = true → left r.calls id < entered r.calls id := by
    intro id hc
    have hone : left [c] id = 1 := by simp [left, hc]
    have hnone : entered [c] id = 0 := by
      cases c <;> simp [Call.leaves] at hc
      rfl
    have hbalance := h.balance id
    have hopen := hopen id
    omega
  have hfits : Fits r.calls c :=
    { leaves := hleaves
      standsOn := hstandsOn
      thread := by simp [hthread]
      counter := by simp [hcounter]
      number := by simp [hnumber]
      time := by simpa [htime] using h.past }
  have hlength : tracks.length = r.tracks.length := by simpa using congrArg List.length htracks
  refine h.concat hfits ?_ ?_ ?_ hopen ?_ ?_
  · simp [hthread, htracks]
  · simp [hcounter]
  · simp [hnumber, hlength]
  · intro time heq
    rw [htime] at heq
    exact Int.le_of_eq (Option.some.inj heq).symm
  · rintro path rfl
    cases htime

/-- One more declaration, with the next number and a new name. -/
theorem declaration (h : r.Valid now) {c : Call} {tracks : List Track}
    {counters : List (String × Nat)} (hnumber : c.declared? = some r.nextId)
    (hthread : ∀ p, c.thread? = some p → p.1 ∉ r.tracks.map (·.name))
    (hcounter : ∀ p, c.counter? = some p → p.1 ∉ r.counters.map (·.1))
    (htracks : tracks.map (fun t => (t.name, t.id)) = r.tracks.map (fun t => (t.name, t.id)) ++
      c.thread?.toList)
    (hcounters : counters = r.counters ++ c.counter?.toList)
    (hopen : ∀ id, openOn tracks id = openOn r.tracks id) :
    Valid { r with calls := r.calls ++ [c], tracks, counters } now := by
  -- only declarations have a number
  have hcall : (∃ name id, c = .thread name id) ∨
      ∃ name unit id, c = .counterTrack name unit id := by
    cases c <;> simp [Call.declared?, Call.thread?, Call.counter?] at hnumber ⊢
  have htime : c.time? = none := by
    rcases hcall with ⟨_, _, rfl⟩ | ⟨_, _, _, rfl⟩ <;> rfl
  have hslices : ∀ id, c.leaves id = false ∧ c.enters id = false := by
    rcases hcall with ⟨_, _, rfl⟩ | ⟨_, _, _, rfl⟩ <;> exact fun id => ⟨rfl, rfl⟩
  have hstandsOn : c.StandsOn r.calls := by
    rcases hcall with ⟨_, _, rfl⟩ | ⟨_, _, _, rfl⟩ <;> exact trivial
  have hlength : tracks.length + counters.length = r.tracks.length + r.counters.length + 1 := by
    have htracks := congrArg List.length htracks
    rcases hcall with ⟨_, _, rfl⟩ | ⟨_, _, _, rfl⟩ <;>
      simp [Call.thread?, Call.counter?, hcounters] at htracks ⊢ <;> omega
  have hfits : Fits r.calls c :=
    { leaves := by simp [hslices]
      standsOn := hstandsOn
      thread := by simpa [h.threads] using hthread
      counter := by simpa [h.counters] using hcounter
      number := by
        intro id hid
        rw [hnumber] at hid
        cases hid
        rw [h.numbers, List.mem_range'_1, nextId]
        omega
      time := by simp [htime] }
  refine h.concat hfits htracks hcounters ?_ ?_ ?_ ?_
  · rw [hnumber, hlength, List.range'_1_concat, nextId, Nat.add_comm 1]
    rfl
  · simp [entered, left, hslices, hopen]
  · simp [htime]
  · rintro path rfl
    cases hnumber

/-- The track of a name, which is declared where there is none. -/
theorem track (h : r.Valid now) (name : String) :
    (r.track name).2.Valid now ∧ ∃ t ∈ (r.track name).2.tracks, t.name = name ∧
    t.id = (r.track name).1 := by
  unfold Recording.track
  cases hfind : r.track? name with
  | some t =>
    have hname : t.name = name := by simpa using List.find?_some hfind
    exact ⟨h, t, List.mem_of_find?_eq_some hfind, hname, rfl⟩
  | none =>
    have hnew : name ∉ r.tracks.map (·.name) := by
      intro hmem
      obtain ⟨t, ht, rfl⟩ := List.mem_map.mp hmem
      simpa using List.find?_eq_none.mp hfind t ht
    refine ⟨h.declaration rfl ?_ ?_ ?_ ?_ ?_, _, List.mem_concat_self, rfl, rfl⟩
    · simpa [Call.thread?] using hnew
    · simp [Call.counter?]
    · simp [Call.thread?]
    · simp [Call.counter?, call]
    · simp [openOn]

/-- The counter of a name, likewise. -/
theorem counter (h : r.Valid now) (name : String) :
    (r.counter name).2.Valid now ∧ (name, (r.counter name).1) ∈ (r.counter name).2.counters := by
  unfold Recording.counter
  cases hfind : r.counters.lookup name with
  | some id =>
    obtain ⟨before, after, hcounters, -⟩ := List.lookup_eq_some_iff.mp hfind
    exact ⟨h, by simp [hcounters]⟩
  | none =>
    have hnew : name ∉ r.counters.map (·.1) := by
      intro hmem
      obtain ⟨p, hp, rfl⟩ := List.mem_map.mp hmem
      simpa using List.lookup_eq_none_iff.mp hfind p hp
    refine ⟨h.declaration rfl ?_ ?_ ?_ ?_ ?_, List.mem_concat_self⟩
    · simp [Call.thread?]
    · simpa [Call.counter?] using hnew
    · simp [Call.thread?, call]
    · simp [Call.counter?]
    · simp [call]

/-! ## Events -/

theorem map_setDepth (r : Recording) (name : String) (f : Nat → Nat) :
    (r.setDepth name f).tracks.map (fun t => (t.name, t.id)) = r.tracks.map fun t =>
      (t.name, t.id) := by
  rw [setDepth, List.map_map]
  refine List.map_congr_left fun t _ => ?_
  simp only [Function.comp]
  split <;> rfl

/-- A change on one track changes what is open under its number. -/
theorem openOn_map {tracks : List Track} (hnames : (tracks.map (·.name)).Nodup) {t : Track}
    (ht : t ∈ tracks) (f : Nat → Nat) (id : Nat) :
    openOn (tracks.map fun u => if u.name = t.name then { u with depth := f u.depth } else u) id +
        (if t.id = id then t.depth else 0) =
      openOn tracks id + if t.id = id then f t.depth else 0 := by
  induction tracks with
  | nil => cases ht
  | cons u us ih =>
    obtain ⟨hu, hus⟩ := List.nodup_cons.mp hnames
    rcases List.mem_cons.mp ht with rfl | ht
    · have hothers : us.map (fun u => if u.name = t.name then { u with depth := f u.depth }
        else u) = us := by
        refine (List.map_congr_left fun v hv => ?_).trans us.map_id
        have hne : v.name ≠ t.name := by
          intro heq
          exact hu (List.mem_map.mpr ⟨v, hv, heq⟩)
        rw [if_neg hne, id_eq]
      rw [List.map_cons, hothers]
      simp only [openOn, List.map_cons, List.sum_cons, if_true]
      omega
    · have hne : u.name ≠ t.name := by
        intro heq
        exact hu (List.mem_map.mpr ⟨t, ht, heq.symm⟩)
      have hrest := ih hus ht
      simp only [openOn, List.map_cons, List.sum_cons, if_neg hne] at hrest ⊢
      omega

theorem instant (h : r.Valid now) (track name : String) (annotations : Annotations) :
    (r.instant track name now annotations).Valid now := by
  obtain ⟨htrack, t, ht, -, hid⟩ := h.track track
  refine htrack.event rfl rfl rfl rfl ?_ fun id => rfl
  show (r.track track).1 ∈ _
  rw [← hid]
  exact htrack.id_mem ht

theorem count (h : r.Valid now) (name : String) (value : Value) :
    (r.count name value now).Valid now := by
  obtain ⟨hcounter, hmem⟩ := h.counter name
  refine hcounter.event rfl rfl rfl rfl ?_ fun id => rfl
  show (r.counter name).1 ∈ _
  rw [hcounter.counters]
  exact List.mem_map_of_mem hmem

theorem enter (h : r.Valid now) (track name : String) (annotations : Annotations) :
    (r.enter track name now annotations).Valid now := by
  obtain ⟨htrack, t, ht, rfl, hid⟩ := h.track track
  refine htrack.event (map_setDepth _ _ _) rfl rfl rfl ?_ fun id => ?_
  · show (r.track t.name).1 ∈ _
    rw [← hid]
    exact htrack.id_mem ht
  · have hopen := openOn_map htrack.names ht (· + 1) id
    rw [← hid, left_enter, entered_enter, setDepth]
    by_cases hsame : t.id = id
    · simp only [hsame, if_true] at hopen ⊢
      omega
    · simpa only [hsame, if_false] using hopen

theorem leave (h : r.Valid now) (track : String) : (r.leave track now).Valid now := by
  unfold Recording.leave
  split
  · next name id depth hfind =>
    have ht := List.mem_of_find?_eq_some hfind
    have hname : name = track := by simpa using List.find?_some hfind
    subst hname
    refine h.event (map_setDepth _ _ _) rfl rfl rfl (h.id_mem ht) fun other => ?_
    have hopen := openOn_map h.names ht (· - 1) other
    rw [left_leave, entered_leave, setDepth]
    by_cases hsame : id = other
    · simp only [hsame, if_true] at hopen ⊢
      omega
    · simpa only [hsame, if_false] using hopen
  · exact h

end Valid

/-! ## From the first call to the last -/

theorem valid_titled (path title : String) (now : Int) :
    ({ path, calls := [.title title] } : Recording).Valid now := by
  exact ⟨orderly_nil.concat (.aside rfl rfl), rfl, rfl, rfl, fun id => rfl,
    by simp [times, Call.time?], by simp⟩

/-- Slices may be closed as often as they are open. -/
theorem orderly_leaves {calls : List Call} {now : Int} {ids : List Nat} (h : Orderly calls)
    (hopen : ∀ id, left calls id + ids.count id ≤ entered calls id)
    (hdeclared : ∀ id ∈ ids, id ∈ (calls.filterMap Call.thread?).map (·.2))
    (hpast : ∀ time ∈ times calls, time ≤ now) : Orderly (calls ++ ids.map (Call.leave · now)) := by
  induction ids generalizing calls with
  | nil => simpa using h
  | cons id ids ih =>
    have hfits : Fits calls (.leave id now) :=
      { leaves := by
          intro other hother
          have hsame : id = other := by simpa [Call.leaves] using hother
          have hopen := hopen id
          rw [List.count_cons_self] at hopen
          rw [← hsame]
          omega
        standsOn := hdeclared id List.mem_cons_self
        thread := by simp [Call.thread?]
        counter := by simp [Call.counter?]
        number := by simp [Call.declared?, Call.thread?, Call.counter?]
        time := by simpa [Call.time?] using hpast }
    rw [List.map_cons, ← List.singleton_append, ← List.append_assoc]
    refine ih (h.concat hfits) (fun other => ?_) (fun other hother => ?_) ?_
    · have hopen := hopen other
      rw [left_append, entered_append, left_leave, entered_leave]
      rw [List.count_cons] at hopen
      by_cases hsame : id = other
      · simp only [hsame, if_true, beq_self_eq_true] at hopen ⊢
        omega
      · simp only [hsame, if_false, beq_iff_eq] at hopen ⊢
        omega
    · rw [filterMap_concat]
      simpa [Call.thread?] using hdeclared other (List.mem_cons_of_mem id hother)
    · intro time htime
      rw [times_append] at htime
      rcases List.mem_append.mp htime with htime | htime
      · exact hpast time htime
      · simp [times, Call.time?] at htime
        omega

theorem flatMap_closing (tracks : List Track) (now : Int) :
    tracks.flatMap (closing now) = (tracks.flatMap fun t => List.replicate t.depth t.id).map
      (Call.leave · now) := by
  rw [List.map_flatMap]
  refine congrArg (tracks.flatMap ·) (funext fun t => ?_)
  rw [List.map_replicate, closing]

theorem count_flatMap_replicate (tracks : List Track) (id : Nat) :
    (tracks.flatMap fun t => List.replicate t.depth t.id).count id = openOn tracks id := by
  simp [openOn, List.count_flatMap, List.count_replicate, Function.comp_def]

theorem left_leaves (ids : List Nat) (now : Int) (id : Nat) :
    left (ids.map (Call.leave · now)) id = ids.count id := by
  simp [left, List.countP_map, List.count, Call.leaves, Function.comp_def, BEq.beq]

theorem entered_leaves (ids : List Nat) (now : Int) (id : Nat) :
    entered (ids.map (Call.leave · now)) id = 0 := by
  simp [entered, List.countP_map, Call.enters, Function.comp_def]

/-- What has been recorded is well formed when it is finished. -/
theorem Valid.finish {r : Recording} {now : Int} (h : r.Valid now) : WellFormed (r.finish now) := by
  have hopen := count_flatMap_replicate r.tracks
  rw [Recording.finish, flatMap_closing]
  generalize hids : (r.tracks.flatMap fun t => List.replicate t.depth t.id) = ids at hopen ⊢
  have hleaves : Orderly (r.calls ++ ids.map (Call.leave · now)) := by
    refine orderly_leaves h.orderly (fun id => ?_) (fun id hid => ?_) h.past
    · exact Nat.le_of_eq (by rw [hopen, h.balance])
    · rw [← hids] at hid
      obtain ⟨t, ht, hmem⟩ := List.mem_flatMap.mp hid
      rw [List.eq_of_mem_replicate hmem]
      exact h.id_mem ht
  refine ⟨hleaves.concat (.aside rfl rfl), fun id => ?_⟩
  have hbalance := h.balance id
  have hsave : left [.save r.path] id = 0 ∧ entered [.save r.path] id = 0 := ⟨rfl, rfl⟩
  rw [left_append, left_append, entered_append, entered_append, left_leaves, entered_leaves, hopen]
  omega

end Recording

end Disassembler.Trace
