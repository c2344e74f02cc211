import Disassembler.Proofs.Trace.WellFormed
import Disassembler.Trace.Tracer

/-!
Runs of a tracer. Whatever is asked of it, in whatever nesting and with whatever failures on the
way, the traces that it saves are well formed; and what is asked while it is off leaves nothing in
any trace.
-/

namespace Disassembler.Tracer

open Trace

/-! ## Requests -/

inductive Request where
  | start (backend : Bool) (path title : String)
  | stop
  | advance (ticks : Int)
  | instant (track name : String) (annotations : Annotations)
  | count (name : String) (value : Value)
  | enter (track name : String) (annotations : Annotations)
  | leave (track : String)
  deriving DecidableEq, Repr

namespace Request

def perform : Request → Tracer → Except Fault Tracer
  | start backend path title, t => t.start backend path title
  | stop, t => .ok t.stop
  | advance ticks, t => .ok (t.advance ticks)
  | instant track name annotations, t => .ok (t.instant track name annotations)
  | count name value, t => .ok (t.count name value)
  | enter track name annotations, t => .ok (t.enter track name annotations)
  | leave track, t => .ok (t.leave track)

def isStart : Request → Bool
  | start .. => true
  | _ => false

end Request

/-- What is done with a tracer, step by step. A failure ends what is being done, up to the next
place where failures are dealt with. -/
inductive Script where
  | done
  | request (request : Request) (rest : Script)
  | slice (track name : String) (annotations : Annotations) (body rest : Script)
  | raise (fault : Fault)
  /-- go on with `rest` even if `body` fails -/
  | attempt (body rest : Script)

namespace Script

def run : Script → Tracer → Except Fault Unit × Tracer
  | done, t => (.ok (), t)
  | request r rest, t =>
    match r.perform t with
    | .ok u => rest.run u
    | .error fault => (.error fault, t)
  | slice track name annotations body rest, t =>
    match t.slice track name annotations body.run with
    | (.ok _, u) => rest.run u
    | (.error fault, u) => (.error fault, u)
  | raise fault, t => (.error fault, t)
  | attempt body rest, t => rest.run (body.run t).2

def starts : Script → Bool
  | done => false
  | request r rest => r.isStart || rest.starts
  | slice _ _ _ body rest => body.starts || rest.starts
  | raise _ => false
  | attempt body rest => body.starts || rest.starts

end Script

/-! ## What every run keeps -/

/-- The clock does not go back, the present recording agrees with its calls, and what was saved is
well formed. -/
structure Valid (t : Tracer) : Prop where
  tick : 0 ≤ t.tick
  current : ∀ r, t.current = some r → r.Valid t.now
  finished : ∀ calls ∈ t.finished, WellFormed calls

namespace Valid

variable {t u : Tracer}

theorem advance (h : t.Valid) (ticks : Int) : (t.advance ticks).Valid := by
  refine ⟨h.tick, fun r hr => (h.current r hr).mono ?_, h.finished⟩
  have helapsed : (t.elapsed : Int) ≤ (t.advance ticks).elapsed :=
    Int.ofNat_le.mpr (Nat.le_add_right _ _)
  exact Int.mul_le_mul_of_nonneg_right helapsed h.tick

theorem stop (h : t.Valid) : t.stop.Valid := by
  unfold Tracer.stop
  split
  · exact h
  · next r hr =>
    refine ⟨h.tick, fun _ hnone => (nomatch hnone), fun calls hcalls => ?_⟩
    rcases List.mem_append.mp hcalls with hcalls | hcalls
    · exact h.finished calls hcalls
    · rw [List.mem_singleton.mp hcalls]
      exact (h.current r hr).finish

theorem record {f : Recording → Recording} (h : t.Valid)
    (hf : ∀ r, r.Valid t.now → (f r).Valid t.now) : (t.record f).Valid := by
  refine ⟨h.tick, fun r hr => ?_, h.finished⟩
  obtain ⟨old, hold, rfl⟩ := Option.map_eq_some_iff.mp hr
  exact hf old (h.current old hold)

theorem enter (h : t.Valid) (track name : String) (annotations : Annotations) :
    (t.enter track name annotations).Valid :=
  h.record fun _ hr => hr.enter track name annotations

theorem leave (h : t.Valid) (track : String) : (t.leave track).Valid :=
  h.record fun _ hr => hr.leave track

end Valid

theorem valid_newRecording (path title : String) (now : Int) :
    (newRecording path title).Valid now := by
  have htracks : ∀ (names : List String) (r : Recording), r.Valid now →
      (names.foldl (fun r name => (r.track name).2) r).Valid now := by
    intro names
    induction names with
    | nil => exact fun r hr => hr
    | cons name names ih => exact fun r hr => ih _ (hr.track name).1
  exact ((htracks trackNames _ (Recording.valid_titled path title now)).counter counterName).1

theorem Valid.start {t u : Tracer} (h : t.Valid) {backend : Bool} {path title : String}
    (hstart : t.start backend path title = .ok u) : u.Valid := by
  unfold Tracer.start at hstart
  split at hstart
  · cases hstart
    exact h
  · split at hstart
    · cases hstart
      refine ⟨h.tick, fun r hr => ?_, h.finished⟩
      cases hr
      exact valid_newRecording path title _
    · cases hstart

theorem Request.valid {t u : Tracer} (r : Request) (h : t.Valid) (hu : r.perform t = .ok u) :
    u.Valid := by
  cases r with
  | start backend path title => exact h.start hu
  | stop => cases hu; exact h.stop
  | advance ticks => cases hu; exact h.advance ticks
  | instant track name annotations =>
    cases hu; exact h.record fun _ hr => hr.instant track name annotations
  | count name value => cases hu; exact h.record fun _ hr => hr.count name value
  | enter track name annotations => cases hu; exact h.enter track name annotations
  | leave track => cases hu; exact h.leave track

/-- What every request keeps is kept by every run. -/
theorem Script.run_keeps {P : Tracer → Prop}
    (hP : ∀ (r : Request) (t u : Tracer), P t → r.perform t = .ok u → P u) (s : Script) {t : Tracer}
    (h : P t) : P (s.run t).2 := by
  induction s generalizing t with
  | done => exact h
  | raise fault => exact h
  | request r rest ih =>
    rw [run]
    split
    · next u hu => exact ih (hP r t u h hu)
    · exact h
  | slice track name annotations body rest ihbody ih =>
    have hslice : P (t.slice track name annotations body.run).2 := by
      unfold Tracer.slice
      split
      · have henter : P (t.enter track name annotations) :=
          hP (.enter track name annotations) t _ h rfl
        exact hP (.leave track) _ _ (ihbody henter) rfl
      · exact ihbody h
    rw [run]
    split
    · next u heq =>
      rw [heq] at hslice
      exact ih hslice
    · next heq =>
      rw [heq] at hslice
      exact hslice
  | attempt body rest ihbody ih => exact ih (ihbody h)

theorem Script.valid_run (s : Script) {t : Tracer} (h : t.Valid) : (s.run t).2.Valid :=
  s.run_keeps (fun r _ _ h hu => r.valid h hu) h

/-! ## While the tracer is off -/

section

variable {t : Tracer}

theorem record_of_off (hoff : t.enabled = false) (f : Recording → Recording) : t.record f = t := by
  have hcurrent : t.current = none := by simpa [enabled] using hoff
  rw [record, hcurrent, Option.map_none, ← hcurrent]

theorem stop_of_off (hoff : t.enabled = false) : t.stop = t := by
  have hcurrent : t.current = none := by simpa [enabled] using hoff
  simp only [stop, hcurrent]

theorem slice_of_off {α : Type} (hoff : t.enabled = false) (track name : String)
    (annotations : Annotations) (body : Tracer → α × Tracer) :
    t.slice track name annotations body = body t := by
  simp [slice, hoff]

/-- Only the clock moves. -/
theorem Request.perform_of_off {r : Request} (hoff : t.enabled = false) (hr : r.isStart = false) :
    ∃ elapsed, r.perform t = .ok { t with elapsed } := by
  cases r with
  | start backend path title => cases hr
  | stop => exact ⟨t.elapsed, congrArg _ (stop_of_off hoff)⟩
  | advance ticks => exact ⟨_, rfl⟩
  | _ => exact ⟨t.elapsed, congrArg _ (record_of_off hoff _)⟩

theorem Script.run_of_off (s : Script) (hoff : t.enabled = false) (hs : s.starts = false) :
    ∃ elapsed, (s.run t).2 = { t with elapsed } := by
  induction s generalizing t with
  | done => exact ⟨t.elapsed, rfl⟩
  | raise fault => exact ⟨t.elapsed, rfl⟩
  | request r rest ih =>
    obtain ⟨hr, hrest⟩ := Bool.or_eq_false_iff.mp hs
    obtain ⟨elapsed, hperform⟩ := Request.perform_of_off hoff hr
    simp only [run, hperform]
    exact ih (t := { t with elapsed }) hoff hrest
  | slice track name annotations body rest ihbody ih =>
    obtain ⟨hbody, hrest⟩ := Bool.or_eq_false_iff.mp hs
    obtain ⟨elapsed, heq⟩ := ihbody hoff hbody
    rw [run, slice_of_off hoff]
    split
    · next u hrun =>
      rw [hrun] at heq
      cases heq
      exact ih (t := { t with elapsed }) hoff hrest
    · next hrun =>
      rw [hrun] at heq
      exact ⟨elapsed, heq⟩
  | attempt body rest ihbody ih =>
    obtain ⟨hbody, hrest⟩ := Bool.or_eq_false_iff.mp hs
    obtain ⟨elapsed, heq⟩ := ihbody hoff hbody
    rw [run, heq]
    exact ih (t := { t with elapsed }) hoff hrest

/-- A start sets the clock back and begins a recording of its own. -/
theorem start_of_off (hoff : t.enabled = false) (backend : Bool) (path title : String) :
    t.start backend path title =
      if backend then .ok { t with elapsed := 0, current := some (newRecording path title) }
      else .error .noTraceBackend := by
  rw [start, hoff]
  rfl

end

/-! ## Saved traces -/

theorem Valid.saved {t : Tracer} (h : t.Valid) {calls : List Call} (hcalls : calls ∈ t.traces)
    {path : String} (hsave : Call.save path ∈ calls) : WellFormed calls := by
  rcases List.mem_append.mp hcalls with hcalls | hcalls
  · exact h.finished calls hcalls
  · obtain ⟨r, hr, rfl⟩ := Option.map_eq_some_iff.mp (Option.mem_toList.mp hcalls)
    exact absurd hsave ((h.current r hr).unsaved path)

/-- Every trace that a tracer saves is well formed, after whatever script it was put through. What
is done while the tracer is off, other than to start it, leaves the traces as they are and makes no
difference to the next start; a slice that is begun while it is off is its body and nothing else. -/
theorem traces_wellFormed (tick : Int) (htick : 0 ≤ tick) :
    (∀ (s : Script), ∀ calls ∈ (s.run { tick }).2.traces, ∀ path, Call.save path ∈ calls →
      WellFormed calls) ∧
    ∀ t : Tracer, t.enabled = false →
      (∀ s : Script, s.starts = false →
        (s.run t).2.traces = t.traces ∧
        ∀ backend path title, (s.run t).2.start backend path title = t.start backend path title) ∧
      (∀ backend path title u, t.start backend path title = .ok u →
        ∃ calls, u.traces = t.traces ++ [calls]) ∧
      ∀ track name annotations body, (Script.slice track name annotations body .done).run t =
        body.run t := by
  refine ⟨fun s calls hcalls path hsave => ?_,
    fun t hoff => ⟨fun s hs => ?_, fun backend path title u hu => ?_, ?_⟩⟩
  · have hnew : ({ tick } : Tracer).Valid :=
      ⟨htick, fun r hr => (nomatch hr), fun calls h => (nomatch h)⟩
    exact (s.valid_run hnew).saved hcalls hsave
  · obtain ⟨elapsed, heq⟩ := s.run_of_off hoff hs
    rw [heq]
    refine ⟨rfl, fun backend path title => ?_⟩
    rw [start_of_off hoff, start_of_off (t := { t with elapsed }) hoff]
  · have hcurrent : t.current = none := by simpa [enabled] using hoff
    rw [start_of_off hoff] at hu
    cases backend with
    | false => cases hu
    | true =>
      cases hu
      exact ⟨(newRecording path title).calls, by simp [traces, hcurrent]⟩
  · intro track name annotations body
    rw [Script.run, slice_of_off hoff]
    split
    · next heq => rw [heq, Script.run]
    · next heq => rw [heq]

/-- Two slices are open when the trace is stopped; inside them another trace is started, a slice is
left open in it, and a failure ends both. -/
theorem traces_wellFormed_restarted :
    let inner : Script := .request .stop <| .request (.instant "Loader" "lost" []) <|
      .request (.start true "second" "again") <| .request (.enter "Segments" "open" []) <|
      .request (.advance (-3)) <| .raise .noTraceBackend
    let outer : Script := .request (.advance 2) (.slice "Extra" "inner" [] inner .done)
    let script : Script := .request (.start true "first" "once") <|
      .attempt (.slice "Segments" "outer" [] outer .done) <| .request .stop .done
    let declared : List Call := [.thread "Segments" 1, .thread "Instructions" 2, .thread "Loader" 3,
      .counterTrack "unknown opcodes" "count" 4]
    let first := .title "once" :: declared ++
      [.enter 1 "outer" 0 [], .thread "Extra" 5, .enter 5 "inner" 20 [],
      .leave 1 20, .leave 5 20, .save "first"]
    let second := .title "again" :: declared ++ [.enter 1 "open" 0 [], .leave 1 0, .save "second"]
    (0 : Int) ≤ 10 ∧ (script.run { tick := 10 }).2.traces = [first, second] ∧ WellFormed first ∧
      WellFormed second := by
  intro inner outer script declared first second
  have htraces : (script.run { tick := 10 }).2.traces = [first, second] := rfl
  have hall := (traces_wellFormed 10 (by decide)).1 script
  rw [htraces] at hall
  exact ⟨by decide, htraces, hall first (by simp) "first" (by simp [first]),
    hall second (by simp) "second" (by simp [second])⟩

end Disassembler.Tracer
