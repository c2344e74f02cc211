import Disassembler.Command.Run
import Disassembler.Proofs.Listing.Clock
import Disassembler.Proofs.Trace.Runs

/-!
Command lines that fail. A listing is delivered as a whole or not at all: when the disassembler
gives up, at whatever point, nothing is printed and no file is touched. A trace that was being
recorded by then is saved, once and with all its slices closed.
-/

namespace Disassembler

open Trace

/-! ## What writing a listing does to a tracer -/

namespace Trace.Recording

theorem path_track (r : Recording) (name : String) : (r.track name).2.path = r.path := by
  unfold track
  split <;> rfl

theorem path_counter (r : Recording) (name : String) : (r.counter name).2.path = r.path := by
  unfold counter
  split <;> rfl

theorem path_leave (r : Recording) (track : String) (time : Int) :
    (r.leave track time).path = r.path := by
  unfold leave
  split <;> rfl

end Trace.Recording

namespace Tracer

/-- Properties that hold on: a listing asks nothing else of its tracer. -/
structure Kept (P : Tracer → Prop) : Prop where
  advance : ∀ t ticks, P t → P (t.advance ticks)
  count : ∀ t name value, P t → P (t.count name value)
  enter : ∀ t track name annotations, P t → P (t.enter track name annotations)
  leave : ∀ t track, P t → P (t.leave track)

namespace Kept

variable {P : Tracer → Prop}

theorem slice {α : Type} (hP : Kept P) {t : Tracer} (h : P t) (track name : String)
    (annotations : Annotations) {body : Tracer → α × Tracer} (hbody : ∀ u, P u → P (body u).2) :
    P (t.slice track name annotations body).2 := by
  unfold Tracer.slice
  split
  · exact hP.leave _ _ (hbody _ (hP.enter _ _ _ _ h))
  · exact hbody t h

theorem row (hP : Kept P) (state : Nat × Tracer) (h : P state.2) (row : Row) :
    P (Tracer.row state row).2 := by
  have hcount : P (Tracer.countUnknown row state).2 := by
    unfold Tracer.countUnknown
    split
    · exact hP.count _ _ _ h
    · exact h
  unfold Tracer.row
  split
  · exact hP.slice hcount _ _ _ fun u hu => hP.advance u _ hu
  · exact h

theorem rows (hP : Kept P) (rows : List Row) (state : Nat × Tracer) (h : P state.2) :
    P (rows.foldl Tracer.row state).2 := by
  induction rows generalizing state with
  | nil => exact h
  | cons row rows ih => exact ih _ (hP.row state h row)

theorem blocks (hP : Kept P) (blocks : List Block) (state : Nat × Tracer) (h : P state.2) :
    P (blocks.foldl Tracer.block state).2 := by
  induction blocks generalizing state with
  | nil => exact h
  | cons b blocks ih => exact ih _ (hP.slice h _ _ _ fun u hu => hP.rows b.rows (state.1, u) hu)

/-- Also when a fault ends the listing. -/
theorem render (hP : Kept P) (l : Listing) (w : Writer) (h : P w.tracer) :
    P (w.render l).2.tracer := by
  rw [Writer.render_tracer]
  exact hP.blocks _ (w.unknown, w.tracer) h

end Kept

/-- Nothing has been traced, and nothing is. -/
structure Off (t : Tracer) : Prop where
  current : t.current = none
  finished : t.finished = []

theorem Off.record {t : Tracer} (h : t.Off) (f : Recording → Recording) : (t.record f).Off :=
  ⟨by rw [Tracer.record, h.current, Option.map_none], h.finished⟩

theorem kept_off : Kept Off where
  advance _ _ h := ⟨h.current, h.finished⟩
  count _ _ _ h := h.record _
  enter _ _ _ _ h := h.record _
  leave _ _ h := h.record _

theorem Off.traces {t : Tracer} (h : t.Off) : t.traces = [] := by
  simp [Tracer.traces, h.current, h.finished]

theorem Off.stop {t : Tracer} (h : t.Off) : t.stop.Off := by
  rw [stop_of_off (by simp [enabled, h.current])]
  exact h

structure Underway (path : String) (t : Tracer) : Prop where
  valid : t.Valid
  finished : t.finished = []
  current : ∃ r, t.current = some r ∧ r.path = path

namespace Underway

variable {path : String} {t : Tracer}

theorem record (h : t.Underway path) {f : Recording → Recording} (hvalid : (t.record f).Valid)
    (hpath : ∀ r, (f r).path = r.path) : (t.record f).Underway path := by
  obtain ⟨r, hr, hrpath⟩ := h.current
  refine ⟨hvalid, h.finished, f r, ?_, (hpath r).trans hrpath⟩
  rw [Tracer.record, hr, Option.map_some]

theorem instant (h : t.Underway path) (track name : String) (annotations : Annotations) :
    (t.instant track name annotations).Underway path :=
  h.record (h.valid.record fun _ hr => hr.instant track name annotations) fun r =>
    r.path_track track

theorem start {backend : Bool} {title : String} {u : Tracer} (h : t.Off) (ht : t.Valid)
    (hstart : t.start backend path title = .ok u) : u.Underway path := by
  have hvalid := ht.start hstart
  have hoff : t.enabled = false := by simp [enabled, h.current]
  rw [start_of_off hoff] at hstart
  split at hstart
  · cases hstart
    refine ⟨hvalid, h.finished, _, rfl, ?_⟩
    rw [newRecording, Recording.path_counter]
    simp only [trackNames, List.foldl_cons, List.foldl_nil, Recording.path_track]
  · cases hstart

/-- Stopping saves the trace: it is the only one, its last call is the only one that saves, and it
is well formed. -/
theorem traces_stop (h : t.Underway path) :
    ∃ calls, t.stop.traces = [calls ++ [.save path]] ∧ (∀ other, Call.save other ∉ calls) ∧
      WellFormed (calls ++ [.save path]) := by
  obtain ⟨r, hr, rfl⟩ := h.current
  have hvalid := h.valid.current r hr
  refine ⟨r.calls ++ r.tracks.flatMap (Recording.closing t.now), ?_, fun other hsave => ?_,
    hvalid.finish⟩
  · simp [stop, hr, Tracer.traces, h.finished, Recording.finish]
  · rcases List.mem_append.mp hsave with hsave | hsave
    · exact hvalid.unsaved other hsave
    · obtain ⟨track, -, hclosing⟩ := List.mem_flatMap.mp hsave
      cases List.eq_of_mem_replicate hclosing

end Underway

theorem kept_underway (path : String) : Kept (Underway path) where
  advance _ ticks h := ⟨h.valid.advance ticks, h.finished, h.current⟩
  count _ name value h := h.record (h.valid.record fun _ hr => hr.count name value) fun r =>
    r.path_counter name
  enter _ track name annotations h := h.record (h.valid.enter track name annotations) fun r =>
    r.path_track track
  leave t track h := h.record (h.valid.leave track) fun r => r.path_leave track t.now

end Tracer

/-! ## The steps of a command -/

namespace Command

namespace Step

variable {α β : Type} {world : World}

def Untraced (m : Step α) : Prop := ∀ s, (Action.outcome (m s)).2.tracer = s.tracer

theorem Untraced.bind {m : Step α} {f : α → Step β} (hm : Untraced m) (hf : ∀ a, Untraced (f a)) :
    Untraced (m >>= f) := by
  intro s
  have hfirst := hm s
  cases h : m s with
  | error fault t =>
    rw [Action.bind_of_error _ h]
    rw [h] at hfirst
    exact hfirst
  | ok a t =>
    rw [Action.bind_of_ok _ h, hf a t]
    rw [h] at hfirst
    exact hfirst

theorem untraced_say (events : List Event) : Untraced (say events) := fun _ => rfl

theorem untraced_pure (a : α) : Untraced (pure a : Step α) := fun _ => rfl

theorem untraced_lift (r : Except Fault α) : Untraced (Action.lift r : Step α) := by
  cases r <;> exact fun _ => rfl

theorem untraced_loadPlan (world : World) (file : Path) : Untraced (loadPlan world file) :=
  (untraced_say _).bind fun _ => (untraced_lift _).bind fun _ => untraced_pure _

theorem untraced_readImage (world : World) (plan : Plan) : Untraced (readImage world plan) := by
  unfold readImage
  split
  · exact fun _ => rfl
  · exact (untraced_lift _).bind fun _ => (untraced_say _).bind fun _ => untraced_pure _

structure Materials where
  machine : Architecture
  plan : Plan
  symbols : SymbolTable
  image : List UInt8

def prepare (world : World) (arch file : String) : Step Materials := do
  let machine ← Action.lift (Architecture.ofName arch)
  let loaded ← loadPlan world (Path.ofString file)
  let image ← readImage world loaded.1
  return ⟨machine, loaded.1, loaded.2, image⟩

theorem disassemble_eq_prepare (world : World) (settings : Settings) (arch file : String) :
    disassemble world settings arch file = (do
      let m ← prepare world arch file
      startTrace world settings m.machine m.plan m.symbols
      traced (render ⟨m.machine, m.plan, settings.balance⟩ m.image m.symbols)) := by
  simp only [disassemble, prepare, bind_assoc, pure_bind]

theorem untraced_prepare (world : World) (arch file : String) :
    Untraced (prepare world arch file) :=
  (untraced_lift _).bind fun _ => (untraced_loadPlan _ _).bind fun _ =>
    (untraced_readImage _ _).bind fun _ =>
    untraced_pure _

/-- The machine is known, the command file can be loaded, and the image that it names can be
read. -/
structure Ready (world : World) (arch file : String) : Prop where
  machine : ∃ machine, Architecture.ofName arch = .ok machine
  image : ∃ plan name bytes, (load world.files (Path.ofString file) {}).1 = .ok plan ∧
    plan.inputFile = some name ∧ world.files name = .ok bytes

theorem lift_eq_ok {r : Except Fault α} {s t : Session} {a : α} (h : Action.lift r s = .ok a t) :
    r = .ok a := by
  cases r <;> cases h
  rfl

theorem loadPlan_eq_ok_iff {file : Path} {plan : Plan} {s : Session} :
    (∃ symbols t, loadPlan world file s = .ok (plan, symbols) t) ↔
    (load world.files file {}).1 = .ok plan := by
  unfold loadPlan
  rcases load world.files file {} with ⟨result, loading⟩
  constructor
  · rintro ⟨symbols, t, h⟩
    obtain ⟨_, u, -, h⟩ := Action.bind_eq_ok h
    obtain ⟨loaded, v, hload, h⟩ := Action.bind_eq_ok h
    cases h
    exact lift_eq_ok hload
  · intro h
    cases h
    exact ⟨_, _, rfl⟩

theorem readImage_eq_ok_iff {plan : Plan} {image : List UInt8} {s : Session} :
    (∃ t, readImage world plan s = .ok image t) ↔
      ∃ name, plan.inputFile = some name ∧ world.files name = .ok image := by
  unfold readImage
  cases hname : plan.inputFile with
  | none =>
    constructor
    · rintro ⟨t, h⟩
      cases h
    · rintro ⟨name, h, -⟩
      cases h
  | some name =>
    constructor
    · rintro ⟨t, h⟩
      obtain ⟨bytes, u, hread, h⟩ := Action.bind_eq_ok h
      obtain ⟨_, v, -, h⟩ := Action.bind_eq_ok h
      cases h
      refine ⟨name, rfl, ?_⟩
      have hread := lift_eq_ok hread
      cases hfile : world.files name with
      | error reason => rw [hfile] at hread; cases hread
      | ok bytes => rw [hfile] at hread; cases hread; rfl
    · rintro ⟨other, hother, hread⟩
      cases hother
      simp only [hread]
      exact ⟨_, rfl⟩

/-- Nothing else is needed for a listing to be begun. -/
theorem prepare_eq_ok_iff (world : World) (arch file : String) (s : Session) :
    (∃ m t, prepare world arch file s = .ok m t) ↔ Ready world arch file := by
  constructor
  · rintro ⟨m, t, h⟩
    obtain ⟨machine, u, hmachine, h⟩ := Action.bind_eq_ok h
    obtain ⟨loaded, v, hload, h⟩ := Action.bind_eq_ok h
    obtain ⟨image, w, himage, -⟩ := Action.bind_eq_ok h
    obtain ⟨name, hname, hread⟩ := readImage_eq_ok_iff.mp ⟨w, himage⟩
    exact ⟨⟨machine, lift_eq_ok hmachine⟩, loaded.1, name, image,
      loadPlan_eq_ok_iff.mp ⟨loaded.2, v, hload⟩, hname, hread⟩
  · rintro ⟨⟨machine, hmachine⟩, plan, name, image, hplan, hname, hread⟩
    obtain ⟨symbols, u, hload⟩ := (loadPlan_eq_ok_iff (s := s)).mpr hplan
    obtain ⟨t, himage⟩ := (readImage_eq_ok_iff (s := u)).mpr ⟨name, hname, hread⟩
    have hlift : (Action.lift (Architecture.ofName arch) : Step Architecture) s =
        .ok machine s := by
      rw [hmachine]
      rfl
    refine ⟨⟨machine, plan, symbols, image⟩, t, ?_⟩
    unfold prepare
    rw [Action.bind_of_ok _ hlift, Action.bind_of_ok _ hload, Action.bind_of_ok _ himage]
    rfl

/-! ## The trace of a command -/

/-- A trace has been started: everything in front of it went well, a trace is wanted, and there is a
way to save it. -/
structure Started (world : World) (settings : Settings) (arch file path : String) : Prop where
  ready : Ready world arch file
  wanted : settings.tracePath? = some path
  backend : world.backend = true

/-- Writing keeps what a listing keeps of its tracer, whether or not it fails. -/
theorem render_keeps {P : Tracer → Prop} (hP : Tracer.Kept P) (l : Listing) (image : List UInt8)
    (symbols : SymbolTable) {s : Session} (h : P s.tracer) :
    P (Action.outcome (render l image symbols s)).2.tracer := by
  unfold render
  cases hw : l.writer image symbols s.tracer with
  | error fault => exact h
  | ok w =>
    obtain ⟨-, -, -, -, htracer, -⟩ := Listing.writer_eq_ok hw
    have hrender := hP.render l w (htracer ▸ h)
    simp only
    split
    · next hr => rw [hr] at hrender; exact hrender
    · next hr => rw [hr] at hrender; exact hrender

theorem outcome_traced (m : Step α) (s : Session) :
    (Action.outcome (traced m s)).2 = stopTrace (Action.outcome (m s)).2 := by
  unfold traced
  cases m s <;> rfl

/-- A trace is started if one is wanted, and that fails only without a way to save it. -/
theorem startTrace_cases (world : World) (settings : Settings) (machine : Architecture)
    (plan : Plan) (symbols : SymbolTable) {s : Session} (hoff : s.tracer.Off)
    (hvalid : s.tracer.Valid) :
    (settings.tracePath? = none ∧ startTrace world settings machine plan symbols s = .ok () s) ∨
    (∃ fault, world.backend = false ∧ startTrace world settings machine plan symbols s =
      .error fault s) ∨
    ∃ path t, settings.tracePath? = some path ∧ world.backend = true ∧
      startTrace world settings machine plan symbols s = .ok () t ∧ t.tracer.Underway path := by
  have hdisabled : s.tracer.enabled = false := by simp [Tracer.enabled, hoff.current]
  unfold startTrace
  cases hpath : settings.tracePath? with
  | none => exact .inl ⟨rfl, rfl⟩
  | some path =>
    have hstart :=
      s.tracer.start_of_off hdisabled world.backend path ("retrodasm " ++ machine.profile.name)
    cases hbackend : world.backend with
    | false =>
      rw [hbackend] at hstart
      exact .inr (.inl ⟨.noTraceBackend, rfl, by simp only [hstart]; rfl⟩)
    | true =>
      rw [hbackend] at hstart
      refine .inr (.inr ⟨path, _, rfl, rfl, by simp only [hstart]; rfl, ?_⟩)
      exact (Tracer.Underway.start hoff hvalid hstart).instant _ _ _

/-- The traces that a command leaves, whether or not it fails: the one that was started, saved, or
none. -/
theorem disassemble_traces {world : World} {settings : Settings} {arch file : String}
    {session : Session}
    (hsession : (Action.outcome (disassemble world settings arch file {})).2 = session) :
    (∀ path, Started world settings arch file path →
      ∃ calls, session.tracer.traces = [calls ++ [.save path]] ∧
      (∀ other, Call.save other ∉ calls) ∧ WellFormed (calls ++ [.save path])) ∧
    ((∀ path, ¬ Started world settings arch file path) → session.tracer.traces = []) := by
  have hoff : ({} : Tracer).Off := ⟨rfl, rfl⟩
  have hvalid : ({} : Tracer).Valid :=
    ⟨Int.zero_le_ofNat 1000, fun r hr => (nomatch hr), fun calls h => (nomatch h)⟩
  have huntraced := untraced_prepare world arch file {}
  have hready := prepare_eq_ok_iff world arch file {}
  rw [← hsession, disassemble_eq_prepare]
  cases hprepare : prepare world arch file {} with
  | error fault t =>
    rw [hprepare] at huntraced
    rw [Action.bind_of_error _ hprepare]
    refine ⟨fun path h => ?_, fun _ => ?_⟩
    · obtain ⟨m, u, hm⟩ := hready.mpr h.ready
      rw [hprepare] at hm
      cases hm
    · change t.tracer.traces = []
      rw [show t.tracer = {} from huntraced]
      exact hoff.traces
  | ok m t =>
    have hready := hready.mp ⟨m, t, hprepare⟩
    have htracer : t.tracer = {} := by
      rw [hprepare] at huntraced
      exact huntraced
    rw [← htracer] at hoff hvalid
    rw [Action.bind_of_ok _ hprepare]
    rcases startTrace_cases world settings m.machine m.plan m.symbols hoff hvalid with
      ⟨hnone, hstart⟩ | ⟨fault, hbackend, hstart⟩ | ⟨path, u, hpath, hbackend, hstart, hunderway⟩
    · rw [Action.bind_of_ok _ hstart, outcome_traced]
      refine ⟨fun path h => ?_, fun _ => ?_⟩
      · cases hnone.symm.trans h.wanted
      · exact (render_keeps Tracer.kept_off _ _ _ hoff).stop.traces
    · rw [Action.bind_of_error _ hstart]
      refine ⟨fun path h => ?_, fun _ => hoff.traces⟩
      cases hbackend.symm.trans h.backend
    · rw [Action.bind_of_ok _ hstart, outcome_traced]
      refine ⟨fun other h => ?_, fun h => absurd ⟨hready, hpath, hbackend⟩ (h path)⟩
      cases hpath.symm.trans h.wanted
      exact (render_keeps (Tracer.kept_underway path) _ _ _ hunderway).traces_stop

end Step

/-! ## The report of a command -/

section

variable {world : World} {argv : List String} {a : Arguments} {arch file : String}

theorem run_of_arguments (h : Arguments.ofStrings argv = .ok a) :
    run world argv = execute world a := by
  unfold run
  rw [h]

theorem execute_of_operands (hlist : a.listArchs = false)
    (harch : a.arch.filter (· ≠ "") = some arch) (hfile : a.listFile.filter (· ≠ "") = some file) :
    execute world a = listingReport world a arch file := by
  unfold execute
  rw [if_neg (by rw [hlist]; exact Bool.false_ne_true), harch, hfile]

theorem listingReport_of_error {fault : Fault} {session : Session}
    (h : Step.disassemble world (settings world a) arch file {} = .error fault session) :
    listingReport world a arch file = failed fault
      (Event.shown ((settings world a).threshold a.verbose) session.log) session.tracer.traces := by
  unfold listingReport
  simp only [h]

theorem Report.store_of_none {r : Report} (h : r.output = none) (tree : FileTree) :
    r.store tree = (r, tree) := by
  unfold store
  rw [h]

end

/-- A command line that names a machine and a command file, on any tree of files and in any
environment, when disassembling ends with a fault that is reported. The exit code is one, nothing is
printed and the files stay as they are. If a trace had been started, it is the only one, its last
call is the one that saves it, and every slice in it has been closed; otherwise there is no
trace. -/
theorem runOn_failed (tree : FileTree) (environment : Environment) (backend : Bool)
    (argv : List String) {a : Arguments} {arch file : String} {fault : Fault} {session : Session}
    (hargv : Arguments.ofStrings argv = .ok a) (hlist : a.listArchs = false)
    (harch : a.arch = some arch) (hnamed : arch ≠ "") (hfile : a.listFile = some file)
    (hgiven : file ≠ "")
    (hrun : Step.disassemble ⟨tree.read, environment, backend⟩
      (settings ⟨tree.read, environment, backend⟩ a) arch
      file {} = .error fault session)
    (hreported : fault.isReported = true) :
    let world : World := ⟨tree.read, environment, backend⟩
    let report := (runOn tree environment backend argv).1
    report.outcome = .exit 1 ∧ report.stdout = "" ∧ report.output = none ∧
    (runOn tree environment backend argv).2 = tree ∧
    (∀ path, Step.Started world (settings world a) arch file path →
      ∃ calls, report.traces = [calls ++ [.save path]] ∧ (∀ other, Call.save other ∉ calls) ∧
        WellFormed (calls ++ [.save path])) ∧
    ((∀ path, ¬ Step.Started world (settings world a) arch file path) → report.traces = []) := by
  intro world report
  have harch' : a.arch.filter (· ≠ "") = some arch := by simp [harch, hnamed]
  have hfile' : a.listFile.filter (· ≠ "") = some file := by simp [hfile, hgiven]
  have hfailed := (run_of_arguments hargv).trans ((execute_of_operands hlist harch' hfile').trans
    (listingReport_of_error hrun))
  rw [failed, if_pos hreported] at hfailed
  have hreport : runOn tree environment backend argv = (run world argv, tree) :=
    Report.store_of_none (by rw [hfailed]) tree
  have hrunOn : report = run world argv := congrArg Prod.fst hreport
  obtain ⟨hstarted, hnone⟩ :=
    Step.disassemble_traces (congrArg (fun r => (Action.outcome r).2) hrun)
  rw [hrunOn, hfailed]
  exact ⟨rfl, rfl, rfl, congrArg Prod.snd hreport, hstarted, hnone⟩

/-- The image ends in the middle of an instruction, while the slice of the segments is open, and
there is an older listing in the way. -/
theorem runOn_failed_truncated :
    let tree : FileTree :=
      { files := [({ parts := ["rom.lst"] }, "f rom.bin\nc8000\n".toUTF8.toList),
          ({ parts := ["rom.bin"] }, [0xEA, 0xA9]),
          ({ parts := ["out.lst"] }, "old".toUTF8.toList)] }
    let argv := ["mos6502", "rom.lst", "-o", "out.lst", "--trace=t.trace"]
    let report := (runOn tree {} true argv).1
    report.outcome = .exit 1 ∧ report.stdout = "" ∧ (runOn tree {} true argv).2 = tree ∧
      ∃ calls, report.traces = [calls ++ [.save "t.trace"]] ∧
        WellFormed (calls ++ [.save "t.trace"]) := by
  intro tree argv report
  let world : World := ⟨tree.read, {}, true⟩
  let a : Arguments :=
    { arch := some "mos6502", listFile := some "rom.lst", output := some "out.lst",
      trace := some "t.trace" }
  have hargv : Arguments.ofStrings argv = .ok a := by decide +kernel
  have hfault :
      (Action.outcome (Step.disassemble world (settings world a) "mos6502" "rom.lst" {})).1 =
      .error (.endOfInput (some 0x8002)) := by decide +kernel
  have hprepared : (Action.outcome (Step.prepare world "mos6502" "rom.lst" {})).1.toOption.isSome =
      true := by
    decide +kernel
  have hready : Step.Ready world "mos6502" "rom.lst" := by
    apply (Step.prepare_eq_ok_iff world "mos6502" "rom.lst" {}).mp
    cases h : Step.prepare world "mos6502" "rom.lst" {} with
    | ok m t => exact ⟨m, t, rfl⟩
    | error fault t => rw [h] at hprepared; cases hprepared
  cases hrun : Step.disassemble world (settings world a) "mos6502" "rom.lst" {} with
  | ok text session => rw [hrun] at hfault; cases hfault
  | error fault session =>
    rw [hrun] at hfault
    cases hfault
    obtain ⟨hexit, hstdout, -, htree, hstarted, -⟩ :=
      runOn_failed tree {} true argv hargv rfl rfl (by decide) rfl
      (by decide) hrun rfl
    obtain ⟨calls, htraces, -, hwell⟩ := hstarted "t.trace" ⟨hready, by decide +kernel, rfl⟩
    exact ⟨hexit, hstdout, htree, calls, htraces, hwell⟩

end Command

end Disassembler
