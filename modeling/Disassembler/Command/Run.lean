import Disassembler.Arch.Registry
import Disassembler.Command.Arguments
import Disassembler.FileTree
import Disassembler.Listing.Writer
import Disassembler.Plan.Loader
import Disassembler.Settings

/-!
Running a command line on a set of files. What is printed, what is written and what is traced are
results.
-/

namespace Disassembler.Command

/-- What a run can see. -/
structure World where
  files : Files
  environment : Environment := {}
  /-- whether there is a way to save a trace -/
  backend : Bool := true

inductive Outcome where
  | exit (code : Nat)
  /-- only help was asked for -/
  | help
  | usage (error : UsageError)
  /-- a fault that is not reported -/
  | escaped (fault : Fault)
  deriving DecidableEq, Repr

structure Report where
  outcome : Outcome
  stdout : String := ""
  stderr : String := ""
  /-- the file to write, and its text -/
  output : Option (Path × String) := none
  traces : List (List Trace.Call) := []
  deriving DecidableEq, Repr

/-- What accumulates during a run. -/
structure Session where
  log : List Event := []
  tracer : Tracer := {}
  deriving DecidableEq, Repr, Inhabited

abbrev Step := Action Session

namespace Step

def say (events : List Event) : Step Unit := modify fun s => { s with log := s.log ++ events }

/-- Load a command file; the plan and the symbols. -/
def loadPlan (world : World) (file : Path) : Step (Plan × SymbolTable) := do
  let (plan, s) := load world.files file {}
  say s.log
  return (← Action.lift plan, s.symbols)

/-- Read the image of a plan. -/
def readImage (world : World) (plan : Plan) : Step (List UInt8) := do
  match plan.inputFile with
  | none => throw .noInputFile
  | some file =>
    let image ← Action.lift ((world.files file).mapError (.unreadableImage file))
    say [⟨.info, .commandLine, file.toString ++ ": " ++ Text.decimal image.length ++ " bytes, " ++
      Text.decimal plan.segments.length ++ " segments"⟩]
    return image

/-- What the loader leaves in a trace. -/
def loaderNote (plan : Plan) (symbols : SymbolTable) (t : Tracer) : Tracer :=
  t.instant "Loader" "command file"
    [("segments", .number plan.segments.length), ("labels", .number symbols.labels.length)]

/-- Start the trace, if one is wanted. -/
def startTrace (world : World) (settings : Settings) (arch : Architecture) (plan : Plan)
    (symbols : SymbolTable) : Step Unit := fun s =>
  match settings.tracePath? with
  | none => .ok () s
  | some path =>
    match s.tracer.start world.backend path ("retrodasm " ++ arch.profile.name) with
    | .error fault => .error fault s
    | .ok t =>
      .ok () { s with
        log := s.log ++ s.tracer.startEvents path
        tracer := loaderNote plan symbols t }

/-- Write the listing, once. -/
def render (l : Listing) (image : List UInt8) (symbols : SymbolTable) : Step String := fun s =>
  match l.writer image symbols s.tracer with
  | .error fault => .error fault s
  | .ok w =>
    match w.render l with
    | (.ok text, w) => .ok text { log := s.log ++ w.log, tracer := w.tracer }
    | (.error fault, w) => .error fault { log := s.log ++ w.log, tracer := w.tracer }

def stopTrace (s : Session) : Session :=
  { log := s.log ++ s.tracer.stopEvents, tracer := s.tracer.stop }

/-- Stop the trace after a step, also when it fails. -/
def traced {α : Type} (m : Step α) : Step α := fun s =>
  match m s with
  | .ok a t => .ok a (stopTrace t)
  | .error fault t => .error fault (stopTrace t)

/-- Disassemble the image that a command file names. -/
def disassemble (world : World) (settings : Settings) (arch file : String) : Step String := do
  let arch ← Action.lift (Architecture.ofName arch)
  let (plan, symbols) ← loadPlan world (Path.ofString file)
  let image ← readImage world plan
  startTrace world settings arch plan symbols
  traced (render { arch, plan, balance := settings.balance } image symbols)

end Step

/-- The settings of the environment, changed by what the command line says. -/
def settings (world : World) (a : Arguments) : Settings :=
  let s := Settings.ofEnvironment world.environment
  { s with
    checkStack := (a.checkStack.map .flag).getD s.checkStack
    traceFile := (a.trace.map .text).getD s.traceFile }

/-- One line for each architecture. -/
def archLines : String :=
  String.join (Architecture.builtIn.map fun arch =>
    String.ofList (arch.profile.name.toList.rightpad 10 ' ') ++ " " ++
      arch.profile.description ++ "\n")

/-- A listing goes to the file that was named, or else to the standard output. -/
def delivered (a : Arguments) (text : String) (stderr : String)
    (traces : List (List Trace.Call)) : Report :=
  match a.output.filter (· ≠ "") with
  | none => { outcome := .exit 0, stdout := text, stderr, traces }
  | some path => { outcome := .exit 0, output := some (Path.ofString path, text), stderr, traces }

/-- What a fault leaves to report. -/
def failed (fault : Fault) (stderr : String) (traces : List (List Trace.Call)) : Report :=
  if fault.isReported then
    { outcome := .exit 1,
      stderr := stderr ++ "retrodasm :: Error :: " ++ fault.message ++ "\n", traces }
  else { outcome := .escaped fault, stderr, traces }

/-- Disassemble and report. -/
def listingReport (world : World) (a : Arguments) (arch file : String) : Report :=
  let s := settings world a
  match Step.disassemble world s arch file {} with
  | .ok text t => delivered a text (Event.shown (s.threshold a.verbose) t.log) t.tracer.traces
  | .error fault t => failed fault (Event.shown (s.threshold a.verbose) t.log) t.tracer.traces

/-- Carry out what a command line asks for. -/
def execute (world : World) (a : Arguments) : Report :=
  if a.listArchs then { outcome := .exit 0, stdout := archLines }
  else
    match a.arch.filter (· ≠ ""), a.listFile.filter (· ≠ "") with
    | some arch, some file => listingReport world a arch file
    | _, _ => { outcome := .usage .operandsRequired }

/-- Run a command line. -/
def run (world : World) (argv : List String) : Report :=
  match Arguments.ofStrings argv with
  | .error .help => { outcome := .help }
  | .error (.usage error) => { outcome := .usage error }
  | .ok a => execute world a

/-- Write the output file of a report into a tree of files. -/
def Report.store (r : Report) (tree : FileTree) : Report × FileTree :=
  match r.output with
  | none => (r, tree)
  | some (path, text) =>
    match tree.write path text.toUTF8.toList with
    | .ok tree => (r, tree)
    | .error reason => ({ r with outcome := .escaped (.unwritable path reason) }, tree)

/-- Run a command line on a tree of files. -/
def runOn (tree : FileTree) (environment : Environment) (backend : Bool) (argv : List String) :
    Report × FileTree :=
  (run { files := tree.read, environment, backend } argv).store tree

end Disassembler.Command
