import Disassembler.Command.Run

/-!
The command line program: it reads the files that a run needs, runs it, and carries out what it
reports.
-/

namespace Disassembler.Command

/-- Files that have been looked for. -/
abbrev Found := List (Path × Except OpenError (List UInt8))

def Found.files (found : Found) : Files := fun path => (found.lookup path).getD (.error .missing)

def openError : IO.Error → OpenError
  | .inappropriateType _ code _ => if code = 21 then .directory else .notDirectory
  | .invalidArgument .. => .nameTooLong
  | _ => .missing

def lookFor (path : Path) : IO (Except OpenError (List UInt8)) := do
  try
    return .ok (← IO.FS.readBinFile path.toString).toList
  catch e =>
    return .error (openError e)

/-- The file that loading a command file has to see next. -/
def nextFile (found : Found) (file : Path) : Option Path :=
  let missing (path : Path) : Option Path := if (found.lookup path).isSome then none else some path
  match (load found.files file {}).1 with
  | .ok plan => plan.inputFile.bind missing
  | .error (.unopenable path _) => missing path
  | .error _ => none

/-- Look for files until loading asks for no other. -/
partial def gather (found : Found) (file : Path) : IO Found := do
  match nextFile found file with
  | none => return found
  | some path => gather ((path, ← lookFor path) :: found) file

def gatherFor (argv : List String) : IO Found := do
  match Arguments.ofStrings argv with
  | .ok { listFile := some file, .. } => gather [] (Path.ofString file)
  | _ => return []

def environment : IO Environment := do
  return ⟨← IO.getEnv "RETRODASM_CHECK_STACK", ← IO.getEnv "RETRODASM_LOG_LEVEL",
    ← IO.getEnv "RETRODASM_TRACE"⟩

def usageText : String :=
  "usage: retrodasm [-h] [-o OUTPUT] [-v] [--trace TRACE] " ++
    "[--check-stack | --no-check-stack] [--list-archs]\n" ++
    "                 [arch] [listfile]\n"

/-- Carry out a report; the exit code. -/
def deliver (r : Report) : IO UInt32 := do
  IO.eprint r.stderr
  IO.print r.stdout
  if let some (path, text) := r.output then
    IO.FS.writeFile path.toString text
  match r.outcome with
  | .exit code => return code.toUInt32
  | .help =>
    IO.print usageText
    return 0
  | .usage error =>
    IO.eprint (usageText ++ error.message ++ "\n")
    return 2
  | .escaped fault =>
    IO.eprint (fault.message ++ "\n")
    return 1

end Disassembler.Command

def main (argv : List String) : IO UInt32 := do
  let found ← Disassembler.Command.gatherFor argv
  let environment ← Disassembler.Command.environment
  Disassembler.Command.deliver
    (Disassembler.Command.run { files := found.files, environment, backend := false } argv)
