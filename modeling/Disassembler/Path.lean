/-!
Slash-separated paths. Empty parts and `.` parts are dropped, `..` parts are kept.
-/

namespace Disassembler

/-- `root` counts the slashes a path starts with: none for a relative path, one, or exactly two. -/
structure Path where
  root : Nat := 0
  parts : List String := []
  deriving DecidableEq, Repr, Inhabited

namespace Path

/-- Three or more leading slashes count as one. -/
def ofString (s : String) : Path :=
  let slashes := (s.toList.takeWhile (· = '/')).length
  { root := if slashes ≤ 2 then slashes else 1
    parts :=
      ((s.toList.splitOn '/').filter fun part => part ≠ [] ∧ part ≠ ['.']).map String.ofList }

/-- The empty relative path is shown as a dot. -/
def toString (p : Path) : String :=
  if p.root = 0 ∧ p.parts = [] then "."
  else String.ofList (List.replicate p.root '/') ++ "/".intercalate p.parts

def isAbsolute (p : Path) : Bool := p.root ≠ 0

/-- The directory that holds `p`; a path without parts is its own parent. -/
def parent (p : Path) : Path := { p with parts := p.parts.dropLast }

/-- An absolute path replaces what it is joined to. -/
def join (base p : Path) : Path :=
  if p.isAbsolute then p else { base with parts := base.parts ++ p.parts }

/-- The path that `name` stands for inside the file `file`: names are relative to its directory. -/
def relativeTo (file : Path) (name : String) : Path := file.parent.join (ofString name)

end Path

/-- Why a file cannot be opened. -/
inductive OpenError where
  | missing
  | directory
  | notDirectory
  | occupied
  | nameTooLong
  | nulInName
  deriving DecidableEq, Repr

def OpenError.reason : OpenError → String
  | .missing => "No such file or directory"
  | .directory => "Is a directory"
  | .notDirectory => "Not a directory"
  | .occupied => "File exists"
  | .nameTooLong => "File name too long"
  | .nulInName => "embedded null byte"

end Disassembler
