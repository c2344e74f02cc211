import Disassembler.Fault
import Disassembler.Text.Line

/-!
A tree of files around a working directory, as a value.
-/

namespace Disassembler

/-- Where a place is counted from: a directory some levels above the working directory, or the
root. -/
inductive Anchor where
  | above (levels : Nat)
  | root
  deriving DecidableEq, Repr

structure Place where
  anchor : Anchor := .above 0
  parts : List String := []
  deriving DecidableEq, Repr

namespace Place

def child (p : Place) (name : String) : Place := { p with parts := p.parts ++ [name] }

/-- The directory around a place; the root is its own. -/
def parent (p : Place) : Place :=
  match p.anchor, p.parts with
  | .above levels, [] => ⟨.above (levels + 1), []⟩
  | anchor, parts => ⟨anchor, parts.dropLast⟩

/-- Whether `q` is `p` or lies below it. -/
def holds (p q : Place) : Bool := p.anchor = q.anchor && p.parts.isPrefixOf q.parts

/-- Where a path starts. -/
def origin (path : Path) : Place := { anchor := if path.isAbsolute then .root else .above 0 }

end Place

/-- Files and directories by their places. What lies above a file or a directory is a directory too,
and so are the working directory, the directories above it and the root. -/
structure FileTree where
  files : List (Place × List UInt8) := []
  directories : List Place := []
  deriving DecidableEq, Repr, Inhabited

namespace FileTree

def file? (tree : FileTree) (place : Place) : Option (List UInt8) := tree.files.lookup place

def isDirectory (tree : FileTree) (place : Place) : Bool :=
  place.parts.isEmpty || tree.directories.any place.holds ||
    tree.files.any fun (name, _) => place.holds name && place != name

/-- The longest name and the longest path, in bytes. -/
def maxName : Nat := 255

def maxPath : Nat := 4095

/-- One step further; only a directory can be entered. -/
def enter (tree : FileTree) (place : Place) (part : String) : Except OpenError Place :=
  if !tree.isDirectory place then .error .notDirectory
  else if part = ".." then .ok place.parent
  else if part.utf8ByteSize > maxName then .error .nameTooLong
  else if (tree.file? (place.child part)).isSome || tree.isDirectory (place.child part) then
    .ok (place.child part)
  else .error .missing

/-- Names that no file can have. -/
def check (path : Path) : Except OpenError Unit :=
  if path.toString.toList.contains '\x00' then .error .nulInName
  else if path.toString.utf8ByteSize > maxPath then .error .nameTooLong
  else .ok ()

/-- Follow a path. -/
def resolve (tree : FileTree) (path : Path) : Except OpenError Place :=
  path.parts.foldlM (enter tree) (Place.origin path)

def read (tree : FileTree) (path : Path) : Except OpenError (List UInt8) := do
  check path
  match tree.file? (← tree.resolve path) with
  | some bytes => .ok bytes
  | none => .error .directory

/-- The text of the file at a path, its lines ended by line feeds; nothing where there is no file. A
name that is too long cannot be looked at. -/
def text? (tree : FileTree) (path : Path) : Except Fault (Option String) :=
  match tree.read path with
  | .error .nameTooLong => .error (.unreadable path .nameTooLong)
  | .error _ => .ok none
  | .ok bytes =>
    match String.fromUTF8? ⟨bytes.toArray⟩ with
    | some text => .ok (some (String.ofList (Text.unifyLineEnds text.toList)))
    | none => .error (.notUnicode path)

def insert (tree : FileTree) (place : Place) (bytes : List UInt8) : FileTree :=
  { tree with files := (place, bytes) :: tree.files.filter (·.1 ≠ place) }

/-- Write a file into a directory that exists. -/
def write (tree : FileTree) (path : Path) (bytes : List UInt8) : Except OpenError FileTree := do
  check path
  match path.parts.getLast? with
  | none => .error .directory
  | some name =>
    let place ← tree.resolve path.parent
    if !tree.isDirectory place then .error .notDirectory
    else if name.utf8ByteSize > maxName then .error .nameTooLong
    else if name = ".." || tree.isDirectory (place.child name) then .error .directory
    else .ok (tree.insert (place.child name) bytes)

/-- One step further, into a directory that is made if there is nothing. `last` says that no step
follows. -/
def enterMaking (state : FileTree × Place) (part : String) (last : Bool) :
    Except OpenError (FileTree × Place) :=
  let (tree, place) := state
  match tree.enter place part with
  | .error .missing =>
    .ok ({ tree with directories := place.child part :: tree.directories }, place.child part)
  | .error reason => .error reason
  | .ok next => if last && !tree.isDirectory next then .error .occupied else .ok (tree, next)

def makeAlong (state : FileTree × Place) : List String → Except OpenError (FileTree × Place)
  | [] => .ok state
  | part :: parts => do makeAlong (← enterMaking state part parts.isEmpty) parts

/-- Make a directory and those on the way to it; a directory that is there already may stay. -/
def makeDirectory (tree : FileTree) (path : Path) : Except OpenError FileTree := do
  check path
  return (← makeAlong (tree, Place.origin path) path.parts).1

/-- Put a file at a path, in directories made for it. -/
def put (tree : FileTree) (path : Path) (bytes : List UInt8) : Except OpenError FileTree := do
  (← tree.makeDirectory path.parent).write path bytes

end FileTree

end Disassembler
