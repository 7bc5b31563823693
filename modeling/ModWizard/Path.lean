import ModWizard.Text.Split

/-!
# Paths

A path is a row of names below a start.  Names are divided by slashes; empty names and
the name `.` are not kept, the name `..` is.  A path with the same start and the same
names is the same path, however it was written.  This is the POSIX flavour of paths: a
backslash divides nothing, and there are no drives.
-/

namespace ModWizard

/-- Where a path starts. -/
inductive Path.Start
  /-- the folder in which one is -/
  | here
  /-- the root, written with one slash -/
  | root
  /-- the second root, written with exactly two slashes -/
  | secondRoot
  deriving DecidableEq, Inhabited

/-- A path: a start and the names below it. -/
structure Path where
  start : Path.Start
  names : List String
  deriving DecidableEq, Inhabited

namespace Path

/-- Where a written path starts. -/
def Start.ofChars : List Char → Start
  | '/' :: '/' :: '/' :: _ => .root
  | '/' :: '/' :: _ => .secondRoot
  | '/' :: _ => .root
  | _ => .here

/-- The slashes with which a path of this start begins. -/
def Start.text : Start → String
  | .here => ""
  | .root => "/"
  | .secondRoot => "//"

/-- Reads a path, in the POSIX flavour (`Path`). -/
def ofString (s : String) : Path where
  start := Start.ofChars s.toList
  names := (Text.splitSlashes s).filter fun n => n ≠ "" && n ≠ "."

/-- Writes a path.  The path of no names below the present folder is a dot. -/
def text (p : Path) : String :=
  if p.start = .here && p.names.isEmpty then "." else p.start.text ++ "/".intercalate p.names

/-- The last name, empty if there is none. -/
def name (p : Path) : String := p.names.getLast?.getD ""

/-- The path without its last name. -/
def parent (p : Path) : Path := { p with names := p.names.dropLast }

/-- The first part of a path: its root if it has one, else its first name. -/
def head? (p : Path) : Option String :=
  match p.start with
  | .here => p.names.head?
  | s => some s.text

end Path

end ModWizard
