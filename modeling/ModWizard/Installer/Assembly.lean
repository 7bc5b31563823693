import ModWizard.Dialog.Fault
import ModWizard.Tree.Edit
import ModWizard.Tweak.File

/-!
# Assembling the mod

The content of the mod is put together from the chosen sub-packages, one merged upon the
other.  Then plugins are renamed and tweak files written.  This is the part of `install` behind an
accepted dialog, one function for each of its loops.  The list `to_extract` and the `paths` that the
organizer returned for it are kept as `Extracted`, and looked up by index as they are there.
-/

namespace ModWizard.Installer

/-- Why an installation fails. -/
inductive Fault
  /-- no installation was announced -/
  | notStarted
  /-- a number in a key of the settings has too many digits -/
  | longNumber
  /-- a file cannot be extracted -/
  | disk (f : Disk.Fault)
  /-- the dialog failed -/
  | dialog (f : Dialog.Fault)
  /-- the tree cannot be changed as asked -/
  | tree (f : Tree.Fault)
  /-- the file to merge into was not extracted -/
  | notExtracted
  /-- a tweak file has no name -/
  | noName
  /-- tweaks cannot be merged -/
  | merge (f : Tweak.Merge.Fault)
  deriving DecidableEq, Inhabited

/-- A file made by the installation: its path, and its text if it was written. -/
structure Created where
  path : String
  text : Option String
  deriving DecidableEq, Inhabited

/-- What an installation said and wrote. -/
structure Log where
  notices : List String
  warnings : List String
  created : List Created
  deriving DecidableEq, Inhabited

/-- Work that may fail, and keeps a log also when it does. -/
abbrev Work := ExceptT Fault (StateM Log)

/-- Says something that is no fault. -/
def notice (s : String) : Work Unit := modify fun l => { l with notices := l.notices ++ [s] }

/-- Says that something may be wrong. -/
def warning (s : String) : Work Unit := modify fun l => { l with warnings := l.warnings ++ [s] }

/-- Enters a file that was made. -/
def record (c : Created) : Work Unit := modify fun l => { l with created := l.created ++ [c] }

@[simp] theorem run_notice (s : String) (l : Log) :
    (notice s).run.run l = (.ok (), { l with notices := l.notices ++ [s] }) := rfl

@[simp] theorem run_warning (s : String) (l : Log) :
    (warning s).run.run l = (.ok (), { l with warnings := l.warnings ++ [s] }) := rfl

@[simp] theorem run_record (c : Created) (l : Log) :
    (record c).run.run l = (.ok (), { l with created := l.created ++ [c] }) := rfl

/-- The content of a folder at a path, if there is one that is not empty. -/
def contentAt? (t : Tree) (path : String) : Option Tree :=
  match t.find? path with
  | some (.folder _ .nil) => none
  | some (.folder _ inner) => some inner
  | _ => none

/-- Merges the sub-packages of some names into a tree.  What was merged is no longer in the
archive. -/
def mergePackages : List String → Tree → Tree → Work Tree
  | [], _, t => pure t
  | n :: ns, base, t =>
    match contentAt? base n with
    | some inner => mergePackages ns (base.emptyAt (Tree.pathNames n)) (t.merge inner)
    | none => do
      warning ("SubPackage " ++ n ++ " not found in the archive.")
      mergePackages ns base t

/-- What a tree holds at a path: a file, or a folder that is not empty. -/
def solidAt? (t : Tree) (path : String) : Option Entry := (t.find? path).filter (·.isSolid)

/-- A change of a tree as work. -/
def Work.ofTree : Except Tree.Fault Tree → Work Tree
  | .ok t => pure t
  | .error f => throw (.tree f)

/-- Renames entries of a tree, one after the other. -/
def renameAll : List (String × String) → Tree → Work Tree
  | [], t => pure t
  | (old, new) :: rs, t =>
    match solidAt? t old with
    | some e => do renameAll rs (← Work.ofTree (t.move (Tree.pathNames old) e new))
    | none => do
      notice ("Plugin " ++ old ++ " not found, cannot rename.")
      renameAll rs t

/-- The folder of tweak files. -/
def tweakFolder : String := "INI Tweaks"

/-- The path of a file that is put into the folder of tweak files.  A path from the root
stays as it is. -/
def inTweakFolder (name : String) : String :=
  match name.toList with
  | '/' :: _ => name
  | _ => tweakFolder ++ "/" ++ name

/-- The files of an archive that were extracted to a disk, and the paths to which they went: the
first is that of the script, and then there is one for each file. -/
structure Extracted where
  disk : Disk
  entries : List (List String × Entry)
  paths : List String
  length_paths : paths.length = entries.length + 1

namespace Extracted

/-- Pairs files with the paths to which they were extracted, if there are as many as there should
be. -/
def of? (disk : Disk) (entries : List (List String × Entry)) (paths : List String) :
    Option Extracted :=
  if h : paths.length = entries.length + 1 then some ⟨disk, entries, paths, h⟩ else none

variable (x : Extracted)

/-- The path of the script. -/
def script : String := x.paths.get ⟨0, by rw [x.length_paths]; exact Nat.succ_pos _⟩

/-- The path that stands at the place of a file: one further, because the script comes first
(`paths` at `index + 1`). -/
def pathAt (k : Fin x.entries.length) : String :=
  x.paths.get ⟨k + 1, by rw [x.length_paths]; exact Nat.succ_lt_succ k.isLt⟩

/-- The place of an entry among the files (`to_extract.index`). -/
def index? (e : Entry) : Option (Fin x.entries.length) := x.entries.findFinIdx? (·.2.isSame e)

/-- The path to which an entry was extracted, looked up by its place among the files. -/
def path? (e : Entry) : Option String := (x.index? e).map x.pathAt

end Extracted

/-- Where a tweak file goes: the path to which the file there was extracted, if there is one, and
the path of the file to write. -/
structure Destination where
  origin : Option String
  path : String
  deriving DecidableEq, Inhabited

/-- Where a tweak file goes.  It takes the place of a file of its name, or goes to the
folder of tweak files. -/
def destination (x : Extracted) (t : Tree) (name : String) : Except Fault Destination :=
  match solidAt? t name with
  | some e =>
    match x.path? e with
    | some origin => .ok ⟨some origin, name⟩
    | none => .error .notExtracted
  | none =>
    match (Path.ofString name).head? with
    | none => .error .noName
    | some h => .ok ⟨none, if Text.lower h = "ini tweaks" then name else inTweakFolder name⟩

/-- The text of a tweak file. -/
def tweakText (disk : Disk) (origin : Option String) (ts : List Tweak) :
    Except Fault Tweak.Merged :=
  match origin with
  | none => .ok { text := Tweak.render ts }
  | some o =>
    match Tweak.merge ts disk (Path.ofString o) with
    | .ok m => .ok m
    | .error f => .error (.merge f)

/-- Writes a tweak file to where it goes. -/
def writeTo (disk : Disk) (dest : Destination) (ts : List Tweak) (t : Tree) : Work Tree := do
  let t ← Work.ofTree (t.addFile (Tree.pathNames dest.path))
  let path := Tree.pathText (t.spelling (Tree.pathNames dest.path))
  match tweakText disk dest.origin ts with
  | .ok m => do
    m.warning.forM warning
    record ⟨path, some m.text⟩
    pure t
  | .error f => do
    record ⟨path, none⟩
    throw f

/-- Writes the tweak file of a name. -/
def writeTweak (x : Extracted) (name : String) (ts : List Tweak) (t : Tree) : Work Tree := do
  writeTo x.disk (← ExceptT.mk (pure (destination x t name))) ts t

/-- Writes tweak files, one after the other. -/
def writeTweaks (x : Extracted) : List (String × List Tweak) → Tree → Work Tree
  | [], t => pure t
  | (name, ts) :: fs, t => do writeTweaks x fs (← writeTweak x name ts t)

/-- What the user accepted. -/
structure Plan where
  packages : List String
  renames : Table String String
  tweaks : Table String (List Tweak)
  deriving DecidableEq

/-- Assembles the mod from the base of an archive, whose files were extracted. -/
def assemble (x : Extracted) (base : Tree) (plan : Plan) : Work Tree := do
  let t ← mergePackages plan.packages base .nil
  let t ← renameAll plan.renames.entries t
  writeTweaks x plan.tweaks.entries t

end ModWizard.Installer
