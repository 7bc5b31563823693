import ModWizard.Installer.Info
import ModWizard.Tree.Basic

/-!
# Archives with a wizard script

The base of an archive is the folder that holds the script: the archive itself, or a folder
that is alone in it, or one that is alone in that.
-/

namespace ModWizard.Installer

/-- The name of the script. -/
def scriptName : String := "wizard.txt"

/-- A folder of an archive: the names that lead to it and its content. -/
structure Base where
  above : List String
  tree : Tree
  deriving DecidableEq, Inhabited

/-- Whether a folder holds the script. -/
def holdsScript (t : Tree) : Bool := (t.findFile? scriptName).isSome

/-- The base of a tree that stands below some names. -/
def baseBelow? (above : List String) (t : Tree) : Option Base :=
  if holdsScript t then some ⟨above, t⟩
  else
    match t with
    | .folder n inner .nil => baseBelow? (above ++ [n]) inner
    | _ => none

/-- The base of an archive (`_getWizardArchiveBase`). -/
def base? (t : Tree) : Option Base := baseBelow? [] t

/-- Whether an archive is also a FOMOD archive. -/
def isFomod (b : Base) : Bool := b.tree.contains "fomod/ModuleConfig.xml"

/-- Whether the installer takes an archive (`isArchiveSupported`). -/
def isSupported (org : Organizer) (t : Tree) : Bool :=
  match base? t with
  | none => false
  | some b => !(isFomod b && hasFomod org && prefersFomod org)

/-- The endings of the files that are extracted for the dialog: pictures and tweak files. -/
def extractedEndings : List String := ["png", "jpg", "jpeg", "gif", "bmp", "ini"]

/-- Whether an entry is a file with one of some endings. -/
def isExtracted (endings : List String) (e : Entry) : Bool := e.isFile && e.hasSuffix endings

/-- The files of an archive with one of some endings, in the order of a walk
(`_getEntriesToExtract`). -/
def entriesToExtract (endings : List String) (t : Tree) : List (List String × Entry) :=
  t.walk.filter fun p => isExtracted endings p.2

/-- The paths of the files of an archive with one of some endings. -/
def toExtract (endings : List String) (t : Tree) : List String :=
  (entriesToExtract endings t).map fun p => Tree.pathText p.1

/-- How many files a tree holds. -/
def fileCount : Tree → Nat
  | .nil => 0
  | .file _ _ rest => fileCount rest + 1
  | .folder _ inner rest => fileCount inner + fileCount rest

/-- The tree with its files numbered from a number on, in the order of a walk. -/
def markFrom (k : Nat) : Tree → Tree
  | .nil => .nil
  | .file n _ rest => .file n (some k) (markFrom (k + 1) rest)
  | .folder n inner rest => .folder n (markFrom k inner) (markFrom (k + fileCount inner) rest)

/-- The archive with its files numbered, so that each can be told from all others. -/
def mark (t : Tree) : Tree := markFrom 0 t

end ModWizard.Installer
