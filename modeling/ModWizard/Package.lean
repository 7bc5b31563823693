import ModWizard.Organizer
import ModWizard.Text.Blank
import ModWizard.Text.Digit
import ModWizard.Tree.Basic

/-!
# Sub-packages

The folders of an archive from which a script chooses.  A folder is a sub-package if the
game takes it for the content of a mod, if it holds tweak files, or if its name is a number
followed by a word that begins with "doc".
-/

namespace ModWizard

/-- A sub-package (`MO2SubPackage`): its name and the paths of all entries below its folder, and the
plugins that the host finds among these. -/
structure Package where
  name : String
  files : List String
  plugins : List String
  deriving DecidableEq, Inhabited

namespace Package

/-- Whether a name is a number followed by a word that begins with "doc". -/
def isNumberedDoc (name : String) : Bool :=
  match (Text.words name.toList).map String.ofList with
  | number :: word :: _ => Text.isNumber number && "doc".toList.isPrefixOf (Text.lower word).toList
  | _ => false

/-- Whether a folder is a sub-package. -/
def isPackage (org : Organizer) (name : String) (inner : Tree) : Bool :=
  org.accepts name || inner.contains "INI Tweaks" || inner.contains "INI" || isNumberedDoc name

/-- The paths of all entries of a folder below some names, in the order of a walk. -/
def filesOf (above : List String) (name : String) (inner : Tree) : List String :=
  (inner.walkBelow (above ++ [name])).map fun p => Tree.pathText p.1

/-- The sub-package of a folder below some names. -/
def ofFolder (host : Host) (above : List String) (name : String) (inner : Tree) : Package where
  name := name
  files := filesOf above name inner
  plugins := host.pluginsFor name (filesOf above name inner)

/-- The sub-package that an entry below some names is, if it is one. -/
def recognise? (org : Organizer) (above : List String) : Entry → Option Package
  | .file .. => none
  | .folder n inner =>
    if isPackage org n inner then some (ofFolder org.host above n inner) else none

/-- The sub-packages of a tree that stands below some names (`MO2ManagerModInterface`). -/
def all (org : Organizer) (above : List String) (t : Tree) : List Package :=
  t.entries.filterMap (recognise? org above)

end Package

end ModWizard
