import ModWizard.Tweak.Command
import ModWizard.Tweak.Merge
import ModWizard.Tweak.Standard

/-!
# Tweak files

The text of a tweak file, new or merged into a present one.  If all tweaks are meant for
console commands, so is the file; otherwise it has sections.  A file with sections is
never merged: it is written anew, and a warning says so.
-/

namespace ModWizard.Tweak

/-- Whether some tweaks make a file of console commands. -/
def areCommands (ts : List Tweak) : Bool := ts.all isCommand

/-- The text of a new tweak file (`make_ini_tweaks`). -/
def render (ts : List Tweak) : String :=
  if areCommands ts then Command.render ts else Standard.render ts

/-- A file's text, with a warning if there is one. -/
structure Merged where
  text : String
  warning : Option String := none
  deriving DecidableEq, Inhabited

/-- The warning that a file was not merged. -/
def Standard.warning (file : Path) : String := "Cannot merge INI Tweaks for " ++ file.name ++ "."

/-- The text of a file with sections in place of a present one (`merge_standard_ini_tweaks`). -/
def Standard.replace (ts : List Tweak) (file : Path) : Merged :=
  ⟨Standard.render ts, some (Standard.warning file)⟩

/-- The text of a tweak file merged into a present one (`merge_ini_tweaks`). -/
def merge (ts : List Tweak) (disk : Disk) (file : Path) : Except Merge.Fault Merged :=
  if areCommands ts then (Merge.render ts disk file).map fun s => { text := s }
  else .ok (Standard.replace ts file)

end ModWizard.Tweak
