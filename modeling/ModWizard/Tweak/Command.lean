import ModWizard.Text.Lines
import ModWizard.Tweak.Basic

/-!
# Files of console commands

The text of some tweaks as a file of console commands: a header and one line for each
edit, in order (`make_obscript_ini_tweaks`).
-/

namespace ModWizard.Tweak.Command

/-- The line of an edit. -/
def line (e : Edit) : String :=
  e.sectionName ++ " " ++ e.setting ++ " to " ++ e.value.toText ++
    match e.remark with
    | some c => " ; " ++ c
    | none => ""

/-- The first line of a generated file. -/
def header : String := "; Generated by Mod Organizer 2 via Wizard"

/-- The lines of the edits among some tweaks, in order. -/
def editLines (ts : List Tweak) : List String :=
  ((ts.filterMap edit?).map line).mergeSort fun a b => a ≤ b

/-- The text of some tweaks.  Those that disable a setting are left out. -/
def render (ts : List Tweak) : String := Text.joinLines (header :: editLines ts)

end ModWizard.Tweak.Command
