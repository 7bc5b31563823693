import ModWizard.Text.Lines
import ModWizard.Tweak.Basic

/-!
# Files with sections

The text of some tweaks as a file with sections: sections in order of their names, the
tweaks of a section in order of their settings, tweaks of one setting as they came
(`make_standard_ini_tweaks`).
-/

namespace ModWizard.Tweak.Standard

/-- The line of a tweak. -/
def line : Tweak → String
  | .edit e =>
    e.setting ++ " = " ++ e.value.toText ++
      match e.remark with
      | some c => " # " ++ c
      | none => ""
  | .disable _ setting => "# " ++ setting ++ " - disabled"

/-- The names of the sections of some tweaks, in order, each once. -/
def sectionNames (ts : List Tweak) : List String :=
  (ts.map sectionName).eraseDups.mergeSort fun a b => a ≤ b

/-- The tweaks of a section, ordered by their settings. -/
def inSection (ts : List Tweak) (s : String) : List Tweak :=
  (ts.filter fun t => t.sectionName = s).mergeSort fun a b => a.setting ≤ b.setting

/-- The lines of a section: its header, its tweaks, and a gap. -/
def sectionLines (ts : List Tweak) (s : String) : List String :=
  ("[" ++ s ++ "]") :: (inSection ts s).map line ++ ["\n"]

/-- The lines of some tweaks.  There is no gap after the last section. -/
def lines (ts : List Tweak) : List String :=
  ((sectionNames ts).flatMap (sectionLines ts)).dropLast

/-- The text of some tweaks. -/
def render (ts : List Tweak) : String := Text.joinLines (lines ts)

end ModWizard.Tweak.Standard
