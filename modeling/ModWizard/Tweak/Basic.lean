import ModWizard.Scalar
import ModWizard.Text.Lowercase

/-!
# Tweaks

A tweak is a change of one setting in an INI file.  It either gives the setting a value
or disables it.  Tweaks whose section is one of three keywords are meant for files of
console commands, all others for files with sections.
-/

namespace ModWizard

/-- A value for a setting, with an optional comment. -/
structure Edit where
  sectionName : String
  setting : String
  value : Scalar
  comment : Option String
  deriving DecidableEq, Inhabited

/-- The comment of an edit, if it says anything. -/
def Edit.remark (e : Edit) : Option String := e.comment.filter (· ≠ "")

/-- A change of one setting. -/
inductive Tweak
  | edit (e : Edit)
  | disable (sectionName setting : String)
  deriving DecidableEq, Inhabited

namespace Tweak

/-- The section a tweak is about. -/
def sectionName : Tweak → String
  | edit e => e.sectionName
  | disable s _ => s

/-- The setting a tweak is about. -/
def setting : Tweak → String
  | edit e => e.setting
  | disable _ s => s

/-- The edit that a tweak is, if it is one. -/
def edit? : Tweak → Option Edit
  | edit e => some e
  | disable .. => none

@[simp] theorem sectionName_edit (e : Edit) : (edit e).sectionName = e.sectionName := rfl

@[simp] theorem sectionName_disable (s t : String) : (disable s t).sectionName = s := rfl

@[simp] theorem setting_edit (e : Edit) : (edit e).setting = e.setting := rfl

@[simp] theorem setting_disable (s t : String) : (disable s t).setting = t := rfl

end Tweak

/-- A console command that assigns a setting. -/
inductive Keyword
  | set
  | setGS
  | setNumericGameSetting
  deriving DecidableEq, Inhabited

namespace Keyword

/-- The keywords, in the order in which a line is compared with them. -/
def all : List Keyword := [set, setGS, setNumericGameSetting]

/-- How a keyword is written in a command. -/
def spelling : Keyword → String
  | set => "set"
  | setGS => "setGS"
  | setNumericGameSetting => "SetNumericGameSetting"

/-- A keyword in small letters, the key of its section. -/
def key : Keyword → String
  | set => "set"
  | setGS => "setgs"
  | setNumericGameSetting => "setnumericgamesetting"

/-- The keyword that a section's name is, in any letter case. -/
def ofSection? (s : String) : Option Keyword := all.find? fun k => k.key == Text.lower s

end Keyword

/-- Whether a tweak is meant for a file of console commands. -/
def Tweak.isCommand (t : Tweak) : Bool := (Keyword.ofSection? t.sectionName).isSome

end ModWizard
