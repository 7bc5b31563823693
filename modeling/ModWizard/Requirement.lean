import ModWizard.Organizer

/-!
# Version requirements

The versions that a script asks for.  An empty text asks for nothing.  Transcribed here is
`check_version`, by which the dialog compares them; what scripts compare themselves is asked of the
organizer.
-/

namespace ModWizard

/-- The versions that are asked for. -/
structure Requirement where
  game : String
  extender : String
  graphics : String
  manager : String
  deriving DecidableEq, Inhabited

/-- Which requirements are met, as `check_version` tells it. -/
structure Requirement.Check where
  game : Bool
  extender : Bool
  graphics : Bool
  manager : Bool
  deriving DecidableEq, Inhabited

/-- Whether all requirements are met. -/
def Requirement.Check.all (c : Check) : Bool := c.game && c.extender && c.graphics && c.manager

namespace Requirement

/-- Whether the game has a version that is asked for. -/
def gameMet? (org : Organizer) (v : String) : Option Bool :=
  if v = "" then some true else org.host.versions.isMet? v org.version

/-- Whether the script extender is installed in a version that is asked for. -/
def extenderMet? (org : Organizer) (v : String) : Option Bool :=
  if v = "" then some true
  else
    match org.extender with
    | none => some false
    | some e => if e.installed then org.host.versions.isMet? v e.version else some false

/-- Compares requirements with the organizer (`check_version`), if the versions can be read.  The
graphics extender cannot be checked, so asking for one is never met; asking for a mod manager
always is. -/
def check? (org : Organizer) (r : Requirement) : Option Check := do
  let game ← gameMet? org r.game
  let extender ← extenderMet? org r.extender
  return { game := game, extender := extender, graphics := r.graphics = "", manager := true }

/-- Whether all requirements are met, if the versions to compare can be read. -/
def isMet? (org : Organizer) (r : Requirement) : Option Bool := (r.check? org).map (·.all)

end Requirement

end ModWizard
