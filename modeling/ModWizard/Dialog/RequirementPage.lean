import ModWizard.Dialog.Fault

/-!
# The page of requirements

The versions that are asked for beside those that are present
(`WizardInstallerRequiresVersionPage`).
-/

namespace ModWizard.Dialog

/-- A mark beside a requirement. -/
inductive Mark
  | met
  | unmet
  deriving DecidableEq, Inhabited

/-- The mark of a check. -/
def Mark.ofBool : Bool → Mark
  | true => met
  | false => unmet

/-- The page of requirements. -/
structure RequirementPage where
  needed : Requirement
  /-- the node that follows, if there is one -/
  next : Option String
  gameName : String
  game : String
  extender : String
  gameMark : Mark
  extenderMark : Mark
  deriving DecidableEq, Inhabited

namespace RequirementPage

/-- The page of some requirements.  It cannot be made without a script extender, or if the
version of the game cannot be read. -/
def create (org : Organizer) (r : Requirement) (next : Option String) :
    Except Fault RequirementPage :=
  match org.host.versions.read? org.version, org.extender, r.check? org with
  | none, _, _ => .error .unreadableVersion
  | some _, none, _ => .error .noExtender
  | some _, some _, none => .error .unreadableVersion
  | some game, some e, some c =>
    .ok
      { needed := r
        next := next
        gameName := org.gameName
        game := org.host.versions.text game
        extender := e.version
        gameMark := .ofBool c.game
        extenderMark := .ofBool c.extender }

end RequirementPage

end ModWizard.Dialog
