import ModWizard.Organizer

/-!
# The installer as a plugin of the organizer

What the installer says of itself, and the settings it has.
-/

namespace ModWizard.Installer

/-- The name under which the installer is known (`name`). -/
def pluginName : String := "BAIN Wizard Installer"

/-- Whether the installer is enabled (`isActive`). -/
def isActive (org : Organizer) : Scalar := org.setting pluginName "enabled"

/-- The priority of the installer (`priority`). -/
def priority (org : Organizer) : Scalar := org.setting pluginName "priority"

/-- Whether there is an installer for FOMOD archives (`_hasFomodInstaller`). -/
def hasFomod (org : Organizer) : Bool := (org.setting "Fomod Installer" "enabled").holds

/-- Whether there is an installer for OMOD archives (`_hasOmodInstaller`). -/
def hasOmod (org : Organizer) : Bool := (org.setting "Omod Installer" "enabled").holds

/-- Whether archives that are also FOMOD archives are left to the installer for these. -/
def prefersFomod (org : Organizer) : Bool := (org.setting pluginName "prefer_fomod").holds

end ModWizard.Installer
