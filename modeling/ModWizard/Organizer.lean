import ModWizard.Host
import ModWizard.Scalar
import ModWizard.Table

/-!
# The organizer

What the mod organizer knows of a game and of its installed mods, as far as an
installation asks for it.  The comparisons and look-ups at the end are those that a script is given
(`MO2ManagerModInterface`).
-/

namespace ModWizard

/-- What the game thinks of a folder as the content of a mod. -/
inductive Verdict
  | valid
  | fixable
  | invalid
  deriving DecidableEq, Inhabited

/-- The state of a plugin. -/
inductive PluginState
  | active
  | inactive
  | missing
  deriving DecidableEq, Inhabited

/-- A script extender, with its version as it is written. -/
structure Extender where
  installed : Bool
  version : String
  deriving DecidableEq, Inhabited

/-- A setting of a plugin of the organizer. -/
structure Setting where
  plugin : String
  key : String
  value : Scalar
  deriving DecidableEq, Inhabited

/-- A file of the virtual data folder and the place where it really is. -/
structure VirtualFile where
  virtual : String
  real : String
  deriving DecidableEq, Inhabited

/-- The organizer and the game it manages.  Versions are kept as they are written. -/
structure Organizer where
  host : Host
  gameName : String
  /-- the version of the game that requirements are compared with -/
  version : String
  /-- the version of the game that scripts are told -/
  gameVersion : String
  extender : Option Extender
  /-- the game's check of folders by their names, if it has one -/
  checker : Option (Table String Verdict)
  settings : List Setting
  files : List VirtualFile
  loadOrder : Table String Int
  states : Table String PluginState

namespace Organizer

/-- The value of a setting of a plugin (`pluginSetting`). -/
def setting (org : Organizer) (plugin key : String) : Scalar :=
  ((org.settings.find? fun s => s.plugin = plugin && s.key = key).map (·.value)).getD .absent

/-- Whether the game takes a folder of a name for the content of a mod (`dataLooksValid`). -/
def accepts (org : Organizer) (folder : String) : Bool :=
  match org.checker with
  | none => false
  | some c => c.get? folder = some .valid

/-- How the game stands to a version (`compareGameVersion`), if both versions can be read. -/
def gameStanding? (org : Organizer) (v : String) : Option Int :=
  org.host.versions.standing? v org.gameVersion

/-- How the script extender stands to a version (`compareSEVersion`), if both versions can be read.
No extender is taken for a newer one. -/
def extenderStanding? (org : Organizer) (v : String) : Option Int :=
  match org.extender with
  | none => some 1
  | some e => org.host.versions.standing? v e.version

/-- How the graphics extender stands to a version (`compareGEVersion`): it is not known, and taken
for newer. -/
def graphicsStanding (_ : Organizer) (_ : String) : Int := 1

/-- How the script's own mod manager stands to a version (`compareWBVersion`): it is taken for
newer. -/
def managerStanding (_ : Organizer) (_ : String) : Int := 1

/-- The place of a plugin in the load order, `-1` if it has none (`getPluginLoadOrder`). -/
def loadOrderOf (org : Organizer) (plugin : String) : Int := (org.loadOrder.get? plugin).getD (-1)

/-- The state of a plugin as scripts are told it (`getPluginStatus`): `2` active, `0` inactive, `-1`
missing. -/
def pluginStatus (org : Organizer) (plugin : String) : Int :=
  match org.states.get? plugin with
  | some .active => 2
  | some .inactive => 0
  | _ => -1

end Organizer

end ModWizard
