import ModWizard.Package
import ModWizard.Script.Basic
import ModWizard.Tweak.File

/-!
# The page at the end

What is about to be installed: sub-packages and plugins, the script's choice among them
checked, the tweak files with the text of one of them, and the script's notes
(`WizardInstallerCompletePage`).
-/

namespace ModWizard.Dialog

/-- A name with a check mark. -/
structure Marked where
  name : String
  checked : Bool
  deriving DecidableEq, Inhabited

/-- A tweak file: its name and its tweaks. -/
structure TweakFile where
  name : String
  tweaks : List Tweak
  deriving DecidableEq, Inhabited

/-- The page at the end. -/
structure CompletePage where
  packages : List Marked
  plugins : List Marked
  files : List TweakFile
  /-- the current row among the tweak files -/
  row : Option Nat
  /-- the text of the current tweak file -/
  text : String
  notes : String
  renames : Table String String
  deriving DecidableEq

namespace CompletePage

/-- A file's name with slashes for backslashes. -/
def slashed (name : String) : String :=
  String.ofList (name.toList.map fun c => if c = '\\' then '/' else c)

/-- The page with a row of the tweak files made current (`onCurrentTweakItemChanged`). -/
def setRow (p : CompletePage) (row : Nat) : CompletePage :=
  if p.row = some row then p
  else
    match p.files[row]? with
    | none => p
    | some f => { p with row := some row, text := Tweak.render f.tweaks }

/-- The plugins of some sub-packages, in order of their names. -/
def pluginNames (packages : List Package) : List String :=
  (packages.flatMap (·.plugins)).mergeSort fun a b => a ≤ b

/-- The page for an outcome, with the sub-packages of the archive, as its constructor makes it. -/
def create (packages : List Package) (o : Outcome) : CompletePage :=
  let p : CompletePage :=
    { packages := packages.map fun k => ⟨k.name, o.packages.contains k.name⟩
      plugins := (pluginNames packages).map fun n => ⟨n, o.plugins.contains n⟩
      files := o.tweaks.entries.map fun f => ⟨slashed f.1, f.2⟩
      row := none
      text := ""
      notes := String.join (o.notes.map fun n => "- " ++ n ++ "\n")
      renames := o.renames }
  p.setRow 0

/-- Whether the tweak files are shown. -/
def showsTweaks (p : CompletePage) : Bool := !p.files.isEmpty

/-- The names of the checked sub-packages (`subpackages`). -/
def checkedPackages (p : CompletePage) : List String :=
  (p.packages.filter (·.checked)).map (·.name)

/-- The names of the checked plugins (`plugins`). -/
def checkedPlugins (p : CompletePage) : List String :=
  (p.plugins.filter (·.checked)).map (·.name)

/-- The tweaks by file (`tweaks`). -/
def tweaks (p : CompletePage) : Table String (List Tweak) :=
  Table.ofList (p.files.map fun f => (f.name, f.tweaks))

end CompletePage

end ModWizard.Dialog
