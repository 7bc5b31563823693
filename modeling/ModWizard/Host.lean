import ModWizard.Version

/-!
# What the installer runs in

The installer asks the organizer and the interpreter of scripts for things that they do in their own
way, and it is run with a call stack that can be exhausted.  All this is left open: a host is any
choice of it.  What is assumed of it is a field of the host, or a hypothesis where it is used.
-/

namespace ModWizard

/-- What the installer is given by what it runs in. -/
structure Host where
  /-- how versions are read and compared (`VersionInfo`) -/
  versions : VersionScheme
  /-- whether a file matches a pattern, by its name, when the virtual data folder is searched
  (`findFiles`) -/
  isMatch : (pattern name : String) → Bool
  /-- the plugins of a sub-package, from its name and the paths that it lists (`plugins_for`) -/
  pluginsFor : (name : String) → (files : List String) → List String
  /-- only the last names of the paths count for the plugins -/
  pluginsFor_congr : ∀ {name : String} {files files' : List String},
    files'.map Text.lastName = files.map Text.lastName →
      pluginsFor name files' = pluginsFor name files
  /-- how many requirements can be passed over when the dialog is opened (`exec`) -/
  openingRoom : Nat
  /-- how many requirements can be passed over when the dialog goes on (`nextClicked`), where other
  calls are on the stack -/
  goingRoom : Nat
  /-- how many folders can be made at once when files are extracted (`extractFiles`) -/
  folderRoom : Nat

end ModWizard
