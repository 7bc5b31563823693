import ModWizard.Installer.Install

/-!
# Sessions

The requests that the organizer makes of the installer.  An installation is announced,
carried out, and ended; only at its successful end the remembered answers are written to
the settings of the mod.
-/

namespace ModWizard.Installer

/-- What is asked of a mod. -/
inductive ModCall
  | read (plugin : String)
  | clear (plugin : String)
  | write (plugin key value : String)
  deriving DecidableEq, Inhabited

/-- A mod: its settings, and what was asked of it. -/
structure Mod where
  settings : Settings
  calls : List ModCall
  deriving DecidableEq

namespace Mod

/-- A mod with some settings. -/
def ofSettings (s : Settings) : Mod := ⟨s, []⟩

/-- Reads the settings of the installer. -/
def read (m : Mod) : Settings × Mod :=
  (m.settings, { m with calls := m.calls ++ [.read pluginName] })

/-- Clears the settings of the installer. -/
def clear (m : Mod) : Mod := ⟨∅, m.calls ++ [.clear pluginName]⟩

/-- Writes a setting of the installer. -/
def write (m : Mod) (key value : String) : Mod :=
  ⟨m.settings.insert key (.text value), m.calls ++ [.write pluginName key value]⟩

/-- Writes texts under their keys, one after the other.  That ends at a key that cannot be
written. -/
def writeAll : List (Key Nat × String) → Mod → Except Fault Unit × Mod
  | [], m => (.ok (), m)
  | (k, s) :: rest, m =>
    if k.isWritable then writeAll rest (m.write k.text s) else (.error .longNumber, m)

end Mod

/-- How an installation ended for the organizer. -/
inductive EndResult
  | success
  | failed
  | cancelled
  | manualRequested
  | notAttempted
  deriving DecidableEq, Inhabited

/-- Announces an installation (`onInstallationStart`).  If the mod is there already, its answers are
remembered; none are if they cannot be read. -/
def start (i : Installer) : Option Mod → Except Fault Unit × Installer × Option Mod
  | none => (.ok (), { i with memory := some ⟨false, ∅⟩ }, none)
  | some m =>
    let (s, m) := m.read
    match remembered? s with
    | some a => (.ok (), { i with memory := some ⟨false, a⟩ }, some m)
    | none => (.error .longNumber, { i with memory := some ⟨false, ∅⟩ }, some m)

/-- Writes answers to the settings of a mod, in place of all that was there. -/
def keep (a : Answers) (m : Mod) : Except Fault Unit × Mod := m.clear.writeAll (toSettings a)

/-- Ends an installation (`onInstallationEnd`). -/
def finishInstallation (i : Installer) (r : EndResult) (m : Option Mod) :
    Except Fault Unit × Option Mod :=
  if r = .success then
    match i.memory, m with
    | none, m => (.error .notStarted, m)
    | some _, none => (.ok (), none)
    | some mem, some m =>
      if mem.used then
        let (r, m) := keep mem.answers m
        (r, some m)
      else (.ok (), some m)
  else (.ok (), m)

/-- A request of the organizer. -/
inductive Request
  | manage (org : Organizer)
  | info
  | start (mod : Option Settings)
  | finish (r : EndResult) (mod : Option Settings)
  | base (t : Tree)
  | supported (t : Tree)
  | extract (t : Tree) (endings : Option (List String))
  | install (job : Job)

/-- An answer to a request. -/
inductive Response
  | managed
  | info (org : Organizer)
  | started (r : Except Fault Unit) (mod : Option Mod)
  | finished (r : Except Fault Unit) (mod : Option Mod)
  | base (b : Option Base)
  | supported (b : Bool)
  | extract (paths : List String)
  | install (r : Report)

/-- Answers a request. -/
def respond (i : Installer) : Request → Response × Installer
  | .manage org => (.managed, { i with organizer := org })
  | .info => (.info i.organizer, i)
  | .start s =>
    let (r, i, m) := i.start (s.map Mod.ofSettings)
    (.started r m, i)
  | .finish r s =>
    let (r, m) := i.finishInstallation r (s.map Mod.ofSettings)
    (.finished r m, i)
  | .base t => (.base (base? t), i)
  | .supported t => (.supported (isSupported i.organizer t), i)
  | .extract t endings => (.extract (toExtract (endings.getD extractedEndings) t), i)
  | .install job =>
    let (r, i) := i.install job
    (.install r, i)

/-- Answers requests one after the other, with the state of the installer after each. -/
def serve : Installer → List Request → List (Response × Installer)
  | _, [] => []
  | i, q :: qs =>
    let (r, i) := i.respond q
    (r, i) :: serve i qs

end ModWizard.Installer
