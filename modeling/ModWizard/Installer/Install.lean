import ModWizard.Dialog.Play
import ModWizard.Installer.Archive
import ModWizard.Installer.Assembly
import ModWizard.Installer.Memory

/-!
# Installation

An archive is installed by leading the user through its script and assembling what was
accepted.  The answers are remembered, to be kept with the mod.
-/

namespace ModWizard

/-- What the installer remembers during an installation. -/
structure Installer.Memory where
  /-- whether the installer has installed something -/
  used : Bool
  answers : Installer.Answers
  deriving DecidableEq

/-- The state of the installer: the organizer, a memory once an installation was announced,
and the disk. -/
structure Installer where
  organizer : Organizer
  memory : Option Installer.Memory
  disk : Disk

namespace Installer

/-- The contents of the files of an archive, by their paths.  Files not named are empty. -/
abbrev Contents := Table String ByteArray

/-- The folder to which files of the archive are extracted. -/
def extractionFolder : String := "x"

/-- The path to which a file of the archive is extracted. -/
def extractedPath (path : String) : String := extractionFolder ++ "/" ++ path

/-- Extracts files of an archive, one after the other, to a folder from which all that was
extracted before is removed (`extractFiles`).  What a path that goes up put elsewhere stays. -/
def extract (room : Nat) (contents : Contents) (paths : List String) : Disk.Work Unit := do
  modify (·.remove [extractionFolder])
  paths.forM fun p => Disk.write room (extractedPath p) ((contents.get? p).getD .empty)

/-- What is to be installed, and what the user does with the dialog. -/
structure Job where
  name : Dialog.Guess
  archive : Tree
  contents : Contents
  /-- how many of the files, from the end, cannot be found once they are extracted -/
  missing : Nat
  script : Script
  events : List Dialog.Event

/-- How an installation ends. -/
inductive Result
  | tree (t : Tree)
  | cancelled
  | manualRequested
  | failed
  | notAttempted
  deriving DecidableEq, Inhabited

/-- A request to extract files: where they are found, and whether the user sees nothing of
it. -/
structure Extraction where
  paths : List String
  silent : Bool
  deriving DecidableEq, Inhabited

/-- The first of some paths, without a number of them at the end.  A number above that of all
paths begins again at the end. -/
def found (missing : Nat) (paths : List String) : List String :=
  if missing ≤ paths.length then paths.take (paths.length - missing)
  else paths.take (paths.length - (missing - paths.length))

/-- What came of an installation. -/
structure Report where
  result : Except Fault Result
  /-- the name of the mod afterwards -/
  name : String
  /-- the names given to the mod -/
  updates : List String
  /-- what was seen of the dialog -/
  seen : List Dialog.Observation
  /-- the answers given, question by question -/
  given : List (List String)
  /-- the scripts that were shown to the user -/
  opened : List String
  extracted : List Extraction
  log : Log

/-- The report of an installation before anything was done. -/
def Report.blank (g : Dialog.Guess) (r : Except Fault Result) : Report where
  result := r
  name := g.value
  updates := []
  seen := []
  given := []
  opened := []
  extracted := []
  log := ⟨[], [], []⟩

/-- The path of the script in the base. -/
def scriptPath? (b : Base) : Option String :=
  (b.tree.find? scriptName).map fun e => Tree.pathText (b.above ++ [e.name])

/-- Whether the path of an extracted file is that of a picture: it is no tweak file. -/
def isPicture (path : String) : Bool := !".ini".toList.isSuffixOf path.toList

/-- The pictures among the extracted files: each file beside the path that stands at its place
(`zip` of `to_extract` and the rest of `paths`). -/
def imagesOf (x : Extracted) : Dialog.Images :=
  Table.ofList (((x.entries.zip x.paths.tail).filter fun p => isPicture p.2).map fun p =>
    (Path.ofString (Tree.pathText p.1.1), Path.ofString p.2))

/-- What the dialog is opened with. -/
def setupOf (org : Organizer) (b : Base) (x : Extracted) (job : Job) (answers : Answers) :
    Dialog.Setup :=
  .ofTree org job.script b.above b.tree (imagesOf x) answers

/-- What was accepted on the page at the end. -/
def planOf (d : Dialog) : Except Fault Plan :=
  match d.completePage with
  | .error f => .error (.dialog f)
  | .ok p => .ok ⟨p.checkedPackages, p.renames, p.tweaks⟩

/-- The report with a name given to the mod. -/
def Report.rename (r : Report) (name : String) : Report :=
  { r with name := name, updates := r.updates ++ [name] }

/-- Installs what was accepted, and remembers the answers. -/
def finish (m : Memory) (b : Base) (x : Extracted) (d : Dialog) (r : Report) : Report × Memory :=
  let r := r.rename d.name
  match planOf d with
  | .error f => ({ r with result := .error f }, m)
  | .ok plan =>
    match (assemble x b.tree plan).run.run r.log with
    | (.error f, log) => ({ r with result := .error f, log := log }, m)
    | (.ok t, log) =>
      match d.chosenAnswers with
      | .error f => ({ r with result := .error (.dialog f), log := log }, { m with used := true })
      | .ok answers => ({ r with result := .ok (.tree t), log := log }, ⟨true, answers⟩)

/-- Leads the user through the script and installs what is accepted. -/
def converse (org : Organizer) (m : Memory) (b : Base) (x : Extracted) (job : Job) (r : Report) :
    Report × Memory :=
  let s := Dialog.exec (setupOf org b x job m.answers) job.name job.events
  let r :=
    { r with
      seen := s.seen
      given := s.dialog.given
      opened := List.replicate s.dialog.scriptShown x.script }
  match s.verdict with
  | .error f => ({ r with result := .error (.dialog f) }, m)
  | .ok .accepted => finish m b x s.dialog r
  | .ok .rejected =>
    if s.dialog.manual then
      ({ r.rename s.dialog.name with result := .ok .manualRequested }, m)
    else ({ r with result := .ok .cancelled }, m)

/-- Installs an archive (`install`).  Nothing is attempted without a base, or if the game has no
check of folders. -/
def install (i : Installer) (job : Job) : Report × Installer :=
  let blank := Report.blank job.name
  match base? (mark job.archive) with
  | none => (blank (.ok .notAttempted), i)
  | some b =>
    match i.organizer.checker, scriptPath? b with
    | some _, some script =>
      let wanted := script :: toExtract extractedEndings (mark job.archive)
      let (outcome, disk) :=
        (extract i.organizer.host.folderRoom job.contents wanted).run.run i.disk
      let i := { i with disk := disk }
      match outcome with
      | .error f => (blank (.error (.disk f)), i)
      | .ok () =>
        let paths := found job.missing (wanted.map extractedPath)
        match Extracted.of? disk (entriesToExtract extractedEndings (mark job.archive)) paths with
        | none => ({ blank (.ok .failed) with extracted := [⟨paths, false⟩] }, i)
        | some x =>
          let r := { blank (.error .notStarted) with extracted := [⟨paths, false⟩] }
          match i.memory with
          | none => (r, i)
          | some m =>
            let (r, m) := converse i.organizer m b x job r
            (r, { i with memory := some m })
    | _, _ => (blank (.ok .notAttempted), i)

end Installer

end ModWizard
