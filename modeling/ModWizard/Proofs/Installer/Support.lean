import ModWizard.Proofs.Installer.Assembly
import ModWizard.Proofs.Installer.Session

/-!
# Archives that are taken and archives that are attempted

An installer is asked first whether it takes an archive and then to install it.  Both times the
archive is searched for its base, but only the installation asks whether the game has a check of
folders: it attempts nothing if there is no base or no check (`result_install_eq_notAttempted_iff`).
From the base on every installation is an attempt (`result_attempt_ne_notAttempted`).
-/

namespace ModWizard.Installer

variable {i : Installer} {job : Job} {b : Base} {script : String}

/-! ### Attempts -/

/-- What comes of an installation once the files are extracted to the disk. -/
def proceed (i : Installer) (job : Job) (b : Base) (script : String) (disk : Disk) :
    Report × Installer :=
  let i := { i with disk := disk }
  let paths := found job.missing ((wanted script job.archive).map extractedPath)
  match Extracted.of? disk (entriesToExtract extractedEndings (mark job.archive)) paths with
  | none => ({ Report.blank job.name (.ok .failed) with extracted := [⟨paths, false⟩] }, i)
  | some x =>
    let r := { Report.blank job.name (.error .notStarted) with extracted := [⟨paths, false⟩] }
    match i.memory with
    | none => (r, i)
    | some m =>
      let (r, m) := converse i.organizer m b x job r
      (r, { i with memory := some m })

/-- What comes of an installation from the base of the archive and the path of its script on. -/
def attempt (i : Installer) (job : Job) (b : Base) (script : String) : Report × Installer :=
  match (extract i.organizer.host.folderRoom job.contents
    (wanted script job.archive)).run.run i.disk with
  | (.error f, disk) => (.blank job.name (.error (.disk f)), { i with disk := disk })
  | (.ok (), disk) => proceed i job b script disk

/-- With a base and a check of folders the installation is attempted. -/
theorem install_eq_attempt (hb : base? (mark job.archive) = some b)
    (hc : i.organizer.checker.isSome = true) (hs : scriptPath? b = some script) :
    i.install job = attempt i job b script := by
  obtain ⟨checker, hc⟩ := Option.isSome_iff_exists.mp hc
  unfold install attempt proceed wanted
  simp only [hb, hc, hs, toExtract_mark]
  rcases (extract i.organizer.host.folderRoom job.contents
    (script :: toExtract extractedEndings job.archive)).run.run i.disk with ⟨f | ⟨⟩, disk⟩ <;> rfl

/-- That a result is one of an installation whose files were extracted: something was attempted, and
the extraction is not what failed. -/
def IsLate (x : Except Fault Result) : Prop := x ≠ .ok .notAttempted ∧ ∀ f, x ≠ .error (.disk f)

theorem isLate_finish (m : Memory) (b : Base) (x : Extracted) (d : Dialog) (r : Report) :
    IsLate (finish m b x d r).1.result := by
  unfold finish planOf
  rcases d.completePage with f | p
  · simp [IsLate]
  · simp only
    rcases hrun : (assemble x b.tree _).run.run (r.rename d.name).log with ⟨f | t, log⟩
    · have hlate := failsOnly_assemble b.tree _ _ f log hrun
      exact ⟨by simp, fun g hg => hlate g (Except.error.inj hg)⟩
    · rcases d.chosenAnswers with f | a <;> simp [IsLate]

theorem isLate_converse (org : Organizer) (m : Memory) (b : Base) (x : Extracted) (job : Job)
    (r : Report) : IsLate (converse org m b x job r).1.result := by
  unfold converse
  rcases Dialog.exec (setupOf org b x job m.answers) job.name job.events with
    ⟨f | (_ | _), seen, d⟩
  · simp [IsLate]
  · exact isLate_finish _ _ _ _ _
  · simp only
    split <;> simp [IsLate]

theorem isLate_proceed (i : Installer) (job : Job) (b : Base) (script : String) (disk : Disk) :
    IsLate (proceed i job b script disk).1.result := by
  unfold proceed
  simp only
  split
  · simp [IsLate, Report.blank]
  · rcases i.memory with _ | m
    · simp [IsLate, Report.blank]
    · exact isLate_converse _ _ _ _ _ _

/-- An attempt is told as such, whatever comes of it. -/
theorem result_attempt_ne_notAttempted (i : Installer) (job : Job) (b : Base) (script : String) :
    (attempt i job b script).1.result ≠ .ok .notAttempted := by
  unfold attempt
  rcases (extract i.organizer.host.folderRoom job.contents
    (wanted script job.archive)).run.run i.disk with ⟨f | ⟨⟩, disk⟩
  · simp [Report.blank]
  · exact (isLate_proceed i job b script disk).1

/-- An attempt tells of the extraction's fault if it has one, and only then. -/
theorem result_attempt_eq_disk_iff {f : Disk.Fault} :
    (attempt i job b script).1.result = .error (.disk f) ↔
      ((extract i.organizer.host.folderRoom job.contents
        (wanted script job.archive)).run.run i.disk).1 = .error f := by
  unfold attempt
  rcases (extract i.organizer.host.folderRoom job.contents
    (wanted script job.archive)).run.run i.disk with ⟨g | ⟨⟩, disk⟩
  · simp [Report.blank]
  · exact iff_of_false ((isLate_proceed i job b script disk).2 f) (by simp)

/-! ### Installations -/

theorem install_of_checker_eq_none (hc : i.organizer.checker = none) (job : Job) :
    i.install job = (.blank job.name (.ok .notAttempted), i) := by
  unfold install
  rcases base? (mark job.archive) with _ | b
  · rfl
  · simp only [hc]

theorem base?_mark_eq_none_iff {t : Tree} : base? (mark t) = none ↔ base? t = none := by
  rw [base?_mark, Option.map_eq_none_iff]

/-- Nothing is attempted without a base, or without a check of folders, and only then. -/
theorem result_install_eq_notAttempted_iff (i : Installer) (job : Job) :
    (i.install job).1.result = .ok .notAttempted ↔
      base? job.archive = none ∨ i.organizer.checker = none := by
  cases hb : base? (mark job.archive) with
  | none =>
    refine iff_of_true ?_ (.inl (base?_mark_eq_none_iff.mp hb))
    unfold install
    rw [hb]
    rfl
  | some b =>
    have hbase : base? job.archive ≠ none := fun h => by
      rw [base?_mark_eq_none_iff.mpr h] at hb
      cases hb
    cases hc : i.organizer.checker with
    | none =>
      refine iff_of_true ?_ (.inr rfl)
      rw [install_of_checker_eq_none hc]
      rfl
    | some checker =>
      obtain ⟨script, hs⟩ := exists_scriptPath? (holdsScript_of_baseBelow? hb)
      rw [install_eq_attempt hb (by rw [hc]; rfl) hs]
      refine iff_of_false (result_attempt_ne_notAttempted i job b script) ?_
      rintro (h | h)
      · exact hbase h
      · cases h

/-! ### Archives that are taken -/

/-- An archive is taken if it has a base that is not left to another installer. -/
theorem isSupported_eq_true_iff {org : Organizer} {t : Tree} :
    isSupported org t = true ↔
      ∃ b, base? t = some b ∧ (isFomod b && hasFomod org && prefersFomod org) = false := by
  unfold isSupported
  cases base? t with
  | none => simp
  | some b => rw [Bool.not_eq_true']; simp only [Option.some.injEq, exists_eq_left']

theorem isSupported_of_base?_eq_none {org : Organizer} {t : Tree} (h : base? t = none) :
    isSupported org t = false := by
  rw [isSupported, h]

namespace Unchecked

/-- The organizer of a game with or without a check of folders, which prefers another installer for
FOMOD archives. -/
def organizer (checker : Option (Table String Verdict)) : Organizer :=
  ⟨.plain 9, "Game", "1.0", "1.0", none, checker,
    [⟨pluginName, "prefer_fomod", .bool true⟩, ⟨"Fomod Installer", "enabled", .bool true⟩],
    [], ∅, ∅⟩

def installer (checker : Option (Table String Verdict)) : Installer :=
  ⟨organizer checker, some ⟨false, ∅⟩, .bare⟩

/-- A script that ends at once, in an archive. -/
def jobOf (archive : Tree) : Job where
  name := ⟨"Mod", ["Mod"]⟩
  archive := archive
  contents := ∅
  missing := 0
  script := ⟨"e", .ofList [("e", ⟨"e", .done ⟨[], [], [], ∅, ∅⟩ none⟩)]⟩
  events := [.act .next]

/-- An archive with its script below a folder that is alone. -/
def archive : Tree := .folder "Mod 1.0" (.file "Wizard.txt" none .nil) .nil

end Unchecked

/-- An archive that is taken is attempted if and only if the game has a check of folders.  An
archive without a base is neither taken nor attempted. -/
theorem supported_attempted_iff (i : Installer) (job : Job) :
    (isSupported i.organizer job.archive = true →
      ((i.install job).1.result ≠ .ok .notAttempted ↔ i.organizer.checker.isSome = true)) ∧
    (base? job.archive = none → isSupported i.organizer job.archive = false ∧
      (i.install job).1.result = .ok .notAttempted) := by
  refine ⟨fun h => ?_, fun h => ⟨isSupported_of_base?_eq_none h,
    (result_install_eq_notAttempted_iff i job).mpr (.inl h)⟩⟩
  obtain ⟨b, hb, -⟩ := isSupported_eq_true_iff.mp h
  rw [Ne, result_install_eq_notAttempted_iff, Option.isSome_iff_ne_none]
  constructor
  · intro hn hc
    exact hn (.inr hc)
  · rintro hc (hnone | hnone)
    · cases hb.symm.trans hnone
    · exact hc hnone

open Unchecked in
theorem supported_attempted_checked :
    isSupported (installer (some ∅)).organizer archive = true ∧
      ((installer (some ∅)).install (jobOf archive)).1.result ≠ .ok .notAttempted ∧
      base? (.folder "Mod" .nil .nil) = none ∧
      ((installer (some ∅)).install (jobOf (.folder "Mod" .nil .nil))).1.result =
        .ok .notAttempted := by
  have hs : isSupported (installer (some ∅)).organizer archive = true := by decide
  have hb : base? (.folder "Mod" .nil .nil) = none := by decide
  exact ⟨hs, ((supported_attempted_iff (installer (some ∅)) (jobOf archive)).1 hs).mpr rfl, hb,
    ((supported_attempted_iff (installer (some ∅)) (jobOf (.folder "Mod" .nil .nil))).2 hb).2⟩

open Unchecked in
/-- Without a check of folders an archive is taken and then not attempted. -/
theorem supported_not_attempted_unchecked :
    isSupported (installer none).organizer archive = true ∧
      ((installer none).install (jobOf archive)).1.result = .ok .notAttempted := by
  decide

end ModWizard.Installer
