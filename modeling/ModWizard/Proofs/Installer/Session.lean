import ModWizard.Proofs.Installer.Extracted
import ModWizard.Proofs.Installer.Recall

/-!
# Sessions

A session is a list of requests.  The answers of the latest installation since the announcement
that gave a tree are noted beside the installer (`noted`), and they are what it has in its memory
(`Tracks`).  So a mod is changed only at a successful end after such an installation, and then
it holds the settings of these answers and no others (`Safe`).

An installation that has assembled its tree and then fails to tell its answers breaks this: the
installer takes it for made, with the answers from before.  So does an end at which there are more
answers than can be numbered (`Spoils`).
-/

namespace ModWizard.Installer

/-! ## What an installation comes to -/

/-- The tree that is assembled from what a dialog accepted, if it is there and can be
assembled. -/
def assembled? (x : Extracted) (b : Base) (d : Dialog) : Option Tree :=
  match planOf d with
  | .error _ => none
  | .ok plan => ((assemble x b.tree plan).run.run ⟨[], [], []⟩).1.toOption

/-- What is remembered once something was assembled, or was not, and its answers were told. -/
def Memory.after (m : Memory) : Option Tree → Except Dialog.Fault Answers → Memory
  | none, _ => m
  | some _, .error _ => { m with used := true }
  | some _, .ok a => ⟨true, a⟩

/-- An archive with its files extracted, and its base. -/
structure Unpacked extends Extracted where
  base : Base

/-- The archive with its files extracted, if an installation comes so far. -/
def unpacked? (i : Installer) (job : Job) : Option Unpacked :=
  match base? (mark job.archive) with
  | none => none
  | some b =>
    match i.organizer.checker, scriptPath? b with
    | some _, some script =>
      match (extract i.organizer.host.folderRoom job.contents
        (wanted script job.archive)).run.run i.disk with
      | (.error _, _) => none
      | (.ok (), disk) =>
        (Extracted.of? disk (entriesToExtract extractedEndings (mark job.archive))
          (found job.missing ((wanted script job.archive).map extractedPath))).map fun x => ⟨x, b⟩
    | _, _ => none

/-- An installation that has led the user through the script: the archive with its files extracted,
the memory at that time, and how the dialog went. -/
structure Conversation extends Unpacked where
  memory : Memory
  session : Dialog.Session

/-- The conversation to which an installation comes, if it comes to one. -/
def conversation? (i : Installer) (job : Job) : Option Conversation :=
  (unpacked? i job).bind fun u => i.memory.map fun m =>
    ⟨u, m, Dialog.exec (setupOf i.organizer u.base u.toExtracted job m.answers) job.name
      job.events⟩

namespace Conversation

/-- The tree that is assembled if the dialog was accepted. -/
def tree? (c : Conversation) : Option Tree :=
  match c.session.verdict with
  | .ok .accepted => assembled? c.toExtracted c.base c.session.dialog
  | _ => none

/-- What the installer remembers after a conversation. -/
def memoryAfter (c : Conversation) : Memory := c.memory.after c.tree? c.session.dialog.chosenAnswers

end Conversation

theorem finish_eq (m : Memory) (b : Base) (x : Extracted) (d : Dialog) {r : Report}
    (hr : r.log = ⟨[], [], []⟩) :
    (finish m b x d r).2 = m.after (assembled? x b d) d.chosenAnswers ∧
      ∀ t, (finish m b x d r).1.result = .ok (.tree t) ↔
        assembled? x b d = some t ∧ ∃ a, d.chosenAnswers = .ok a := by
  unfold finish assembled?
  rcases planOf d with f | plan
  · simp [Memory.after]
  · simp only [Report.rename, hr]
    rcases (assemble x b.tree plan).run.run ⟨[], [], []⟩ with ⟨f | t, log⟩
    · simp [Memory.after, Except.toOption]
    · rcases d.chosenAnswers with f | a
      · simp [Memory.after, Except.toOption]
      · simp [Memory.after, Except.toOption]

variable {i : Installer} {job : Job}

theorem converse_eq (org : Organizer) (m : Memory) (u : Unpacked) (job : Job) {r : Report}
    (hr : r.log = ⟨[], [], []⟩) {c : Conversation}
    (hc : ⟨u, m, Dialog.exec (setupOf org u.base u.toExtracted job m.answers) job.name
      job.events⟩ = c) :
    (converse org m u.base u.toExtracted job r).2 = c.memoryAfter ∧
      ∀ t, (converse org m u.base u.toExtracted job r).1.result = .ok (.tree t) ↔
        c.tree? = some t ∧ ∃ a, c.session.dialog.chosenAnswers = .ok a := by
  subst hc
  unfold converse Conversation.memoryAfter Conversation.tree?
  rcases Dialog.exec (setupOf org u.base u.toExtracted job m.answers) job.name job.events with
    ⟨f | (_ | _), seen, d⟩
  · simp [Memory.after]
  · exact finish_eq m u.base u.toExtracted d hr
  · simp only
    split <;> simp [Memory.after]

theorem memory_of_conversation? {c : Conversation} (h : conversation? i job = some c) :
    i.memory = some c.memory := by
  obtain ⟨u, -, h⟩ := Option.bind_eq_some_iff.mp h
  obtain ⟨m, hm, rfl⟩ := Option.map_eq_some_iff.mp h
  exact hm

/-- If no file is missing, all that were to be extracted are found. -/
theorem found_eq_self {missing : Nat} {paths : List String}
    (h : (found missing paths).length = paths.length) : found missing paths = paths := by
  unfold found at h ⊢
  split at h <;> rw [List.length_take] at h
  next hle => rw [if_pos hle, List.take_of_length_le (by omega)]
  next hlt => rw [if_neg hlt, List.take_of_length_le (by omega)]

theorem length_wanted (script : String) (archive : Tree) :
    (wanted script archive).length =
      (entriesToExtract extractedEndings (mark archive)).length + 1 := by
  rw [wanted, ← toExtract_mark, List.length_cons, toExtract, List.length_map]

/-- The files are paired with their paths if none is missing. -/
theorem of?_eq_some {disk : Disk} {script : String} {archive : Tree} {missing : Nat}
    {x : Extracted} :
    Extracted.of? disk (entriesToExtract extractedEndings (mark archive))
        (found missing ((wanted script archive).map extractedPath)) = some x ↔
      found missing ((wanted script archive).map extractedPath) =
          (wanted script archive).map extractedPath ∧
        x.disk = disk ∧ x.IsOf script archive := by
  have hlength := length_wanted script archive
  rw [Extracted.of?]
  constructor
  · intro h
    split at h
    next hfound =>
      cases h
      have hall : (found missing ((wanted script archive).map extractedPath)).length =
          ((wanted script archive).map extractedPath).length := by
        rw [List.length_map, hlength]
        exact hfound
      have heq := found_eq_self hall
      exact ⟨heq, rfl, rfl, heq⟩
    next => cases h
  · rintro ⟨hfound, rfl, hentries, hpaths⟩
    have hall : (found missing ((wanted script archive).map extractedPath)).length =
        (entriesToExtract extractedEndings (mark archive)).length + 1 := by
      rw [hfound, List.length_map, hlength]
    rw [dif_pos hall]
    obtain ⟨disk, entries, paths, hx⟩ := x
    cases hentries
    cases hpaths
    simp only [hfound]
    rfl

theorem unpacked?_eq_some {u : Unpacked} :
    unpacked? i job = some u ↔ base? (mark job.archive) = some u.base ∧
      i.organizer.checker.isSome ∧ ∃ script, scriptPath? u.base = some script ∧
        (extract i.organizer.host.folderRoom job.contents
          (wanted script job.archive)).run.run i.disk = (.ok (), u.disk) ∧
        found job.missing ((wanted script job.archive).map extractedPath) =
          (wanted script job.archive).map extractedPath ∧
        u.IsOf script job.archive := by
  unfold unpacked?
  constructor
  · intro h
    rcases hb : base? (mark job.archive) with _ | b
    · simp [hb] at h
    rcases hc : i.organizer.checker with _ | _
    · simp [hb, hc] at h
    rcases hs : scriptPath? b with _ | script
    · simp [hb, hc, hs] at h
    simp only [hb, hc, hs] at h
    rcases hx : (extract i.organizer.host.folderRoom job.contents
      (wanted script job.archive)).run.run i.disk with ⟨f | ⟨⟩, disk⟩
    · simp [hx] at h
    · simp only [hx] at h
      obtain ⟨x, hof, rfl⟩ := Option.map_eq_some_iff.mp h
      obtain ⟨hfound, rfl, hisOf⟩ := of?_eq_some.mp hof
      exact ⟨rfl, rfl, script, hs, hx, hfound, hisOf⟩
  · rintro ⟨hb, hc, script, hs, hx, hfound, hisOf⟩
    obtain ⟨checker, hc⟩ := Option.isSome_iff_exists.mp hc
    simp only [hb, hc, hs, hx, of?_eq_some.mpr ⟨hfound, rfl, hisOf⟩, Option.map_some]

/-- The dialog of a conversation is that of the script, with the remembered answers. -/
theorem session_of_conversation? {c : Conversation} (h : conversation? i job = some c) :
    base? (mark job.archive) = some c.base ∧
      c.session = Dialog.exec (setupOf i.organizer c.base c.toExtracted job c.memory.answers)
        job.name job.events := by
  obtain ⟨u, hu, h⟩ := Option.bind_eq_some_iff.mp h
  obtain ⟨m, -, rfl⟩ := Option.map_eq_some_iff.mp h
  exact ⟨(unpacked?_eq_some.mp hu).1, rfl⟩

/-- The files of a conversation are those of the archive that were wanted, and all of them. -/
theorem exists_script_of_conversation? {c : Conversation} (h : conversation? i job = some c) :
    ∃ script, scriptPath? c.base = some script ∧
      (extract i.organizer.host.folderRoom job.contents
        (wanted script job.archive)).run.run i.disk = (.ok (), c.disk) ∧
      found job.missing ((wanted script job.archive).map extractedPath) =
        (wanted script job.archive).map extractedPath ∧
      c.IsOf script job.archive := by
  obtain ⟨u, hu, h⟩ := Option.bind_eq_some_iff.mp h
  obtain ⟨m, -, rfl⟩ := Option.map_eq_some_iff.mp h
  exact (unpacked?_eq_some.mp hu).2.2

theorem install_of_unpacked?_eq_none (h : unpacked? i job = none) :
    (i.install job).2.memory = i.memory ∧ ∀ t, (i.install job).1.result ≠ .ok (.tree t) := by
  unfold install
  unfold unpacked? wanted at h
  rcases hb : base? (mark job.archive) with _ | b
  · simp [Report.blank]
  rcases hc : i.organizer.checker with _ | _
  · simp [Report.blank]
  rcases hs : scriptPath? b with _ | script
  · simp [hs, Report.blank]
  simp only [hb, hc, hs] at h
  simp only [hs, toExtract_mark]
  rcases hx : (extract i.organizer.host.folderRoom job.contents
    (script :: toExtract extractedEndings job.archive)).run.run i.disk with ⟨f | ⟨⟩, disk⟩
  · simp [Report.blank]
  · simp only [hx, Option.map_eq_none_iff] at h
    simp only [h]
    simp [Report.blank]

theorem install_of_unpacked? {u : Unpacked} (h : unpacked? i job = some u) :
    ∃ r : Report, r.log = ⟨[], [], []⟩ ∧ (∀ t, r.result ≠ .ok (.tree t)) ∧
      i.install job =
        match i.memory with
        | none => (r, { i with disk := u.disk })
        | some m =>
          ((converse i.organizer m u.base u.toExtracted job r).1,
            ⟨i.organizer, some (converse i.organizer m u.base u.toExtracted job r).2,
              u.disk⟩) := by
  obtain ⟨hb, hc, script, hs, hx, hfound, hisOf⟩ := unpacked?_eq_some.mp h
  obtain ⟨checker, hc⟩ := Option.isSome_iff_exists.mp hc
  have hof := of?_eq_some.mpr ⟨hfound, rfl, hisOf⟩
  unfold install
  unfold wanted at hx hof
  simp only [hb, hc, hs, toExtract_mark, hx, hof]
  refine ⟨_, rfl, ?_, rfl⟩
  simp [Report.blank]

/-- An installation comes to a conversation and leaves what that leaves, or it leaves the memory
as it was. -/
theorem install_eq (i : Installer) (job : Job) :
    (i.install job).2.memory = ((conversation? i job).map (·.memoryAfter)).or i.memory ∧
      ∀ t, (i.install job).1.result = .ok (.tree t) ↔
        ∃ c, conversation? i job = some c ∧ c.tree? = some t ∧
          ∃ a, c.session.dialog.chosenAnswers = .ok a := by
  unfold conversation?
  rcases hu : unpacked? i job with _ | u
  · obtain ⟨hmem, hres⟩ := install_of_unpacked?_eq_none hu
    simp [hmem, hres]
  · obtain ⟨r, hlog, hres, heq⟩ := install_of_unpacked? hu
    rw [heq]
    rcases i.memory with _ | m
    · simp [hres]
    · obtain ⟨hmem, htree⟩ := converse_eq i.organizer m u job hlog rfl
      simp [hmem, htree]

/-! ## Noting the answers -/

/-- That a request installs something. -/
def Yields (i : Installer) (q : Request) : Prop :=
  ∃ job t, q = .install job ∧ (i.install job).1.result = .ok (.tree t)

/-- The answers that the dialog of an installation tells in the end, if it does. -/
def told? (i : Installer) (job : Job) : Option Answers :=
  (conversation? i job).bind fun c => c.session.dialog.chosenAnswers.toOption

/-- What is noted after a request: the answers of the latest installation since the announcement
that gave a tree. -/
def noted (i : Installer) (n : Option Answers) : Request → Option Answers
  | .start _ => none
  | .install job =>
    match (i.install job).1.result with
    | .ok (.tree _) => told? i job
    | _ => n
  | _ => n

/-- What every request of a session satisfies where it is made, with what is noted then. -/
def Throughout (P : Installer → Option Answers → Request → Prop) :
    Installer → Option Answers → List Request → Prop
  | _, _, [] => True
  | i, n, q :: qs => P i n q ∧ Throughout P (i.respond q).2 (noted i n q) qs

/-- That the installer has the noted answers in its memory, and takes nothing for installed if
there are none. -/
def Tracks (i : Installer) : Option Answers → Prop
  | some a => i.memory = some ⟨true, a⟩
  | none => ∀ m ∈ i.memory, m.used = false

/-! ## Safety -/

/-- The settings of the mod that comes with a request. -/
def Request.settings? : Request → Option Settings
  | .start s => s
  | .finish _ s => s
  | _ => none

/-- The settings of the mod that goes back with a response. -/
def Response.settings? : Response → Option Settings
  | .started _ m => m.map (·.settings)
  | .finished _ m => m.map (·.settings)
  | _ => none

/-- The settings that a mod is to have after a request: those that remember the noted answers if
an installation has come to a good end, and else those that it had. -/
def dueSettings (n : Option Answers) : Request → Option (List (String × Scalar))
  | .finish .success (some s) =>
    match n with
    | some a => some ((toSettings a).map fun s => (s.1.text, .text s.2))
    | none => some s.entries
  | q => q.settings?.map (·.entries)

/-- That a request is answered as it is to be: the mod has the settings that are due; what is
installed is noted; and the memory changes only where an installation is announced or something
is installed. -/
structure Safe (i : Installer) (n : Option Answers) (q : Request) : Prop where
  settings : (i.respond q).1.settings?.map (·.entries) = dueSettings n q
  noted : Yields i q → ∃ a, noted i n q = some a
  memory : ¬ Yields i q → (∀ s, q ≠ .start s) → (i.respond q).2.memory = i.memory

/-- That an installation assembles its tree and then fails to tell its answers, where nothing was
installed before; or that it comes to a good end, and the answers cannot be numbered. -/
def Spoils (i : Installer) : Request → Prop
  | .install job => ∃ c ∈ conversation? i job,
      c.memory.used = false ∧ c.tree?.isSome ∧ c.session.dialog.chosenAnswers.toOption = none
  | .finish r s => r = .success ∧ s.isSome ∧
      ∃ m ∈ i.memory, m.used = true ∧ ¬ Numberable m.answers
  | _ => False

/-- What is installed was accepted, and it is remembered with the answers that its dialog told. -/
theorem exists_conversation_of_result {t : Tree} (h : (i.install job).1.result = .ok (.tree t)) :
    ∃ c a, conversation? i job = some c ∧ c.session.verdict = .ok .accepted ∧
      c.session.dialog.chosenAnswers = .ok a ∧ (i.install job).2.memory = some ⟨true, a⟩ := by
  obtain ⟨c, hc, ht, a, ha⟩ := ((install_eq i job).2 t).mp h
  refine ⟨c, a, hc, ?_, ha, ?_⟩
  · unfold Conversation.tree? at ht
    split at ht
    · assumption
    · cases ht
  · rw [(install_eq i job).1, hc]
    simp [Conversation.memoryAfter, ht, ha, Memory.after]

theorem memory_of_yields {t : Tree} (h : (i.install job).1.result = .ok (.tree t)) :
    ∃ a, told? i job = some a ∧ (i.install job).2.memory = some ⟨true, a⟩ := by
  obtain ⟨c, a, hc, -, ha, hmem⟩ := exists_conversation_of_result h
  refine ⟨a, ?_, hmem⟩
  rw [told?, hc, Option.bind_some, ha]
  rfl

/-- An installation that installs nothing leaves the memory as it was, unless it spoils it. -/
theorem memory_of_not_yields (hy : ¬ Yields i (.install job)) (hs : ¬ Spoils i (.install job)) :
    (i.install job).2.memory = i.memory := by
  rw [(install_eq i job).1]
  rcases hc : conversation? i job with _ | c
  · rfl
  rw [memory_of_conversation? hc, Option.map_some, Option.some_or]
  rcases ht : c.tree? with _ | t
  · rw [Conversation.memoryAfter, ht]
    rfl
  rcases ha : c.session.dialog.chosenAnswers with f | a
  · have hused : c.memory.used = true := by
      cases hu : c.memory.used with
      | true => rfl
      | false => exact absurd ⟨c, hc, hu, by simp [ht], by simp [ha, Except.toOption]⟩ hs
    rw [Conversation.memoryAfter, ht, ha]
    simp [Memory.after, ← hused]
  · exact absurd ⟨job, t, rfl, ((install_eq i job).2 t).mpr ⟨c, hc, ht, a, ha⟩⟩ hy

/-- An installation that spoils the memory installs nothing, and yet it changes the memory. -/
theorem Spoils.memory_ne (h : Spoils i (.install job)) :
    ¬ Yields i (.install job) ∧ (i.install job).2.memory ≠ i.memory := by
  obtain ⟨c, hc, hused, htree, htold⟩ := h
  obtain ⟨t, ht⟩ := Option.isSome_iff_exists.mp htree
  rcases ha : c.session.dialog.chosenAnswers with f | a
  · constructor
    · rintro ⟨job', t', heq, hres⟩
      cases heq
      obtain ⟨c', hc', -, a, ha'⟩ := ((install_eq i job).2 t').mp hres
      cases hc.symm.trans hc'
      cases ha.symm.trans ha'
    · rw [(install_eq i job).1, hc, memory_of_conversation? hc]
      intro heq
      have hmem : c.memoryAfter = c.memory := Option.some.inj heq
      rw [Conversation.memoryAfter, ht, ha] at hmem
      rw [← hmem] at hused
      cases hused
  · rw [ha] at htold
    cases htold

/-! ## One request -/

variable {n : Option Answers} {q : Request}

theorem Tracks.congr {j : Installer} (h : Tracks i n) (hm : j.memory = i.memory) :
    Tracks j n := by
  rcases n with _ | a
  · intro m hj
    exact h m (hm ▸ hj)
  · exact hm.trans h

theorem tracks_of_memory_eq_none (h : i.memory = none) : Tracks i none := by
  intro m hm
  rw [h] at hm
  cases hm

/-- After an announcement nothing counts as installed. -/
theorem tracks_start (i : Installer) (s : Option Settings) :
    Tracks (i.respond (.start s)).2 none := by
  intro m hm
  rcases s with _ | s
  · cases hm
    rfl
  · simp only [respond, start, Option.map_some] at hm
    split at hm
    · cases hm
      rfl
    · cases hm
      rfl

/-- What is noted is in the memory after a request that does not spoil it, if it was before. -/
theorem Tracks.respond (h : Tracks i n) (hs : ¬ Spoils i q) :
    Tracks (i.respond q).2 (Installer.noted i n q) := by
  cases q with
  | start s => exact tracks_start i s
  | install job =>
    by_cases hy : Yields i (.install job)
    · obtain ⟨_, t, heq, ht⟩ := hy
      cases heq
      obtain ⟨a, htold, hmem⟩ := memory_of_yields ht
      simp only [Installer.noted, ht, htold]
      exact hmem
    · have hn : Installer.noted i n (.install job) = n := by
        simp only [Installer.noted]
        split
        · rename_i t ht
          exact absurd ⟨job, t, rfl, ht⟩ hy
        · rfl
      rw [hn]
      exact h.congr (memory_of_not_yields hy hs)
  | finish r s => exact h.congr rfl
  | manage org => exact h.congr rfl
  | info => exact h
  | base t => exact h
  | supported t => exact h
  | extract t endings => exact h

/-- At the end of an installation a mod has the settings that are due, unless there are too many. -/
theorem Tracks.settings_finish (h : Tracks i n) (r : EndResult) (s : Settings)
    (hs : ¬ Spoils i (.finish r (some s))) :
    (i.respond (.finish r (some s))).1.settings?.map (·.entries) =
      dueSettings n (.finish r (some s)) := by
  by_cases hr : r = .success
  · subst hr
    rcases n with _ | a
    · rcases hm : i.memory with _ | m
      · simp [Installer.respond, finishInstallation, hm, Response.settings?, dueSettings,
          Mod.ofSettings]
      · have hused : m.used = false := h m hm
        simp [Installer.respond, finishInstallation, hm, hused, Response.settings?, dueSettings,
          Mod.ofSettings]
    · have hm : i.memory = some ⟨true, a⟩ := h
      have ha : Numberable a :=
        Classical.byContradiction fun ha => hs ⟨rfl, rfl, _, hm, rfl, ha⟩
      simp [Installer.respond, finishInstallation, hm, Response.settings?, dueSettings,
        entries_settings_keep ha]
  · have hdue : dueSettings n (.finish r (some s)) = some s.entries := by
      cases r with
      | success => exact absurd rfl hr
      | _ => rfl
    rw [hdue]
    simp [Installer.respond, finishInstallation, hr, Response.settings?, Mod.ofSettings]

/-- A request leaves the settings of a mod as they are due. -/
theorem Tracks.settings_respond (h : Tracks i n) (hs : ¬ Spoils i q) :
    (i.respond q).1.settings?.map (·.entries) = dueSettings n q := by
  cases q with
  | start s =>
    rcases s with _ | s
    · rfl
    · simp only [Installer.respond, start, Mod.read, Option.map_some, Mod.ofSettings]
      split <;> rfl
  | finish r s =>
    rcases s with _ | s
    · have hdue : dueSettings n (.finish r none) = none := by cases r <;> rfl
      have hnone : (i.finishInstallation r none).2 = none := by
        unfold finishInstallation
        split
        · cases i.memory <;> rfl
        · rfl
      rw [hdue, Installer.respond, Option.map_none]
      simp only [Response.settings?, hnone, Option.map_none]
    · exact h.settings_finish r s hs
  | _ => rfl

/-- A request that does not spoil the memory is answered as it is to be. -/
theorem Tracks.safe (h : Tracks i n) (hs : ¬ Spoils i q) : Safe i n q where
  settings := h.settings_respond hs
  noted := by
    rintro ⟨job, t, rfl, ht⟩
    obtain ⟨a, htold, -⟩ := memory_of_yields ht
    refine ⟨a, ?_⟩
    simp only [Installer.noted, ht, htold]
  memory := by
    intro hy hstart
    cases q with
    | start s => exact absurd rfl (hstart s)
    | install job => exact memory_of_not_yields hy hs
    | _ => rfl

/-- Answers that cannot be numbered do not all get into the settings. -/
theorem length_settings_keep_lt {a : Answers} (h : ¬ Numberable a) (m : Mod) :
    (keep a m).2.settings.entries.length < (toSettings a).length := by
  have hlt : ∀ (L : List (Key Nat × String)) (m : Mod), (m.writeAll L).1 ≠ .ok () →
      (m.writeAll L).2.settings.entries.length < m.settings.entries.length + L.length := by
    intro L
    induction L with
    | nil => exact fun m hm => absurd rfl hm
    | cons x L ih =>
      intro m hm
      rw [Mod.writeAll] at hm ⊢
      split at hm
      next hx =>
        rw [if_pos hx]
        have hinsert := Table.length_entries_insert_le m.settings x.1.text (.text x.2)
        have hrest := ih (m.write x.1.text x.2) hm
        have hwrite : (m.write x.1.text x.2).settings = m.settings.insert x.1.text (.text x.2) :=
          rfl
        rw [hwrite] at hrest
        rw [List.length_cons]
        omega
      next hx =>
        rw [if_neg hx, List.length_cons]
        dsimp only
        omega
  have hkeep := hlt (toSettings a) m.clear fun hok => h (keep_eq_ok_iff.mp hok)
  rwa [show m.clear.settings.entries.length = 0 from rfl, Nat.zero_add] at hkeep

/-- A request that spoils the memory is not answered as it is to be. -/
theorem Tracks.not_safe (ht : Tracks i n) (h : Spoils i q) : ¬ Safe i n q := by
  intro hsafe
  cases q with
  | install job =>
    obtain ⟨hy, hne⟩ := h.memory_ne
    refine hne (hsafe.memory hy ?_)
    intro s hq
    cases hq
  | finish r s =>
    obtain ⟨rfl, hs, m, hm, hused, hmany⟩ := h
    obtain ⟨s, rfl⟩ := Option.isSome_iff_exists.mp hs
    rcases n with _ | a
    · cases hused.symm.trans (ht m hm)
    · cases ht.symm.trans hm
      have hsettings := hsafe.settings
      simp only [Installer.respond, finishInstallation, Option.map_some, show i.memory = _ from ht,
        if_true, Response.settings?, dueSettings, Option.some.injEq] at hsettings
      have hlt := length_settings_keep_lt hmany (.ofSettings s)
      rw [hsettings, List.length_map] at hlt
      exact Nat.lt_irrefl _ hlt
  | _ => exact h

/-! ## Whole sessions -/

theorem throughout_safe_iff_of_tracks (h : Tracks i n) (qs : List Request) :
    Throughout Safe i n qs ↔ Throughout (fun i _ q => ¬ Spoils i q) i n qs := by
  induction qs generalizing i n with
  | nil => exact Iff.rfl
  | cons q qs ih =>
    constructor
    · rintro ⟨hsafe, hrest⟩
      have hs : ¬ Spoils i q := fun hs => h.not_safe hs hsafe
      exact ⟨hs, (ih (h.respond hs)).mp hrest⟩
    · rintro ⟨hs, hrest⟩
      exact ⟨h.safe hs, (ih (h.respond hs)).mpr hrest⟩

instance (a : Answers) : Decidable (Numberable a) := inferInstanceAs (Decidable (_ ∧ _))

instance (i : Installer) : DecidablePred (Spoils i)
  | .install job => inferInstanceAs (Decidable (∃ c ∈ conversation? i job,
      c.memory.used = false ∧ c.tree?.isSome ∧ c.session.dialog.chosenAnswers.toOption = none))
  | .finish r s => inferInstanceAs (Decidable (r = .success ∧ s.isSome ∧
      ∃ m ∈ i.memory, m.used = true ∧ ¬ Numberable m.answers))
  | .manage _ | .info | .start _ | .base _ | .supported _ | .extract .. =>
    inferInstanceAs (Decidable False)

instance decidableThroughout (P : Installer → Option Answers → Request → Prop)
    [∀ i n q, Decidable (P i n q)] : ∀ i n qs, Decidable (Throughout P i n qs)
  | _, _, [] => inferInstanceAs (Decidable True)
  | i, n, q :: qs =>
    have := decidableThroughout P (i.respond q).2 (noted i n q) qs
    inferInstanceAs (Decidable (P i n q ∧ Throughout P (i.respond q).2 (noted i n q) qs))

/-- A session with a new installer is safe exactly if no installation in it assembles a tree and
then fails to tell its answers, where nothing was installed before, and none comes to a good end
with answers that cannot be numbered. -/
theorem throughout_safe_iff (h : i.memory = none) (qs : List Request) :
    Throughout Safe i none qs ↔ Throughout (fun i _ q => ¬ Spoils i q) i none qs :=
  throughout_safe_iff_of_tracks (tracks_of_memory_eq_none h) qs

namespace Untold

def installer : Installer where
  organizer := ⟨.plain 9, "Game", "1.0", "1.0", none, some ∅, [], [], ∅, ∅⟩
  memory := none
  disk := .bare

/-- The third question shares the page of the first, which has no rows and cannot show it. -/
def script : Script where
  start := "a"
  nodes := .ofList
    [("a", ⟨"k", .question ⟨.many, "first", [], [], some "b"⟩⟩),
     ("b", ⟨"b", .question
        ⟨.one, "second", [⟨"p", "", none, some "c"⟩, ⟨"r", "", none, none⟩], [0], some "e"⟩⟩),
     ("c", ⟨"k", .question ⟨.one, "third", [⟨"u", "", none, none⟩], [0], some "e"⟩⟩),
     ("e", ⟨"e", .done ⟨[], [], [], ∅, ∅⟩ none⟩)]

/-- The installation of an archive that holds a script only. -/
def jobOf (script : Script) (events : List Dialog.Action) : Job where
  name := ⟨"Mod", ["Mod"]⟩
  archive := .file "wizard.txt" none .nil
  contents := ∅
  missing := 0
  script := script
  events := events.map .act

/-- Before the other answer to the second question is chosen, the third is tried. -/
def spoiling : List Request :=
  [.start none, .install (jobOf script [.next, .next, .setCurrent 1, .next, .next]),
   .finish .success (some (.ofList [("old", .text "1")]))]

/-- An installation is cancelled, another one made, and a third one tried that fails to tell its
answers. -/
def sparing : List Request :=
  [.start none, .install (jobOf script [.next, .cancel]),
   .install (jobOf script [.next, .setCurrent 1, .next, .next]),
   .install (jobOf script [.next, .next, .setCurrent 1, .next, .next]),
   .finish .success (some (.ofList [("old", .text "1")]))]

end Untold

open Untold in
theorem throughout_safe_iff_sparing :
    installer.memory = none ∧ Throughout (fun i _ q => ¬ Spoils i q) installer none sparing ∧
    Throughout Safe installer none sparing := by
  have hs : Throughout (fun i _ q => ¬ Spoils i q) installer none sparing := by decide +kernel
  exact ⟨rfl, hs, (throughout_safe_iff rfl sparing).mpr hs⟩

open Untold in
/-- The settings of a mod are cleared in the end although nothing was installed. -/
theorem not_safe_spoiling :
    (serve installer spoiling).map (fun x => x.1.settings?.map (·.entries)) =
      [none, none, some []] ∧
    ¬ Throughout Safe installer none spoiling := by
  refine ⟨by decide +kernel, fun h => ?_⟩
  have hs := (throughout_safe_iff_of_tracks (tracks_of_memory_eq_none rfl) spoiling).mp h
  exact absurd hs (by decide +kernel)

end ModWizard.Installer
