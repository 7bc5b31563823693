import ModWizard.Proofs.Dialog.Repeat
import ModWizard.Proofs.Disk
import ModWizard.Proofs.Installer.Session

/-!
# Installing again

A mod that was installed is installed again: its answers were kept at the end of the first
installation and are remembered when the second is announced.  The files are extracted over those
of the first time and the dialog is opened again.  If the user does nothing but go on, the same
answers are given.

The first dialog must have been left with the pages in its stack telling one way through the
script, and the names of the chosen answers must be enough to choose them again
(`Dialog.Repeatable`): that nothing was chosen is not remembered.
-/

namespace ModWizard.Installer

variable {i : Installer} {job : Job}

/-! ## Extracting again -/

/-- Files that were extracted can be extracted again. -/
theorem extract_again {room : Nat} {contents : Contents} {paths : List String} {disk disk' : Disk}
    (h : (extract room contents paths).run.run disk = (.ok (), disk')) :
    ∃ disk'', (extract room contents paths).run.run disk' = (.ok (), disk'') := by
  unfold extract at h ⊢
  obtain ⟨⟨⟩, _, hremove, hwrite⟩ := Disk.Work.run_bind_eq_ok.mp h
  cases Disk.Work.run_modify_eq_ok.mp hremove
  obtain ⟨hsub, -, hagain⟩ := Disk.Work.repeats_forM
    (fun p => Disk.write_repeats room (extractedPath p) ((contents.get? p).getD .empty)) paths _ _ _
    trivial hwrite
  -- What was extracted is removed, so the second time begins with less than the first left.
  obtain ⟨disk'', hwrite', -, -⟩ := hagain (disk'.remove [extractionFolder]) disk' hsub.remove
    (Disk.remove_sub disk' _) (.refl disk')
  exact ⟨disk'', Disk.Work.run_bind_eq_ok.mpr
    ⟨(), _, Disk.Work.run_modify_eq_ok.mpr rfl, hwrite'⟩⟩

/-- That the same is to be installed, and as much of it is found once it is extracted. -/
structure Job.Same (again job : Job) : Prop where
  archive : again.archive = job.archive
  contents : again.contents = job.contents
  missing : again.missing = job.missing
  script : again.script = job.script

theorem unpacked?_again {j : Installer} {again : Job} {u : Unpacked}
    (hu : unpacked? i job = some u) (hsame : again.Same job)
    (horganizer : j.organizer = i.organizer) (hdisk : j.disk = u.disk) :
    ∃ u', unpacked? j again = some u' := by
  obtain ⟨hbase, hchecker, script, hscript, hextract, hfound, hisOf⟩ := unpacked?_eq_some.mp hu
  obtain ⟨disk, hagain⟩ := extract_again hextract
  refine ⟨{ u with disk := disk }, unpacked?_eq_some.mpr ?_⟩
  rw [hsame.archive, hsame.contents, hsame.missing, horganizer, hdisk]
  exact ⟨hbase, hchecker, script, hscript, hagain, hfound, hisOf.entries_eq, hisOf.paths_eq⟩

/-- A conversation leaves the organizer as it was, and the disk as the files were extracted. -/
theorem install_of_conversation? {c : Conversation} (h : conversation? i job = some c) :
    (i.install job).2.organizer = i.organizer ∧
      ∃ u, unpacked? i job = some u ∧ (i.install job).2.disk = u.disk := by
  have hm := memory_of_conversation? h
  obtain ⟨u, hu, -⟩ := Option.bind_eq_some_iff.mp h
  obtain ⟨r, -, -, heq⟩ := install_of_unpacked? hu
  rw [heq, hm]
  exact ⟨rfl, u, hu, rfl⟩

/-- What came to a conversation comes to one again. -/
theorem conversation?_again {c : Conversation} {j : Installer} {again : Job} {m : Memory}
    (hc : conversation? i job = some c) (hsame : again.Same job)
    (horganizer : j.organizer = (i.install job).2.organizer)
    (hdisk : j.disk = (i.install job).2.disk) (hm : j.memory = some m) :
    ∃ c', conversation? j again = some c' := by
  obtain ⟨horg, u, hu, hd⟩ := install_of_conversation? hc
  obtain ⟨u', hu'⟩ := unpacked?_again hu hsame (horganizer.trans horg) (hdisk.trans hd)
  rw [conversation?, hu', hm]
  exact ⟨_, rfl⟩

/-! ## Answering again -/

/-- The dialog of the second installation is opened as that of the first was, with the answers of
the first remembered. -/
theorem setupOf_again (org : Organizer) (b : Base) {x x' : Extracted} {again : Job}
    (a a' : Answers) (himages : imagesOf x' = imagesOf x) (hscript : again.script = job.script) :
    setupOf org b x' again a' = (setupOf org b x job a).remembering a' := by
  simp only [setupOf, himages, hscript]
  rfl

/-- A dialog that is opened again for an installation, with its answers remembered, is accepted
with the same answers once the user has gone on as often as there were pages. -/
theorem session_again {c : Conversation} {a : Answers} (hc : conversation? i job = some c)
    (haccepted : c.session.verdict = .ok .accepted) (ha : c.session.dialog.chosenAnswers = .ok a)
    (hcoherent : Dialog.Coherent
      (setupOf i.organizer c.base c.toExtracted job c.memory.answers) c.session.dialog)
    (hrepeat : Dialog.Repeatable c.session.dialog)
    {j : Installer} {again : Job} {c' : Conversation} {n : Nat} (hj : j.organizer = i.organizer)
    (hm : j.memory = some ⟨false, a⟩) (harchive : again.archive = job.archive)
    (hscript : again.script = job.script) (hevents : again.events = List.replicate n (.act .next))
    (hc' : conversation? j again = some c') :
    c'.session.verdict =
        .ok (if c.session.dialog.stack.pages.length ≤ n then .accepted else .rejected) ∧
      (c'.session.verdict = .ok .accepted → c'.session.dialog.chosenAnswers = .ok a) := by
  obtain ⟨hbase, hsession⟩ := session_of_conversation? hc
  obtain ⟨hbase', hsession'⟩ := session_of_conversation? hc'
  have hb : c'.base = c.base := by
    rw [harchive, hbase] at hbase'
    exact (Option.some.inj hbase').symm
  have hanswers : c'.memory = ⟨false, a⟩ :=
    Option.some.inj ((memory_of_conversation? hc').symm.trans hm)
  have himages : imagesOf c'.toExtracted = imagesOf c.toExtracted := by
    obtain ⟨path, hpath, -, -, hisOf⟩ := exists_script_of_conversation? hc
    obtain ⟨path', hpath', -, -, hisOf'⟩ := exists_script_of_conversation? hc'
    rw [hb, hpath] at hpath'
    cases hpath'
    rw [harchive] at hisOf'
    exact hisOf.imagesOf_eq hisOf'
  rw [hj, hb, hanswers, hevents,
    setupOf_again i.organizer c.base c.memory.answers a himages hscript] at hsession'
  rw [hsession] at haccepted
  obtain ⟨hsound, hcomplete⟩ := Dialog.sound_of_accepted haccepted
  rw [← hsession] at hsound hcomplete
  obtain ⟨hverdict, hchosen⟩ := Dialog.exec_remembering hcoherent hsound hcomplete hrepeat ha
    again.name n
  rw [← hsession'] at hverdict hchosen
  refine ⟨hverdict, fun haccepted' => hchosen ?_⟩
  by_contra hlt
  rw [hverdict, if_neg hlt] at haccepted'
  cases haccepted'

/-- A mod that was installed is installed again with the same answers if the user does nothing
but go on.  The second dialog is accepted once all pages of the first were shown. -/
theorem install_again {c : Conversation} {t : Tree} {a : Answers}
    (hinstall : (i.install job).1.result = .ok (.tree t)) (hc : conversation? i job = some c)
    (ha : c.session.dialog.chosenAnswers = .ok a) (hn : Numberable a)
    (hcoherent : Dialog.Coherent
      (setupOf i.organizer c.base c.toExtracted job c.memory.answers) c.session.dialog)
    (hrepeat : Dialog.Repeatable c.session.dialog) (m : Mod) :
    ∃ m' m'' j, (i.install job).2.finishInstallation .success (some m) = (.ok (), some m') ∧
      (i.install job).2.start (some m') = (.ok (), j, some m'') ∧
      ∀ (again : Job) (n : Nat), again.Same job → again.events = List.replicate n (.act .next) →
        ∃ c', conversation? j again = some c' ∧
          c'.session.verdict =
            .ok (if c.session.dialog.stack.pages.length ≤ n then .accepted else .rejected) ∧
          (c'.session.verdict = .ok .accepted → c'.session.dialog.chosenAnswers = .ok a) ∧
          ∀ t', (j.install again).1.result = .ok (.tree t') →
            (j.install again).2.memory = some ⟨true, a⟩ := by
  obtain ⟨_, _, hc', haccepted, ha', hmemory⟩ := exists_conversation_of_result hinstall
  cases hc.symm.trans hc'
  cases ha.symm.trans ha'
  refine ⟨(keep a m).2, _, _, finishInstallation_of_memory hmemory hn m, start_keep hn _ m, ?_⟩
  intro again n hsame hevents
  have horganizer : { (i.install job).2 with memory := some ⟨false, a⟩ }.organizer = i.organizer :=
    (install_of_conversation? hc).1
  obtain ⟨c', hc'⟩ : ∃ c',
      conversation? { (i.install job).2 with memory := some ⟨false, a⟩ } again = some c' :=
    conversation?_again hc hsame rfl rfl rfl
  obtain ⟨hverdict, hchosen⟩ := session_again hc haccepted ha hcoherent hrepeat horganizer rfl
    hsame.archive hsame.script hevents hc'
  refine ⟨c', hc', hverdict, hchosen, ?_⟩
  intro t' ht'
  obtain ⟨_, b, hc'', haccepted', hb, hmemory'⟩ := exists_conversation_of_result ht'
  cases hc'.symm.trans hc''
  cases (hchosen haccepted').symm.trans hb
  exact hmemory'

namespace Again

def installer : Installer := { Untold.installer with memory := some ⟨false, ∅⟩ }

def answer (name : String) : Answer := ⟨name, "", none, none⟩

def leading (name next : String) : Answer := ⟨name, "", none, some next⟩

def done : Script.Node := ⟨"end", .done ⟨[], [], [], ∅, ∅⟩ none⟩

/-- Some parts, then a colour. -/
def script : Script where
  start := "parts"
  nodes := .ofList
    [("parts", ⟨"parts", .question
        ⟨.many, "Parts", [answer "x", answer "y", answer "z"], [0], some "colour"⟩⟩),
     ("colour", ⟨"colour", .question
        ⟨.one, "Colour", [leading "red" "shade", answer "blue"], [0], some "end"⟩⟩),
     ("shade", ⟨"shade", .question ⟨.one, "Shade", [answer "dark"], [0], some "end"⟩⟩),
     ("end", done)]

/-- Other parts than the proposed one are chosen, and the other colour. -/
def choosing : Job := Untold.jobOf script
  [.setChecked 0 false, .setChecked 1 true, .setChecked 2 true, .next, .setCurrent 1, .next, .next]

def answers : Answers := ⟨[("Parts", ["y", "z"]), ("Colour", ["blue"])], by decide⟩

def talk : Conversation := (conversation? installer choosing).get (by decide +kernel)

end Again

open Again in
theorem install_again_choosing :
    (installer.install choosing).1.result = .ok (.tree .nil) ∧
    conversation? installer choosing = some talk ∧
    talk.session.dialog.chosenAnswers = .ok answers ∧ Numberable answers ∧
    Dialog.Coherent
      (setupOf installer.organizer talk.base talk.toExtracted choosing talk.memory.answers)
      talk.session.dialog ∧
    Dialog.Repeatable talk.session.dialog ∧
    ∃ m' m'' j,
      (installer.install choosing).2.finishInstallation .success (some (.ofSettings ∅)) =
        (.ok (), some m') ∧
      (installer.install choosing).2.start (some m') = (.ok (), j, some m'') ∧
      ∀ (again : Job) (n : Nat), again.Same choosing →
        again.events = List.replicate n (.act .next) →
        ∃ c', conversation? j again = some c' ∧
          c'.session.verdict =
            .ok (if talk.session.dialog.stack.pages.length ≤ n then .accepted else .rejected) ∧
          (c'.session.verdict = .ok .accepted →
            c'.session.dialog.chosenAnswers = .ok answers) ∧
          ∀ t', (j.install again).1.result = .ok (.tree t') →
            (j.install again).2.memory = some ⟨true, answers⟩ := by
  have hinstall : (installer.install choosing).1.result = .ok (.tree .nil) := by decide +kernel
  have htalk : conversation? installer choosing = some talk := (Option.some_get _).symm
  have hanswers : talk.session.dialog.chosenAnswers = .ok answers := by decide +kernel
  have hnumberable : Numberable answers := ⟨by decide +kernel, by decide +kernel⟩
  have hcoherent : Dialog.Coherent
      (setupOf installer.organizer talk.base talk.toExtracted choosing talk.memory.answers)
      talk.session.dialog := by
    rw [(session_of_conversation? htalk).2]
    exact Dialog.coherent_exec (by decide +kernel) (by decide +kernel) (by decide +kernel)
  have hrepeat : Dialog.Repeatable talk.session.dialog :=
    ⟨⟨by decide +kernel, by decide +kernel⟩, by decide +kernel, by decide +kernel⟩
  exact ⟨hinstall, htalk, hanswers, hnumberable, hcoherent, hrepeat,
    install_again hinstall htalk hanswers hnumberable hcoherent hrepeat _⟩

/-! ### Answers that are not given again

The questions are told apart by their descriptions, and their answers by their names.  Yet a mod
that is installed again has other answers: where nothing was chosen although something is
proposed, where a page was shown again further up in the stack, where a page was asked what it
cannot show, and where a page that only shows its answers has a check mark from before. -/

namespace Again

/-- The answers of what was installed. -/
def made? (i : Installer) : Option (List (String × List String)) :=
  i.memory.bind fun m => if m.used then some m.answers.entries else none

/-- The answers with which a mod is installed, and those with which it is installed again if the
user goes on a number of times. -/
def twice? (script : Script) (actions : List Dialog.Action) (n : Nat) :
    Option (List (String × List String) × List (String × List String)) := do
  let i := (installer.install (Untold.jobOf script actions)).2
  let m ← (i.finishInstallation .success (some (.ofSettings ∅))).2
  let j := ((i.start (some m)).2.1.install (Untold.jobOf script (List.replicate n .next))).2
  return (← made? i, ← made? j)

/-- That a mod whose questions and answers are distinct is first installed with some answers, and
then with others. -/
def Differs (script : Script) (actions : List Dialog.Action) (n : Nat)
    (first second : List (String × List String)) : Prop :=
  (∃ c ∈ conversation? installer (Untold.jobOf script actions),
      Dialog.Distinct c.session.dialog) ∧
    twice? script actions n = some (first, second) ∧ first ≠ second

instance (script : Script) (actions : List Dialog.Action) (n : Nat)
    (first second : List (String × List String)) :
    Decidable (Differs script actions n first second) :=
  inferInstanceAs (Decidable (_ ∧ _ ∧ _))

/-- One question, with a proposed answer. -/
def proposing : Script where
  start := "a"
  nodes := .ofList
    [("a", ⟨"a", .question ⟨.many, "A", [answer "x", answer "y"], [0], some "end"⟩⟩),
     ("end", done)]

/-- The second question leads back to the first. -/
def looping : Script where
  start := "a"
  nodes := .ofList
    [("a", ⟨"a", .question ⟨.one, "A", [leading "x" "b", answer "y"], [0], some "end"⟩⟩),
     ("b", ⟨"b", .question ⟨.one, "B", [answer "z"], [0], some "a"⟩⟩),
     ("end", done)]

/-- A question whose answers are only shown shares the page of one that takes any number. -/
def showing : Script where
  start := "a"
  nodes := .ofList
    [("a", ⟨"a", .question
        ⟨.one, "A", [leading "many" "b", leading "shown" "c"], [0], some "end"⟩⟩),
     ("b", ⟨"k", .question ⟨.many, "B", [answer "x"], [0], some "end"⟩⟩),
     ("c", ⟨"k", .question ⟨.display, "C", [answer "z"], [], some "end"⟩⟩),
     ("end", done)]

end Again

open Again in
theorem answers_differ_again :
    Differs proposing [.setChecked 0 false, .next, .next] 2 [("A", [])] [("A", ["x"])] ∧
    Differs looping [.next, .next, .setCurrent 1, .next, .next] 2
      [("B", ["z"]), ("A", ["y"])] [("A", ["y"])] ∧
    Differs Dialog.SharedKey.script [.next, .next, .setCurrent 1, .next, .next] 3
      [("third", ["x"]), ("second", ["r"])] [("first", ["x"]), ("second", ["r"])] ∧
    Differs showing [.next, .back, .setCurrent 1, .next, .next, .next] 3
      [("A", ["shown"]), ("C", ["z"])] [("A", ["shown"]), ("C", [])] := by
  decide +kernel

end ModWizard.Installer
