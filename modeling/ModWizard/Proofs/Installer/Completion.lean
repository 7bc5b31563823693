import ModWizard.Proofs.Dialog.Ending
import ModWizard.Proofs.Installer.Archive
import ModWizard.Proofs.Installer.Session
import ModWizard.Proofs.Installer.TweakFiles

/-!
# Completing an accepted installation

Once a dialog is accepted, what can still fail is that the plugins are renamed, that the tweak files
are written and that the answers are told.  The tweak files are written to the tree that the
sub-packages were merged into.  Neither the archive nor the script sees to it that what is found
there under the name of a tweak file is a file that was extracted (`install_completes_iff`).
-/

namespace ModWizard.Dialog

open Script (Stop)

variable {setup : Setup} {d : Dialog}

/-! ## The names of tweak files -/

theorem CompletePage.notMem_slashed (name : String) : '\\' ∉ (slashed name).toList := by
  rw [slashed, String.toList_ofList, List.mem_map]
  rintro ⟨c, -, hc⟩
  split at hc
  next => cases hc
  next hne => exact hne hc

/-- That no tweak file on a page at the end has a backslash in its name. -/
def Slashed (d : Dialog) : Prop :=
  ∀ p, Page.complete p ∈ d.stack.pages → ∀ f ∈ p.files, '\\' ∉ f.name.toList

theorem notMem_of_shows {p : CompletePage} {s : Stop} (h : Shows setup d (.complete p) s) :
    ∀ f ∈ p.files, '\\' ∉ f.name.toList := by
  obtain ⟨k, o, next, row, -, rfl⟩ := h
  intro f hf
  rw [CompletePage.files_setRow, CompletePage.create, CompletePage.files_setRow, List.mem_map] at hf
  obtain ⟨x, -, rfl⟩ := hf
  exact CompletePage.notMem_slashed x.1

/-- No tweak file of a dialog that a run comes to has a backslash in its name. -/
theorem Reachable.slashed (h : Reachable setup d) : Slashed d := by
  intro p hp
  obtain ⟨_, _, _, _, -, hshows⟩ := h.concluded p hp
  exact notMem_of_shows hshows

end ModWizard.Dialog

namespace ModWizard.Installer

variable {i : Installer} {job : Job} {t t' : Tree} {l l' : Log}

/-! ## The tree that tweak files are written to -/

/-- The tree of the sub-packages with the plugins renamed, if they can be. -/
def merged? (base : Tree) (plan : Plan) : Option Tree :=
  ((mergePackages plan.packages base .nil >>= renameAll plan.renames.entries).run.run
    ⟨[], [], []⟩).1.toOption

theorem tidy_of_contentAt? {path : String} {inner : Tree} (ht : t.Tidy)
    (h : contentAt? t path = some inner) : inner.Tidy := by
  unfold contentAt? at h
  split at h
  next => cases h
  next he =>
    cases h
    exact ht.of_findFrom? he
  next => cases h

theorem tidy_of_mergePackages {ns : List String} {base : Tree} (hb : base.Tidy) (ht : t.Tidy)
    (h : (mergePackages ns base t).run.run l = (.ok t', l')) : t'.Tidy := by
  induction ns generalizing base t l with
  | nil =>
    cases h
    exact ht
  | cons n ns ih =>
    rw [mergePackages] at h
    split at h
    next inner hi => exact ih (hb.emptyAt _) (ht.merge (tidy_of_contentAt? hb hi)) h
    next =>
      obtain ⟨-, k, -, h⟩ := Work.run_bind_eq_ok.mp h
      exact ih hb ht h

theorem tidy_of_renameAll {rs : List (String × String)} (ht : t.Tidy)
    (h : (renameAll rs t).run.run l = (.ok t', l')) : t'.Tidy := by
  induction rs generalizing t l with
  | nil =>
    cases h
    exact ht
  | cons r rs ih =>
    rw [renameAll] at h
    split at h
    next e he =>
      obtain ⟨u, k, hu, h⟩ := Work.run_bind_eq_ok.mp h
      refine ih ?_ h
      have hfound := (Option.filter_eq_some_iff.mp he).1
      rcases hm : t.move (Tree.pathNames r.1) e r.2 with f | v
      · rw [hm] at hu
        cases hu
      · rw [hm] at hu
        cases hu
        exact ht.move (ht.of_findFrom? hfound) hm
    next =>
      obtain ⟨-, k, -, h⟩ := Work.run_bind_eq_ok.mp h
      exact ih ht h

theorem Work.toOption_eq_some {α : Type} {x : Work α} {a : α} :
    (x.run.run l).1.toOption = some a ↔ ∃ l', x.run.run l = (.ok a, l') := by
  rcases x.run.run l with ⟨f | b, k⟩
  · exact iff_of_false (fun h => by cases h) fun ⟨_, h⟩ => by cases h
  · constructor
    · rintro ⟨⟩
      exact ⟨k, rfl⟩
    · rintro ⟨_, ⟨⟩⟩
      rfl

theorem tidy_of_merged? {base : Tree} {plan : Plan} (hb : base.Tidy)
    (h : merged? base plan = some t) : t.Tidy := by
  obtain ⟨l, h⟩ := Work.toOption_eq_some.mp h
  obtain ⟨u, k, hpackages, hrenames⟩ := Work.run_bind_eq_ok.mp h
  exact tidy_of_renameAll (tidy_of_mergePackages hb Tree.tidy_nil hpackages) hrenames

/-- The mod is assembled exactly if the tweak files can be written to the merged tree. -/
theorem exists_assemble_iff {x : Extracted} {base : Tree} {plan : Plan} (hb : base.Tidy)
    (hname : ∀ f ∈ plan.tweaks.entries, '\\' ∉ f.1.toList) :
    (∃ t, ((assemble x base plan).run.run ⟨[], [], []⟩).1.toOption = some t) ↔
      ∃ t, merged? base plan = some t ∧ (∀ f ∈ plan.tweaks.entries, Fits x t f) ∧
        plan.tweaks.entries.Pairwise fun f g => ¬ Blocks t f.1 g.1 := by
  have hassemble : assemble x base plan =
      (mergePackages plan.packages base .nil >>= renameAll plan.renames.entries) >>=
        writeTweaks x plan.tweaks.entries := (bind_assoc _ _ _).symm
  simp only [hassemble, Work.toOption_eq_some, Work.run_bind_eq_ok (x := _ >>= _), merged?]
  constructor
  · rintro ⟨t, l', u, k, hmerged, hwritten⟩
    have hu := tidy_of_merged? hb (Work.toOption_eq_some.mpr ⟨k, hmerged⟩)
    exact ⟨u, ⟨k, hmerged⟩, (exists_writeTweaks_iff hu hname k).mp ⟨t, l', hwritten⟩⟩
  · rintro ⟨u, ⟨k, hmerged⟩, hfits⟩
    have hu := tidy_of_merged? hb (Work.toOption_eq_some.mpr ⟨k, hmerged⟩)
    obtain ⟨t, l', hwritten⟩ := (exists_writeTweaks_iff hu hname k).mpr hfits
    exact ⟨t, l', u, k, hmerged, hwritten⟩

/-! ## Accepted installations -/

/-- An accepted dialog has a plan, whose tweak files have no backslashes in their names. -/
theorem exists_planOf {setup : Dialog.Setup} {g : Dialog.Guess} {es : List Dialog.Event}
    (h : (Dialog.exec setup g es).verdict = .ok .accepted) :
    ∃ plan, planOf (Dialog.exec setup g es).dialog = .ok plan ∧
      ∀ f ∈ plan.tweaks.entries, '\\' ∉ f.1.toList := by
  obtain ⟨d, hstart, hv⟩ := Dialog.verdict_exec_eq_accepted_iff.mp h
  obtain ⟨hd, htop⟩ := (Dialog.always_sound hstart es).last
  obtain ⟨p, hp⟩ := htop hv
  rw [Dialog.exec_of_start hstart]
  refine ⟨⟨p.checkedPackages, p.renames, p.tweaks⟩, ?_, fun f hf => ?_⟩
  · simp [planOf, Dialog.completePage, Dialog.topComplete?, hp]
  · have hkey : f.1 ∈ p.tweaks.keys := List.mem_map_of_mem hf
    obtain ⟨x, hx, he⟩ := List.mem_map.mp (Table.mem_keys_ofList hkey)
    obtain ⟨y, hy, rfl⟩ := List.mem_map.mp hx
    rw [← he]
    have hslashed : Dialog.Slashed (Dialog.play setup d es).2 :=
      Dialog.Reachable.slashed ⟨g, d, es, hstart, rfl⟩
    exact hslashed p (hd.mem_of_top? hp) y hy

/-! ### Some tweak files -/

namespace Shipping

/-- A tweak file of a name. -/
def tweakFile (name : String) : String × List Tweak := (name, [.edit ⟨"set", "a", .int 2, none⟩])

/-- A script that ends at once, with a sub-package and tweak files of some names. -/
def script (names : List String) : Script where
  start := "e"
  nodes := .ofList [("e", ⟨"e", .done ⟨["P"], [], [], ∅, .ofList (names.map tweakFile)⟩ none⟩)]

/-- The installation of a sub-package that holds a file with an ending that is extracted and one
without. -/
def jobOf (names : List String) : Job where
  name := ⟨"Mod", ["Mod"]⟩
  archive := .file "wizard.txt" none
    (.folder "P" (.file "a.esp" none (.file "s.ini" none (.file "read.txt" none .nil))) .nil)
  contents := .ofList [("P/s.ini", "set a to 1".toByteArray)]
  missing := 0
  script := script names
  events := [.act .next]

def installer : Installer where
  organizer := ⟨.plain 9, "Game", "1.0", "1.0", none, some (.ofList [("P", .valid)]), [], [], ∅, ∅⟩
  memory := some ⟨false, ∅⟩
  disk := .bare

/-- Tweaks for the extracted file, for a new one, and for one in the folder of tweak files. -/
def names : List String := ["S.ini", "b.ini", "ini tweaks\\c.ini"]

def talk : Conversation := (conversation? installer (jobOf names)).get (by decide +kernel)

def plan : Plan := ⟨["P"], ∅, .ofList (["S.ini", "b.ini", "ini tweaks/c.ini"].map tweakFile)⟩

def tree : Tree := (merged? talk.base.tree plan).get (by decide +kernel)

end Shipping

/-- An accepted installation gives a tree exactly if its answers can be told, its plugins can be
renamed, each of its tweak files fits the merged tree and none blocks a later one. -/
theorem install_completes_iff (hjob : job.archive.Tidy) {c : Conversation}
    (hc : conversation? i job = some c) (hv : c.session.verdict = .ok .accepted) :
    ∃ plan, planOf c.session.dialog = .ok plan ∧
      ((∃ t, (i.install job).1.result = .ok (.tree t)) ↔
        (∃ a, c.session.dialog.chosenAnswers = .ok a) ∧
        ∃ t, merged? c.base.tree plan = some t ∧
          (∀ f ∈ plan.tweaks.entries, Fits c.toExtracted t f) ∧
          plan.tweaks.entries.Pairwise fun f g => ¬ Blocks t f.1 g.1) := by
  obtain ⟨hbase, hsession⟩ := session_of_conversation? hc
  have htidy : c.base.tree.Tidy := tidy_of_base? hjob hbase
  obtain ⟨plan, hplan, hname⟩ := exists_planOf (hsession ▸ hv)
  rw [← hsession] at hplan
  refine ⟨plan, hplan, ?_⟩
  have htree : c.tree? =
      ((assemble c.toExtracted c.base.tree plan).run.run ⟨[], [], []⟩).1.toOption := by
    simp only [Conversation.tree?, hv, assembled?, hplan]
  rw [← exists_assemble_iff htidy hname, ← htree]
  simp only [(install_eq i job).2, hc, Option.some.injEq, exists_eq_left', exists_and_right]
  exact and_comm

open Shipping in
theorem install_completes_names :
    (jobOf names).archive.Tidy ∧ conversation? installer (jobOf names) = some talk ∧
      talk.session.verdict = .ok .accepted ∧ plan.tweaks.entries.length = 3 ∧
      planOf talk.session.dialog = .ok plan ∧
      ∃ t, (installer.install (jobOf names)).1.result = .ok (.tree t) := by
  have hjob : (jobOf names).archive.Tidy := by decide +kernel
  have htalk : conversation? installer (jobOf names) = some talk := (Option.some_get _).symm
  have hv : talk.session.verdict = .ok .accepted := by decide +kernel
  have hplan : planOf talk.session.dialog = .ok plan := by decide +kernel
  have htree : merged? talk.base.tree plan = some tree := (Option.some_get _).symm
  have hfits : (∀ f ∈ plan.tweaks.entries, Fits talk.toExtracted tree f) ∧
      plan.tweaks.entries.Pairwise fun f g => ¬ Blocks tree f.1 g.1 := by decide +kernel
  have htold : talk.session.dialog.chosenAnswers = .ok ∅ := by decide +kernel
  obtain ⟨plan', hplan', hiff⟩ := install_completes_iff hjob htalk hv
  rw [hplan] at hplan'
  cases hplan'
  exact ⟨hjob, htalk, hv, by decide +kernel, hplan, hiff.mpr ⟨⟨∅, htold⟩, tree, htree, hfits⟩⟩

open Shipping in
/-- A tweak file for a file that was not extracted, and one for a file that another one has made:
the user has accepted, and the installation fails. -/
theorem install_not_extracted :
    ((conversation? installer (jobOf ["read.txt"])).map (·.session.verdict) = some (.ok .accepted) ∧
      (installer.install (jobOf ["read.txt"])).1.result = .error .notExtracted) ∧
    ((conversation? installer (jobOf ["a.ini", "INI Tweaks/a.ini"])).map (·.session.verdict) =
        some (.ok .accepted) ∧
      (installer.install (jobOf ["a.ini", "INI Tweaks/a.ini"])).1.result =
        .error .notExtracted) := by
  decide +kernel

end ModWizard.Installer
