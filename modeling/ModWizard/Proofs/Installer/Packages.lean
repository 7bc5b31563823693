import ModWizard.Proofs.Installer.Completion
import ModWizard.Proofs.Installer.Handover
import ModWizard.Proofs.Package

/-!
# The chosen sub-packages

The sub-packages that are merged are those of the archive, in its order, that the outcome of the
script has chosen; nothing that is done on the page at the end alters them
(`query_packages_of_touch`).  Their names are found in the base, each as a folder.  Yet a folder
counts as missing if it is empty, and such a folder may well be a sub-package
(`packages_found_iff`).
-/

namespace ModWizard

namespace Dialog

variable {setup : Setup} {d d' : Dialog} {p : CompletePage}

theorem stopAfter?_of_complete (hp : d.top? = some (.complete p)) : d.stopAfter? setup = none := by
  rw [stopAfter?, hp]
  rfl

theorem query_packages_congr (h : d'.top? = d.top?) : d'.query .packages = d.query .packages := by
  simp only [query, completePage, topComplete?, h]

/-- On the page at the end the chosen sub-packages stay as they are, until the page is left. -/
theorem query_packages_of_touch (hp : d.top? = some (.complete p)) (h : Touch setup d d') :
    d'.query .packages = d.query .packages ∨ d' = d.back := by
  cases h with
  | aside h => exact .inl (query_packages_congr h.top?)
  | current row h => exact .inl (query_packages_congr (h.top?.trans (top?_setCurrentRow row)))
  | check row on =>
    refine .inl (query_packages_congr ?_)
    unfold setCheckedRow
    split <;> rfl
  | tweak row =>
    have htop : (d.setTweakRow row).top? = some (.complete (p.setRow row)) := by
      rw [top?, setTweakRow, Stack.top?_modifyTop, ← top?, hp]
      rfl
    refine .inl ?_
    simp only [query, completePage, topComplete?, htop, hp, Except.map,
      CompletePage.checkedPackages_setRow]
  | back => exact .inr rfl

theorem query_packages_act (hp : d.top? = some (.complete p)) (a : Action) :
    (d.act setup a).1.query .packages = d.query .packages ∨ (d.act setup a).1 = d.back := by
  refine query_packages_of_touch hp (act_of_comesTo_eq_none ?_)
  unfold comesTo
  split
  next => rw [stopAfter?_of_complete hp, ite_self]
  next row => rw [stopAfter?_of_complete ((top?_setCurrentRow row).trans hp), ite_self]
  next => rfl

end Dialog

namespace Package

variable {org : Organizer} {above : List String} {t : Tree}

theorem map_key_all_sublist (org : Organizer) (above : List String) (t : Tree) :
    ((all org above t).map fun p => Text.lower p.name).Sublist (t.entries.map Entry.key) := by
  unfold all
  induction t.entries with
  | nil => exact List.Sublist.refl _
  | cons e es ih =>
    rw [List.filterMap_cons]
    cases e with
    | file n o => exact ih.cons _
    | folder n inner =>
      simp only [recognise?]
      split
      next => exact ih.cons _
      next p hp =>
        split at hp
        next =>
          cases hp
          exact ih.cons_cons _
        next => cases hp

/-- A sub-package is a folder of its name. -/
theorem exists_folder_of_mem_all {n : String} (h : n ∈ (all org above t).map (·.name)) :
    ∃ inner, Entry.folder n inner ∈ t.entries := by
  obtain ⟨p, hp, rfl⟩ := List.mem_map.mp h
  obtain ⟨inner, hinner, -⟩ := folder_of_mem_all hp
  exact ⟨inner, hinner⟩

end Package

namespace Installer

open Tree (Whole)

variable {i : Installer} {job : Job} {base t : Tree} {l : Log}

/-! ### Merged sub-packages -/

theorem contentAt?_congr {u : Tree} {n : String} (h : u.find? n = t.find? n) :
    contentAt? u n = contentAt? t n := by
  simp only [contentAt?, h]

/-- A folder has content unless it is empty. -/
theorem contentAt?_of_folder {n : String} {inner : Tree} (h : t.find? n = some (.folder n inner)) :
    contentAt? t n = if inner = .nil then none else some inner := by
  rw [contentAt?, h]
  cases inner <;> rfl

/-- What is said of a sub-package without content. -/
def notFound (n : String) : String := "SubPackage " ++ n ++ " not found in the archive."

/-- The sub-packages of some names, each merged into those before it. -/
def mergedTree (base : Tree) (packages : List String) : Tree :=
  (packages.filterMap (contentAt? base)).foldl Tree.merge .nil

/-- Of different names, each sub-package is found as the archive has it, although those before it
have been emptied. -/
theorem mergePackages_eq {ns : List String} (hb : base.Tidy) (hw : ∀ n ∈ ns, Whole n)
    (hd : (ns.map Text.lower).Nodup) :
    (mergePackages ns base t).run.run l =
      (.ok ((ns.filterMap (contentAt? base)).foldl Tree.merge t),
        { l with
          warnings := l.warnings ++
            (ns.filter fun n => (contentAt? base n).isNone).map notFound }) := by
  induction ns generalizing base t l with
  | nil => simp [mergePackages]; rfl
  | cons n ns ih =>
    rw [List.forall_mem_cons] at hw
    rw [List.map_cons, List.nodup_cons] at hd
    rw [mergePackages]
    cases hn : contentAt? base n with
    | some inner =>
      have hrest : ∀ m ∈ ns, contentAt? (base.emptyAt (Tree.pathNames n)) m = contentAt? base m :=
        fun m hm => contentAt?_congr <| by
          have hne : Text.lower n ≠ Text.lower m := fun he =>
            hd.1 (List.mem_map.mpr ⟨m, hm, he.symm⟩)
          rw [Tree.find?_of_whole (hw.2 m hm), Tree.find?_of_whole (hw.2 m hm),
            Tree.pathNames_of_whole hw.1,
            Tree.entryAt?_emptyAt_of_ne hb hne]
      have hfilter : (ns.filter fun m => (contentAt? (base.emptyAt (Tree.pathNames n)) m).isNone) =
          ns.filter fun m => (contentAt? base m).isNone :=
        List.filter_congr fun m hm => by rw [hrest m hm]
      simp only [ih (hb.emptyAt _) hw.2 hd.2, List.filterMap_congr hrest, hfilter,
        List.filterMap_cons, hn, List.foldl_cons, List.filter_cons, Option.isNone_some,
        Bool.false_eq_true, if_false]
    | none =>
      refine Work.run_bind_eq_ok.mpr ⟨(), _, run_warning _ l, ?_⟩
      simp only [ih hb hw.2 hd.2, List.filterMap_cons, hn, List.filter_cons, Option.isNone_none,
        if_true, List.map_cons, notFound, List.append_assoc, List.singleton_append]

/-! ### Selections -/

/-- That a dialog has chosen the sub-packages of a plan for an outcome, from those of a base. -/
structure Selects (org : Organizer) (b : Base) (o : Outcome) (d : Dialog) (plan : Plan) : Prop where
  chosen : plan.packages =
    ((Package.all org b.above b.tree).map (·.name)).filter o.packages.contains
  told : d.query .packages = .ok (.packages plan.packages)
  nodup : plan.packages.Nodup
  folder : ∀ n ∈ plan.packages, ∃ inner, b.tree.find? n = some (.folder n inner)

variable {org : Organizer} {b : Base} {packages : List String}

theorem nodup_key_of_sublist (hb : b.tree.Tidy)
    (h : packages.Sublist ((Package.all org b.above b.tree).map (·.name))) :
    (packages.map Text.lower).Nodup := by
  have hall := Package.map_key_all_sublist org b.above b.tree
  have hsub := h.map Text.lower
  rw [List.map_map] at hsub
  exact (hsub.trans hall).nodup (Tree.tidy_iff.mp hb).1

theorem whole_of_sublist (hn : b.tree.Named Whole)
    (h : packages.Sublist ((Package.all org b.above b.tree).map (·.name))) :
    ∀ n ∈ packages, Whole n := fun n hmem => by
  obtain ⟨inner, he⟩ := Package.exists_folder_of_mem_all (h.subset hmem)
  exact hn.of_mem he

theorem find?_of_sublist (hb : b.tree.Tidy) (hn : b.tree.Named Whole)
    (h : packages.Sublist ((Package.all org b.above b.tree).map (·.name))) :
    ∀ n ∈ packages, ∃ inner, b.tree.find? n = some (.folder n inner) := fun n hmem => by
  obtain ⟨inner, he⟩ := Package.exists_folder_of_mem_all (h.subset hmem)
  exact ⟨inner, (Tree.find?_of_whole (hn.of_mem he) b.tree).trans (hb.entryAt?_of_mem he)⟩

/-- An accepted dialog ends on a page for an outcome of the script, with the plan of that
outcome. -/
theorem exists_outcome_of_accepted {setup : Dialog.Setup} {g : Dialog.Guess}
    {es : List Dialog.Event}
    {d : Dialog} (hd : (Dialog.exec setup g es).dialog = d)
    (hv : (Dialog.exec setup g es).verdict = .ok .accepted) :
    ∃ p source k o next, d.top? = some (.complete p) ∧
      Dialog.stopFrom? setup source = some (.done k o next) ∧
      Dialog.Shows setup d (.complete p) (.done k o next) := by
  obtain ⟨d₀, hstart, hv⟩ := Dialog.verdict_exec_eq_accepted_iff.mp hv
  obtain ⟨p, hp⟩ := (Dialog.always_sound hstart es).last.2 hv
  rw [Dialog.exec_of_start hstart] at hd
  subst hd
  obtain ⟨source, k, o, next, hstop, hshows⟩ :=
    Dialog.Reachable.shows_outcome ⟨g, d₀, es, hstart, rfl⟩ hp
  exact ⟨p, source, k, o, next, hp, hstop, hshows⟩

/-- An accepted installation has a plan with sub-packages of the archive, in its order. -/
theorem exists_sublist_of_accepted {c : Conversation} (hc : conversation? i job = some c)
    (hv : c.session.verdict = .ok .accepted) :
    ∃ plan, planOf c.session.dialog = .ok plan ∧
      plan.packages.Sublist ((Package.all i.organizer c.base.above c.base.tree).map (·.name)) := by
  obtain ⟨-, hsession⟩ := session_of_conversation? hc
  obtain ⟨p, source, k, o, next, hp, -, hshows⟩ :=
    exists_outcome_of_accepted (congrArg Dialog.Session.dialog hsession).symm (hsession ▸ hv)
  exact ⟨_, planOf_of_shows hp hshows, List.filter_sublist⟩

namespace Hollow

/-- A script that ends at once and chooses some sub-packages. -/
def script (packages : List String) : Script where
  start := "e"
  nodes := .ofList [("e", ⟨"e", .done ⟨packages, [], [], ∅, ∅⟩ none⟩)]

/-- The installation of some sub-packages of an archive in which the folder of documents has some
content. -/
def jobOf (packages : List String) (docs : Tree) : Job where
  name := ⟨"Mod", ["Mod"]⟩
  archive := .folder "Pack" (.file "wizard.txt" none (.folder "B" (.file "b.esp" none .nil)
    (.folder "01 Docs" docs (.folder "A" (.file "a.esp" none .nil) .nil)))) .nil
  contents := ∅
  missing := 0
  script := script packages
  events := [.act (.showTweaks 0), .act .next]

def installer : Installer where
  organizer :=
    ⟨.plain 9, "Game", "1.0", "1.0", none,
      some (.ofList [("A", .valid), ("B", .valid)]), [], [], ∅, ∅⟩
  memory := some ⟨false, ∅⟩
  disk := .bare

def docs : Tree := .file "read.txt" none .nil

def talk : Conversation :=
  (conversation? installer (jobOf ["A", "01 Docs", "C"] docs)).get (by decide +kernel)

end Hollow

/-- The sub-packages that are merged are those of the archive that the outcome has chosen, in the
order of the archive and each once.  No action on the page at the end but that of leaving it alters
them, and each is found as a folder.  None of them counts as missing exactly if none of these
folders is empty. -/
theorem packages_found_iff (ht : job.archive.Tidy) (hn : job.archive.Named Whole) {c : Conversation}
    (hc : conversation? i job = some c) (hv : c.session.verdict = .ok .accepted) :
    let setup := setupOf i.organizer c.base c.toExtracted job c.memory.answers
    ∃ p source k o next plan, c.session.dialog.top? = some (.complete p) ∧
      Dialog.stopFrom? setup source = some (.done k o next) ∧
      Dialog.Shows setup c.session.dialog (.complete p) (.done k o next) ∧
      planOf c.session.dialog = .ok plan ∧
      Selects i.organizer c.base o c.session.dialog plan ∧
      (∀ (d : Dialog) p a, d.top? = some (.complete p) →
        (d.act setup a).1.query .packages = d.query .packages ∨ (d.act setup a).1 = d.back) ∧
      ∃ l, (mergePackages plan.packages c.base.tree .nil).run.run ⟨[], [], []⟩ =
          (.ok (mergedTree c.base.tree plan.packages), l) ∧
        (l.warnings = [] ↔
          ∀ n ∈ plan.packages, ∃ inner, c.base.tree.find? n = some (.folder n inner) ∧
            inner ≠ .nil) := by
  intro setup
  obtain ⟨hbase, hsession⟩ := session_of_conversation? hc
  have hb : c.base.tree.Tidy := tidy_of_base? ht hbase
  have hw : c.base.tree.Named Whole := (named_of_base? hn hbase).2
  obtain ⟨p, source, k, o, next, hp, hstop, hshows⟩ :=
    exists_outcome_of_accepted (congrArg Dialog.Session.dialog hsession).symm (hsession ▸ hv)
  have hsub : (((Package.all i.organizer c.base.above c.base.tree).map (·.name)).filter
      o.packages.contains).Sublist
        ((Package.all i.organizer c.base.above c.base.tree).map (·.name)) :=
    List.filter_sublist
  have hfolder := find?_of_sublist hb hw hsub
  refine ⟨p, source, k, o, next, _, hp, hstop, hshows, planOf_of_shows hp hshows, ?_,
    fun d p a hp => Dialog.query_packages_act hp a, _,
    mergePackages_eq hb (whole_of_sublist hw hsub) (nodup_key_of_sublist hb hsub), ?_⟩
  · exact ⟨rfl, (Dialog.delivers_of_shows hp hshows).packages,
      (nodup_key_of_sublist hb hsub).of_map _, hfolder⟩
  · rw [List.nil_append, List.map_eq_nil_iff, List.filter_eq_nil_iff]
    refine forall_congr' fun n => forall_congr' fun hmem => ?_
    obtain ⟨inner, hinner⟩ := hfolder n hmem
    rw [contentAt?_of_folder hinner, hinner]
    by_cases hnil : inner = .nil <;> simp [hnil]

open Hollow in
theorem packages_found_docs :
    (jobOf ["A", "01 Docs", "C"] docs).archive.Tidy ∧
      conversation? installer (jobOf ["A", "01 Docs", "C"] docs) = some talk ∧
      talk.session.verdict = .ok .accepted ∧
      ∃ plan, planOf talk.session.dialog = .ok plan ∧ plan.packages = ["01 Docs", "A"] ∧
        ∃ t l, (mergePackages plan.packages talk.base.tree .nil).run.run ⟨[], [], []⟩ = (.ok t, l) ∧
          l.warnings = [] := by
  have ht : (jobOf ["A", "01 Docs", "C"] docs).archive.Tidy := by decide +kernel
  have hn : (jobOf ["A", "01 Docs", "C"] docs).archive.Named Whole := by decide +kernel
  have hc : conversation? installer (jobOf ["A", "01 Docs", "C"] docs) = some talk :=
    (Option.some_get _).symm
  have hv : talk.session.verdict = .ok .accepted := by decide +kernel
  have hplan : planOf talk.session.dialog = .ok ⟨["01 Docs", "A"], ∅, ∅⟩ := by decide +kernel
  obtain ⟨_, _, _, _, _, plan, -, -, -, hplan', -, -, l, hrun, hiff⟩ :=
    packages_found_iff ht hn hc hv
  rw [hplan] at hplan'
  cases hplan'
  refine ⟨ht, hc, hv, _, hplan, rfl, _, l, hrun, hiff.mpr (List.forall_mem_cons.mpr ⟨?_, ?_⟩)⟩
  · exact ⟨.file "read.txt" (some 2) .nil, by decide +kernel, by decide⟩
  · rw [List.forall_mem_singleton]
    exact ⟨.file "a.esp" (some 3) .nil, by decide +kernel, by decide⟩

open Hollow in
/-- An empty folder is recognised as a sub-package and chosen, but then it counts as missing. -/
theorem packages_not_found_empty :
    (conversation? installer (jobOf ["01 Docs"] .nil)).map (·.session.verdict) =
      some (.ok .accepted) ∧
      (conversation? installer (jobOf ["01 Docs"] .nil)).map
          (fun c => c.base.tree.find? "01 Docs") =
        some (some (.folder "01 Docs" .nil)) ∧
      (installer.install (jobOf ["01 Docs"] .nil)).1.log.warnings =
        ["SubPackage 01 Docs not found in the archive."] := by
  decide +kernel

end Installer

end ModWizard
