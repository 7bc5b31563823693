import ModWizard.Proofs.Dialog.Picture
import ModWizard.Proofs.Installer.Assembly
import ModWizard.Proofs.Installer.Provenance
import ModWizard.Proofs.Installer.Support

/-!
# Archives wrapped in folders

An archive may be wrapped in folders that hold nothing else, and its base is found all the same
(`base?_mark_wrap`), with the same numbers.  Sub-packages and scripts are looked for from the base,
tweak files by their place among the extracted ones, so the same comes of both (`install_alike`).
Pictures do not: the script names an image from the base, and it is looked up by its path in the
whole archive (`file_of_ofImage`).  In a wrapped archive the same image is another file or none.
-/

namespace ModWizard

open Tree (Named Proper pathText)

/-- The page at the end shows the names of sub-packages and plugins only. -/
theorem Dialog.CompletePage.create_congr {ks ks' : List Package}
    (h : ks'.map (fun k => (k.name, k.plugins)) = ks.map fun k => (k.name, k.plugins))
    (o : Outcome) :
    create ks' o = create ks o := by
  have hmarks := congrArg
    (List.map fun k : String × List String => (⟨k.1, o.packages.contains k.1⟩ : Marked)) h
  have hplugins := congrArg (List.flatMap fun k : String × List String => k.2) h
  rw [List.map_map, List.map_map] at hmarks
  rw [List.flatMap_map, List.flatMap_map] at hplugins
  unfold create pluginNames
  simp only [hplugins]
  exact congrArg (fun ms => setRow { packages := ms, .. } 0) hmarks

/-- Of the file to merge into, the content and the name are looked at. -/
theorem Tweak.merge_congr {disk disk' : Disk} {file file' : Path}
    (hread : disk'.read file' = disk.read file) (hname : file'.name = file.name) (ts : List Tweak) :
    merge ts disk' file' = merge ts disk file := by
  have htext : Merge.readText disk' file' = Merge.readText disk file := by
    unfold Merge.readText
    rw [hread]
  have hwarning : Standard.warning file' = Standard.warning file := by
    unfold Standard.warning
    rw [hname]
  unfold merge Merge.render Standard.replace
  rw [htext, hwarning]

/-! ### Wrapped trees -/

namespace Tree

/-- A tree in folders one inside the other, each of which holds nothing else. -/
def wrap (t : Tree) : List String → Tree
  | [] => t
  | n :: ns => folder n (t.wrap ns) nil

variable {t : Tree} {ws : List String}

theorem named_wrap {P : String → Prop} (hws : ∀ w ∈ ws, P w) (ht : t.Named P) :
    (t.wrap ws).Named P := by
  induction ws with
  | nil => exact ht
  | cons w ws ih =>
    rw [List.forall_mem_cons] at hws
    exact ⟨hws.1, ih hws.2, trivial⟩

theorem lastName_pathText {ns : List String} (hne : ns ≠ []) (hns : ∀ n ∈ ns, Proper n) :
    Text.lastName (pathText ns) = ns.getLast?.getD "" := by
  rw [Text.lastName, pathText_eq_intercalate fun n hn => (hns n hn).ne_empty,
    splitSlashes_intercalate hne fun n hn => (hns n hn).no_slash]

end Tree

namespace Installer

variable {ws above endings : List String} {t : Tree}

theorem filter_walkBelow_wrap (above : List String) :
    ((t.wrap ws).walkBelow above).filter (fun p => isExtracted endings p.2) =
      (t.walkBelow (above ++ ws)).filter fun p => isExtracted endings p.2 := by
  induction ws generalizing above with
  | nil => rw [List.append_nil]; rfl
  | cons w ws ih =>
    have hfolder : ∀ i, isExtracted endings (.folder w i) = false := fun i => rfl
    rw [Tree.wrap, Tree.walkBelow, List.filter_cons, hfolder, if_neg (by simp), Tree.walkBelow,
      List.append_nil, ih, List.append_assoc, List.singleton_append]

/-- The files that are extracted are those of the archive, below the names of its folders. -/
theorem entriesToExtract_wrap (endings ws : List String) (t : Tree) :
    entriesToExtract endings (t.wrap ws) =
      (entriesToExtract endings t).map fun p => (ws ++ p.1, p.2) := by
  rw [entriesToExtract, Tree.walk, filter_walkBelow_wrap, List.nil_append, Tree.walkBelow_eq_map,
    List.filter_map]
  rfl

/-- Folders around an archive leave its numbers. -/
theorem mark_wrap (t : Tree) (ws : List String) : mark (t.wrap ws) = (mark t).wrap ws := by
  induction ws with
  | nil => rfl
  | cons w ws ih => exact congrArg (Tree.folder w · .nil) ih

theorem baseBelow?_wrap (above : List String) :
    baseBelow? above (t.wrap ws) = baseBelow? (above ++ ws) t := by
  induction ws generalizing above with
  | nil => rw [List.append_nil]; rfl
  | cons w ws ih => rw [Tree.wrap, baseBelow?_folder, ih, List.append_assoc, List.singleton_append]

/-- The base of a wrapped archive is the archive. -/
theorem base?_mark_wrap (h : holdsScript t = true) (ws : List String) :
    base? (mark (t.wrap ws)) = some ⟨ws, mark t⟩ := by
  rw [mark_wrap, base?, baseBelow?_wrap, List.nil_append]
  exact baseBelow?_of_holdsScript (by rwa [mark, holdsScript_markFrom])

/-- That two paths are those of one file of an archive that is extracted: from the archive, and from
the folders around it. -/
def Twin (archive : Tree) (ws : List String) (o o' : String) : Prop :=
  ∃ ns e, (ns, e) ∈ archive.walk ∧ isExtracted extractedEndings e = true ∧
    o = pathText ns ∧ o' = pathText (ws ++ ns)

/-! ### Sub-packages -/

/-- The paths that a sub-package lists have the same last names wherever its folder stands. -/
theorem map_lastName_filesOf {name : String} {inner : Tree} (habove : ∀ n ∈ above, Proper n)
    (hname : Proper name) (hinner : inner.Named Proper) :
    (Package.filesOf above name inner).map Text.lastName =
      inner.walk.map fun p => p.1.getLast?.getD "" := by
  rw [Package.filesOf, Tree.walkBelow_eq_map, List.map_map, List.map_map]
  refine List.map_congr_left ?_
  rintro ⟨ns, e⟩ he
  obtain ⟨hne, hns⟩ := hinner.of_mem_walk he
  have hproper : ∀ n ∈ above ++ [name] ++ ns, Proper n := by
    simp only [List.mem_append, List.mem_singleton]
    rintro n ((hn | rfl) | hn)
    · exact habove n hn
    · exact hname
    · exact hns n hn
  simp only [Function.comp_apply]
  rw [Tree.lastName_pathText (by simp) hproper, List.getLast?_append_of_ne_nil _ hne]

/-- Sub-packages have the same names and plugins below other names. -/
theorem map_all_congr {above' : List String} (org : Organizer) (habove : ∀ n ∈ above, Proper n)
    (habove' : ∀ n ∈ above', Proper n) (hn : t.Named Proper) :
    (Package.all org above' t).map (fun k => (k.name, k.plugins)) =
      (Package.all org above t).map fun k => (k.name, k.plugins) := by
  have hrecognise : ∀ e ∈ t.entries,
      (Package.recognise? org above' e).map (fun k => (k.name, k.plugins)) =
        (Package.recognise? org above e).map fun k => (k.name, k.plugins) := fun e he => by
    cases e with
    | file => rfl
    | folder n inner =>
      have hname : Proper n := hn.of_mem he
      have hinner := hn.of_mem_folder he
      have hplugins : org.host.pluginsFor n (Package.filesOf above' n inner) =
          org.host.pluginsFor n (Package.filesOf above n inner) :=
        org.host.pluginsFor_congr (by
          rw [map_lastName_filesOf habove' hname hinner, map_lastName_filesOf habove hname hinner])
      simp only [Package.recognise?]
      split
      · simp only [Option.map_some, Package.ofFolder, hplugins]
      · rfl
  rw [Package.all, Package.all, List.map_filterMap, List.map_filterMap]
  exact List.filterMap_congr hrecognise

/-! ### Wrapped jobs -/

/-- That a job is another with its archive, which holds the script, wrapped in folders: each file
has the content that it has without them. -/
structure Job.Wrapped (ws : List String) (job job' : Job) : Prop where
  holdsScript : holdsScript job.archive = true
  named : job.archive.Named Proper
  folders : ∀ w ∈ ws, Proper w
  name : job'.name = job.name
  archive : job'.archive = job.archive.wrap ws
  contents : ∀ ns e, (ns, e) ∈ job.archive.walk → e.isFile = true →
    job'.contents.of (pathText (ws ++ ns)) = job.contents.of (pathText ns)
  missing : job'.missing = job.missing
  script : job'.script = job.script
  events : job'.events = job.events

theorem name_extractedPath {ns : List String} (hne : ns ≠ []) (hns : ∀ n ∈ ns, Proper n) :
    (Path.ofString (extractedPath (pathText ns))).name = ns.getLast?.getD "" := by
  rw [extractedPath_pathText hne fun n hn => (hns n hn).ne_empty, Tree.ofString_pathText (by simp)
    (List.forall_mem_cons.mpr ⟨proper_extractionFolder, hns⟩), Path.name,
    List.getLast?_cons_of_ne_nil hne]

variable {i : Installer} {job job' : Job} {x x' : Extracted} {script script' : String}

theorem Job.Wrapped.proper (hw : job.Wrapped ws job') {ns : List String}
    (hns : ∀ n ∈ ns, Proper n) :
    ∀ n ∈ ws ++ ns, Proper n := fun n hmem =>
  (List.mem_append.mp hmem).elim (hw.folders n) (hns n)

theorem Job.Wrapped.named' (hw : job.Wrapped ws job') : job'.archive.Named Proper :=
  hw.archive ▸ Tree.named_wrap hw.folders hw.named

/-- The same files are extracted from both archives. -/
theorem Job.Wrapped.entriesToExtract_eq (hw : job.Wrapped ws job') :
    entriesToExtract extractedEndings (mark job'.archive) =
      (entriesToExtract extractedEndings (mark job.archive)).map fun p => (ws ++ p.1, p.2) := by
  rw [hw.archive, mark_wrap, entriesToExtract_wrap]

/-- Once both archives are extracted, tweaks are merged alike into a file at its two paths. -/
theorem mergesAlike_wrapped {room : Nat} (hw : job.Wrapped ws job') (hscript : Leads script)
    (hscript' : Leads script') (hx : x.IsOf script job.archive) (hx' : x'.IsOf script' job'.archive)
    (h : (extract room job.contents (wanted script job.archive)).run.run i.disk = (.ok (), x.disk))
    (h' : (extract room job'.contents (wanted script' job'.archive)).run.run i.disk =
      (.ok (), x'.disk)) :
    MergesAlike x x' := by
  have hentries : x'.entries = x.entries.map fun p => (ws ++ p.1, p.2) := by
    rw [hx'.entries_eq, hx.entries_eq, hw.entriesToExtract_eq]
  intro e
  cases ho : x.path? e with
  | none =>
    have hnone : x'.path? e = none := Option.eq_none_iff_forall_ne_some.mpr fun o' ho' => by
      obtain ⟨p', hp', hsame, -⟩ := hx'.path?_eq_some_iff.mp ho'
      rw [hentries] at hp'
      obtain ⟨p, hp, rfl⟩ := List.mem_map.mp hp'
      cases ho.symm.trans (hx.path?_eq_some_iff.mpr ⟨p, hp, hsame, rfl⟩)
    rw [hnone]
    exact .none
  | some o =>
    obtain ⟨p, hp, hsame, rfl⟩ := hx.path?_eq_some_iff.mp ho
    have hp' : (ws ++ p.1, p.2) ∈ x'.entries := by
      rw [hentries]
      exact List.mem_map.mpr ⟨p, hp, rfl⟩
    obtain ⟨e', he', hext⟩ := hx.exists_mem_walk hp
    rw [hx'.path?_eq_some_iff.mpr ⟨_, hp', hsame, rfl⟩]
    refine .some fun ts => Tweak.merge_congr ?_ ?_ ts
    · rw [read_of_mem_entries hx hw.named hscript h hp,
        read_of_mem_entries hx' hw.named' hscript' h' hp',
        hw.contents p.1 e' he' (Bool.and_eq_true_iff.mp hext).1]
    · obtain ⟨hne, hns⟩ := hw.named.of_mem_walk he'
      rw [name_extractedPath (by simp [hne]) (hw.proper hns), name_extractedPath hne hns,
        List.getLast?_append_of_ne_nil _ hne]

/-! ### Reports -/

/-- That the same came of two installations, up to where files were extracted to and to what is
asked of the dialogs that were seen. -/
structure Report.Alike (D : Dialog → Dialog → Prop) (r r' : Report) : Prop where
  result : r'.result = r.result
  name : r'.name = r.name
  updates : r'.updates = r.updates
  seen : List.Forall₂ (Dialog.Observation.Alike D) r.seen r'.seen
  given : r'.given = r.given
  log : r'.log = r.log

variable {D : Dialog → Dialog → Prop} {Q : Dialog.Picture → Dialog.Picture → Prop} {r r' : Report}
  {b b' : Base} {d d' : Dialog}

namespace Report.Alike

theorem rename (h : r.Alike D r') (name : String) : (r.rename name).Alike D (r'.rename name) :=
  { h with name := rfl, updates := by rw [Report.rename, Report.rename, h.updates] }

theorem withResult (h : r.Alike D r') (x : Except Fault Result) :
    Report.Alike D { r with result := x } { r' with result := x } :=
  { h with result := rfl }

theorem withLog (h : r.Alike D r') (l : Log) :
    Report.Alike D { r with log := l } { r' with log := l } :=
  { h with log := rfl }

theorem mono {D' : Dialog → Dialog → Prop} (h : r.Alike D r') (hD : ∀ d d', D d d' → D' d d') :
    r.Alike D' r' := by
  refine { h with seen := h.seen.imp fun _ _ ho => ?_ }
  cases ho with
  | state hd f => exact .state (hD _ _ hd) f
  | reply x => exact .reply x

end Report.Alike

theorem finish_alike (m : Memory) (hb : b'.tree = b.tree) (hx : MergesAlike x x')
    (hd : d.Redrawn Q d') (hr : r.Alike D r') :
    (finish m b x d r).1.Alike D (finish m b' x' d' r').1 ∧
      (finish m b' x' d' r').2 = (finish m b x d r).2 := by
  have hplan : planOf d' = planOf d := by rw [planOf, planOf, hd.completePage_eq]
  have hname : d'.name = d.name := by rw [hd.rest]
  have hr := hr.rename d.name
  unfold finish
  simp only [hplan, hname, hd.chosenAnswers_eq]
  cases planOf d with
  | error f => exact ⟨hr.withResult _, rfl⟩
  | ok plan =>
    simp only [hr.log, hb, assemble_congr hx]
    rcases (assemble x b.tree plan).run.run (r.rename d.name).log with ⟨f | t, l⟩
    · exact ⟨(hr.withLog l).withResult _, rfl⟩
    · cases d.chosenAnswers with
      | error f => exact ⟨(hr.withLog l).withResult _, rfl⟩
      | ok answers => exact ⟨(hr.withLog l).withResult _, rfl⟩

theorem converse_alike {org : Organizer} {m : Memory}
    (hs : (setupOf org b x job m.answers).Likewise Q (setupOf org b' x' job' m.answers))
    (hw : job.Wrapped ws job') (hb : b'.tree = b.tree) (hx : MergesAlike x x')
    (hr : r.Alike D r') :
    (converse org m b x job r).1.Alike (Dialog.Redrawn Q) (converse org m b' x' job' r').1 ∧
      (converse org m b' x' job' r').2 = (converse org m b x job r).2 := by
  obtain ⟨hverdict, hseen, hd⟩ := Dialog.exec_redrawn hs job.name job.events
  unfold converse
  rw [hw.name, hw.events]
  generalize Dialog.exec (setupOf org b x job m.answers) job.name job.events = s
    at hverdict hseen hd ⊢
  generalize Dialog.exec (setupOf org b' x' job' m.answers) job.name job.events = s'
    at hverdict hseen hd ⊢
  have hname : s'.dialog.name = s.dialog.name := by rw [hd.rest]
  have hmanual : s'.dialog.manual = s.dialog.manual := by rw [hd.rest]
  have hgiven : s'.dialog.given = s.dialog.given := by rw [hd.rest]
  have hafter : ∀ shown shown', Report.Alike (Dialog.Redrawn Q)
      { r with seen := s.seen, given := s.dialog.given, opened := shown }
      { r' with seen := s'.seen, given := s'.dialog.given, opened := shown' } := fun _ _ =>
    ⟨hr.result, hr.name, hr.updates, hseen, hgiven, hr.log⟩
  simp only [hverdict, hname, hmanual]
  rcases s.verdict with f | (_ | _)
  · exact ⟨(hafter _ _).withResult _, rfl⟩
  · exact finish_alike m hb hx hd (hafter _ _)
  · simp only
    split
    · exact ⟨((hafter _ _).rename _).withResult _, rfl⟩
    · exact ⟨(hafter _ _).withResult _, rfl⟩

/-! ### Extraction -/

/-- How many of some paths are found hangs on their number only. -/
theorem length_found_congr (missing : Nat) {ps ps' : List String} (h : ps'.length = ps.length) :
    (found missing ps').length = (found missing ps).length := by
  unfold found
  rw [h]
  split <;> simp only [List.length_take, h]

/-- Of both archives all files are found, or of neither. -/
theorem Job.Wrapped.rel_of? (hw : job.Wrapped ws job') (script script' : String)
    (disk disk' : Disk) :
    Option.Rel (fun x x' => (x.disk = disk ∧ x.IsOf script job.archive) ∧
        x'.disk = disk' ∧ x'.IsOf script' job'.archive)
      (Extracted.of? disk (entriesToExtract extractedEndings (mark job.archive))
        (found job.missing ((wanted script job.archive).map extractedPath)))
      (Extracted.of? disk' (entriesToExtract extractedEndings (mark job'.archive))
        (found job'.missing ((wanted script' job'.archive).map extractedPath))) := by
  have hentries : (entriesToExtract extractedEndings (mark job'.archive)).length =
      (entriesToExtract extractedEndings (mark job.archive)).length := by
    rw [hw.entriesToExtract_eq, List.length_map]
  have hfound : (found job'.missing ((wanted script' job'.archive).map extractedPath)).length =
      (found job.missing ((wanted script job.archive).map extractedPath)).length := by
    rw [hw.missing]
    refine length_found_congr _ ?_
    rw [List.length_map, List.length_map, length_wanted, length_wanted, hentries]
  have hsome := Extracted.isSome_of?_iff disk'
    (entriesToExtract extractedEndings (mark job'.archive))
    (found job'.missing ((wanted script' job'.archive).map extractedPath))
  rw [hfound, hentries, ← Extracted.isSome_of?_iff disk] at hsome
  cases hof : Extracted.of? disk (entriesToExtract extractedEndings (mark job.archive))
      (found job.missing ((wanted script job.archive).map extractedPath)) with
  | none =>
    rw [hof] at hsome
    rw [Option.not_isSome_iff_eq_none.mp (hsome.not.mpr (by simp))]
    exact .none
  | some x =>
    rw [hof] at hsome
    obtain ⟨x', hof'⟩ := Option.isSome_iff_exists.mp (hsome.mpr rfl)
    rw [hof']
    exact .some ⟨(of?_eq_some.mp hof).2, (of?_eq_some.mp hof').2⟩

/-- How the extraction of an archive's files ends, if an installation comes so far. -/
def extraction? (i : Installer) (job : Job) : Option (Except Disk.Fault Unit) :=
  (base? (mark job.archive)).bind fun b => i.organizer.checker.bind fun _ =>
    (scriptPath? b).map fun script =>
      ((extract i.organizer.host.folderRoom job.contents
        (wanted script job.archive)).run.run i.disk).1

/-- An installation from a base that holds the script, with the extraction that it comes to. -/
theorem exists_attempt (hb : base? (mark job.archive) = some ⟨above, mark t⟩)
    (hs : holdsScript t = true) (hn : t.Named Proper) (habove : ∀ n ∈ above, Proper n)
    (hc : i.organizer.checker.isSome = true) :
    ∃ script, Leads script ∧ i.install job = attempt i job ⟨above, mark t⟩ script ∧
      extraction? i job = some ((extract i.organizer.host.folderRoom job.contents
        (wanted script job.archive)).run.run i.disk).1 := by
  obtain ⟨script, hscript⟩ := exists_scriptPath? (b := ⟨above, mark t⟩)
    (by rwa [mark, holdsScript_markFrom])
  refine ⟨script, leads_of_scriptPath? habove (named_markFrom 0 hn) hscript,
    install_eq_attempt hb hc hscript, ?_⟩
  obtain ⟨checker, hc⟩ := Option.isSome_iff_exists.mp hc
  rw [extraction?, hb, Option.bind_some, hc, Option.bind_some, hscript]
  rfl

namespace Job.Wrapped

variable (hw : job.Wrapped ws job')

include hw

theorem base?_eq : base? (mark job.archive) = some ⟨[], mark job.archive⟩ :=
  base?_mark_wrap hw.holdsScript []

theorem base?_eq' : base? (mark job'.archive) = some ⟨ws, mark job.archive⟩ :=
  hw.archive ▸ base?_mark_wrap hw.holdsScript ws

theorem exists_attempt (hc : i.organizer.checker.isSome = true) :
    ∃ script, Leads script ∧ i.install job = attempt i job ⟨[], mark job.archive⟩ script ∧
      extraction? i job = some ((extract i.organizer.host.folderRoom job.contents
        (wanted script job.archive)).run.run i.disk).1 :=
  Installer.exists_attempt hw.base?_eq hw.holdsScript hw.named (by simp) hc

theorem exists_attempt' (hc : i.organizer.checker.isSome = true) :
    ∃ script, Leads script ∧ i.install job' = attempt i job' ⟨ws, mark job.archive⟩ script ∧
      extraction? i job' = some ((extract i.organizer.host.folderRoom job'.contents
        (wanted script job'.archive)).run.run i.disk).1 :=
  Installer.exists_attempt hw.base?_eq' hw.holdsScript hw.named hw.folders hc

end Job.Wrapped

/-! ### Installations -/

/-- That the pictures of images from two archives are related, however these were extracted. -/
def ImagesRelated (Q : Dialog.Picture → Dialog.Picture → Prop) (archive archive' : Tree) : Prop :=
  ∀ ⦃x x' : Extracted⦄ ⦃script script' : String⦄, x.IsOf script archive → x'.IsOf script' archive' →
    ∀ image, Q (.ofImage (imagesOf x) image) (.ofImage (imagesOf x') image)

theorem likewise_setupOf (hw : job.Wrapped ws job') (org : Organizer) (answers : Answers)
    (hunset : Q .unset .unset)
    (himage : ∀ image, Q (.ofImage (imagesOf x) image) (.ofImage (imagesOf x') image)) :
    (setupOf org ⟨[], mark job.archive⟩ x job answers).Likewise Q
      (setupOf org ⟨ws, mark job.archive⟩ x' job' answers) where
  organizer := rfl
  script := hw.script
  remembered := rfl
  complete := Dialog.CompletePage.create_congr
    (map_all_congr org (by simp) hw.folders (named_markFrom 0 hw.named))
  unset := hunset
  image := himage

/-- Once the files are extracted, installations proceed alike. -/
theorem proceed_alike {disk disk' : Disk} (hw : job.Wrapped ws job') (hscript : Leads script)
    (hscript' : Leads script') (hunset : Q .unset .unset)
    (himages : ImagesRelated Q job.archive job'.archive)
    (h : (extract i.organizer.host.folderRoom job.contents
      (wanted script job.archive)).run.run i.disk = (.ok (), disk))
    (h' : (extract i.organizer.host.folderRoom job'.contents
      (wanted script' job'.archive)).run.run i.disk = (.ok (), disk')) :
    (proceed i job ⟨[], mark job.archive⟩ script disk).1.Alike (Dialog.Redrawn Q)
        (proceed i job' ⟨ws, mark job.archive⟩ script' disk').1 ∧
      (proceed i job' ⟨ws, mark job.archive⟩ script' disk').2.memory =
        (proceed i job ⟨[], mark job.archive⟩ script disk).2.memory := by
  have hblank : ∀ (x : Except Fault Result) xs xs', Report.Alike (Dialog.Redrawn Q)
      { Report.blank job.name x with extracted := xs }
      { Report.blank job.name x with extracted := xs' } := fun _ _ _ =>
    ⟨rfl, rfl, rfl, .nil, rfl, rfl⟩
  unfold proceed
  rw [hw.name]
  obtain ⟨hof, hof'⟩ | ⟨x, x', hof, hof', ⟨rfl, hx⟩, rfl, hx'⟩ :=
    rel_cases (hw.rel_of? script script' disk disk')
  · simp only [hof, hof']
    exact ⟨hblank _ _ _, trivial⟩
  · simp only [hof, hof']
    rcases i.memory with _ | m
    · exact ⟨hblank _ _ _, rfl⟩
    · have hs := likewise_setupOf hw i.organizer m.answers hunset (himages hx hx')
      obtain ⟨hreport, hmemory⟩ := converse_alike hs hw rfl
        (mergesAlike_wrapped hw hscript hscript' hx hx' h h') (hblank (.error .notStarted) _ _)
      exact ⟨hreport, congrArg some hmemory⟩

/-- If both archives are extracted alike, the same comes of both installations up to the pictures
that are shown, which stay related. -/
theorem install_alike (hw : job.Wrapped ws job') (hunset : Q .unset .unset)
    (himages : ImagesRelated Q job.archive job'.archive)
    (hx : extraction? i job' = extraction? i job) :
    (i.install job).1.Alike (Dialog.Redrawn Q) (i.install job').1 ∧
      (i.install job').2.memory = (i.install job).2.memory := by
  cases hc : i.organizer.checker with
  | none =>
    rw [install_of_checker_eq_none hc, install_of_checker_eq_none hc, hw.name]
    exact ⟨⟨rfl, rfl, rfl, .nil, rfl, rfl⟩, rfl⟩
  | some checker =>
    have hc := Option.isSome_of_eq_some hc
    obtain ⟨script, hscript, hinstall, hext⟩ := hw.exists_attempt hc
    obtain ⟨script', hscript', hinstall', hext'⟩ := hw.exists_attempt' hc
    rw [hext, hext'] at hx
    rw [hinstall, hinstall', attempt, attempt]
    rcases hrun : (extract i.organizer.host.folderRoom job.contents
      (wanted script job.archive)).run.run i.disk with ⟨y, disk⟩
    rcases hrun' : (extract i.organizer.host.folderRoom job'.contents
      (wanted script' job'.archive)).run.run i.disk with ⟨y', disk'⟩
    rw [hrun, hrun'] at hx
    cases hx
    rcases y with f | ⟨⟩
    · rw [hw.name]
      exact ⟨⟨rfl, rfl, rfl, .nil, rfl, rfl⟩, rfl⟩
    · exact proceed_alike hw hscript hscript' hunset himages hrun hrun'

/-- What tells the reports of two installations apart tells of their extractions. -/
theorem extraction?_eq_of_result (hw : job.Wrapped ws job')
    (h : (i.install job').1.result = (i.install job).1.result) :
    extraction? i job' = extraction? i job := by
  cases hc : i.organizer.checker with
  | none =>
    simp only [extraction?, hw.base?_eq, hw.base?_eq', hc, Option.bind_some, Option.bind_none]
  | some checker =>
    have hc := Option.isSome_of_eq_some hc
    obtain ⟨script, -, hinstall, hext⟩ := hw.exists_attempt hc
    obtain ⟨script', -, hinstall', hext'⟩ := hw.exists_attempt' hc
    rw [hinstall, hinstall'] at h
    have hfault := fun f => (result_attempt_eq_disk_iff (f := f)).symm.trans
      ((Eq.congr_left h).trans result_attempt_eq_disk_iff)
    rw [hext, hext']
    generalize ((extract i.organizer.host.folderRoom job.contents
      (wanted script job.archive)).run.run i.disk).1 = y at hfault ⊢
    generalize ((extract i.organizer.host.folderRoom job'.contents
      (wanted script' job'.archive)).run.run i.disk).1 = y' at hfault ⊢
    cases y with
    | error f => rw [(hfault f).mpr rfl]
    | ok =>
      cases y' with
      | error f => exact absurd ((hfault f).mp rfl) (by simp)
      | ok => rfl

end Installer

/-! ### Pictures -/

open Installer

/-- That two pictures are those of one file of the archive, or that neither is one. -/
inductive Dialog.Picture.Alike (R : String → String → Prop) : Picture → Picture → Prop
  | unset : Alike R .unset .unset
  | blank : Alike R .blank .blank
  | file {o o' : String} (h : R o o') : Alike R (.file (extractedPath o)) (.file (extractedPath o'))

/-- Pictures that are alike both have a file, or neither has. -/
theorem Dialog.Picture.Alike.file? {R : String → String → Prop} {x x' : Picture}
    (h : x.Alike R x') :
    Option.Rel
      (fun path path' => ∃ o o', R o o' ∧ path = extractedPath o ∧ path' = extractedPath o')
      x.file? x'.file? := by
  cases h with
  | unset => exact .none
  | blank => exact .none
  | file h => exact .some ⟨_, _, h, rfl, rfl⟩

/-- That two pictures are alike only if neither has a file. -/
def Dialog.Picture.AlikeIfNone (R : String → String → Prop) (x x' : Picture) : Prop :=
  x.Alike R x' ↔ x.file? = none ∧ x'.file? = none

/-- That two dialogs show the same: the pictures that are seen are alike, and all but pictures is
the same. -/
structure Dialog.Alike (R : String → String → Prop) (d d' : Dialog) : Prop where
  rest : d.Redrawn (fun _ _ => True) d'
  picture : Option.Rel (Picture.Alike R) d.picture? d'.picture?

namespace Installer

open Dialog (Picture Observation)

/-- The files of the pictures that were seen. -/
def Report.pictures (r : Report) : List String := r.seen.filterMap Observation.file?

variable {i : Installer} {job job' : Job} {ws : List String} {archive : Tree}

theorem extractedPath_injective {o o' : String} (h : extractedPath o = extractedPath o') :
    o = o' := by
  have hchars := congrArg String.toList h
  simp only [extractedPath, String.toList_append] at hchars
  exact String.toList_inj.mp (List.append_cancel_left hchars)

/-- The picture of an image is the file that the image names from the root of the archive. -/
theorem file_of_ofImage {x : Extracted} {script path : String} {image : Option String}
    (hx : x.IsOf script archive) (hn : archive.Named Proper)
    (h : Picture.ofImage (imagesOf x) image = .file path) :
    ∃ s ns e, image = some s ∧ Path.ofString s = ⟨.here, ns⟩ ∧ (ns, e) ∈ archive.walk ∧
      isExtracted extractedEndings e = true ∧ path = extractedPath (pathText ns) := by
  obtain hblank | ⟨s, p, himage, hp, hfile⟩ := Picture.ofImage_eq_blank_or _ image
  · cases hblank.symm.trans h
  · cases hfile.symm.trans h
    obtain ⟨k, -, hk, rfl⟩ := (get?_imagesOf hx hn).mp hp
    obtain ⟨e, he, hext⟩ := hx.exists_mem_walk (List.get_mem x.entries k)
    obtain ⟨hne, hns⟩ := hn.of_mem_walk he
    have hproper := List.forall_mem_cons.mpr ⟨proper_extractionFolder, hns⟩
    refine ⟨s, _, e, himage, hk.trans (Tree.ofString_pathText hne hns), he, hext, ?_⟩
    rw [hx.pathAt_eq, extractedPath_pathText hne fun n hn => (hns n hn).ne_empty,
      Tree.ofString_pathText (by simp) hproper, Tree.text_of_proper (by simp) hproper]

/-- Without folders around the archive, each image has its own picture. -/
theorem imagesRelated_self (hn : archive.Named Proper) :
    ImagesRelated (Picture.Alike (Twin archive [])) archive archive := by
  intro x x' script script' hx hx' image
  rw [hx.imagesOf_eq hx']
  cases h : Picture.ofImage (imagesOf x) image with
  | unset => exact .unset
  | blank => exact .blank
  | file path =>
    obtain ⟨s, ns, e, -, -, he, hext, rfl⟩ := file_of_ofImage hx hn h
    exact .file ⟨ns, e, he, hext, rfl, rfl⟩

/-- With folders around the archive, no image has its own picture. -/
theorem imagesRelated_wrapped (hw : job.Wrapped ws job') (hne : ws ≠ []) :
    ImagesRelated (Picture.AlikeIfNone (Twin job.archive ws)) job.archive job'.archive := by
  intro x x' script script' hx hx' image
  constructor
  · intro h
    obtain hnone | ⟨path, path', hp, hp', o, o', ho, rfl, rfl⟩ := rel_cases h.file?
    · exact hnone
    · -- The image would name the file from the root of both archives.
      obtain ⟨s, ns, e, rfl, hs, he, -, hpath⟩ :=
        file_of_ofImage hx hw.named (Picture.eq_file_of_file? hp)
      obtain ⟨_, ns', e', hs', hns', he', -, hpath'⟩ :=
        file_of_ofImage hx' hw.named' (Picture.eq_file_of_file? hp')
      cases hs'
      cases hs.symm.trans hns'
      obtain ⟨ms, e'', he'', -, rfl, rfl⟩ := ho
      have hms := (hw.named.of_mem_walk he'').2
      have hns := (hw.named.of_mem_walk he).2
      have heq := pathText_injective hms hns (extractedPath_injective hpath)
      have heq' := pathText_injective (hw.proper hms) hns (extractedPath_injective hpath')
      exact absurd (List.append_left_eq_self.mp (heq'.trans heq.symm)) hne
  · rintro ⟨hp, hp'⟩
    have hblank : ∀ images, (Picture.ofImage images image).file? = none →
        Picture.ofImage images image = .blank := fun images hnone => by
      obtain hblank | ⟨_, p, -, -, hfile⟩ := Picture.ofImage_eq_blank_or images image
      · exact hblank
      · rw [hfile] at hnone
        cases hnone
    rw [hblank _ hp, hblank _ hp']
    exact .blank

/-- If pictures are alike only if there is none, then the same is seen exactly if no picture is. -/
theorem seen_alike_iff {R : String → String → Prop} {seen seen' : List Observation}
    (h : List.Forall₂ (Observation.Alike (Dialog.Redrawn (Picture.AlikeIfNone R))) seen seen') :
    List.Forall₂ (Observation.Alike (Dialog.Alike R)) seen seen' ↔
      seen.filterMap Observation.file? = [] ∧ seen'.filterMap Observation.file? = [] := by
  simp only [List.filterMap_eq_nil_iff]
  induction h with
  | nil => exact iff_of_true .nil ⟨by simp, by simp⟩
  | @cons x x' xs xs' hx _ ih =>
    have hhead : Observation.Alike (Dialog.Alike R) x x' ↔ x.file? = none ∧ x'.file? = none := by
      cases hx with
      | reply r => exact iff_of_true (.reply r) ⟨rfl, rfl⟩
      | @state d d' hd f =>
        have hrest : d.Redrawn (fun _ _ => True) d' := hd.mono fun _ _ _ => trivial
        have hiff : Option.Rel (Picture.Alike R) d.picture? d'.picture? ↔
            d.picture?.bind Picture.file? = none ∧ d'.picture?.bind Picture.file? = none := by
          obtain ⟨hp, hp'⟩ | ⟨y, y', hp, hp', hy⟩ := rel_cases hd.picture?
          · rw [hp, hp']
            exact iff_of_true .none ⟨rfl, rfl⟩
          · rw [hp, hp', Option.rel_some_some]
            exact hy
        refine Iff.trans ⟨fun h => ?_, fun h => .state ⟨hrest, h⟩ f⟩ hiff
        cases h with
        | state h => exact h.picture
    rw [List.forall₂_cons, hhead, ih, List.forall_mem_cons, List.forall_mem_cons]
    exact ⟨fun ⟨⟨h, h'⟩, hs, hs'⟩ => ⟨⟨h, hs⟩, h', hs'⟩,
      fun ⟨⟨h, hs⟩, h', hs'⟩ => ⟨⟨h, h'⟩, hs, hs'⟩⟩

namespace Boxed

/-- A question whose two answers may have images, and then a sub-package with tweaks for its
file. -/
def script (first second : Option String) : Script where
  start := "q"
  nodes := .ofList
    [("q", ⟨"q", .question
        ⟨.one, "Which?", [⟨"a", "", first, none⟩, ⟨"b", "", second, none⟩], [0], some "e"⟩⟩),
     ("e", ⟨"e", .done
        ⟨["A"], [], [], ∅, .ofList [("s.ini", [.edit ⟨"set", "a", .int 5, none⟩])]⟩ none⟩)]

/-- An archive with two pictures and a sub-package. -/
def shipment : Tree :=
  .file "wizard.txt" none (.file "p.png" none
    (.folder "W" (.file "p.png" none .nil) (.folder "A" (.file "s.ini" none .nil) .nil)))

def contentsIn (ws : List String) : Contents :=
  .ofList [(pathText (ws ++ ["A", "s.ini"]), "set a to 1".toByteArray)]

/-- The archive in folders.  Both answers are looked at, and the second is given. -/
def jobOf (ws : List String) (first second : Option String) : Job where
  name := ⟨"Mod", ["Mod"]⟩
  archive := shipment.wrap ws
  contents := contentsIn ws
  missing := 0
  script := script first second
  events := [.act (.setCurrent 1), .act .next, .act .next]

def installer : Installer where
  organizer := ⟨.plain 9, "Game", "1.0", "1.0", none, some (.ofList [("A", .valid)]), [], [], ∅, ∅⟩
  memory := some ⟨false, ∅⟩
  disk := .bare

theorem wrapped_jobOf (first second : Option String) :
    (jobOf [] first second).Wrapped ["W"] (jobOf ["W"] first second) where
  holdsScript := (by decide : holdsScript shipment = true)
  named := (by decide : shipment.Named Proper)
  folders := by decide
  name := rfl
  archive := rfl
  contents ns e :=
    (by decide +kernel : ∀ p ∈ shipment.walk, p.2.isFile = true →
      (contentsIn ["W"]).of (pathText ("W" :: p.1)) = (contentsIn []).of (pathText p.1)) (ns, e)
  missing := rfl
  script := rfl
  events := rfl

end Boxed

/-- In folders nothing is seen alike once a picture is seen. -/
theorem pictures_eq_nil_of_alike (hw : job.Wrapped ws job') (hws : ws ≠ [])
    (h : (i.install job).1.Alike (Dialog.Alike (Twin job.archive ws)) (i.install job').1) :
    (i.install job).1.pictures = [] ∧ (i.install job').1.pictures = [] := by
  have hx := extraction?_eq_of_result hw h.result
  have halike :=
    install_alike hw (iff_of_true .unset ⟨rfl, rfl⟩) (imagesRelated_wrapped hw hws) hx
  exact (seen_alike_iff halike.1.seen).mp h.seen

/-- The same comes of an archive in folders and without them, up to pictures, if its files are
extracted alike.  Pictures are the same only if there are no folders, or if none is seen. -/
theorem wrapped_alike_iff (i : Installer) (hw : job.Wrapped ws job') :
    (extraction? i job' = extraction? i job →
      (i.install job).1.Alike (Dialog.Redrawn fun _ _ => True) (i.install job').1 ∧
        (i.install job').2.memory = (i.install job).2.memory) ∧
    ((i.install job).1.Alike (Dialog.Alike (Twin job.archive ws)) (i.install job').1 ↔
      extraction? i job' = extraction? i job ∧
        (ws = [] ∨ (i.install job).1.pictures = [] ∧ (i.install job').1.pictures = [])) := by
  refine ⟨install_alike hw trivial fun _ _ _ _ _ _ _ => trivial, ?_⟩
  by_cases hws : ws = []
  · rw [or_iff_left_of_imp fun _ => hws, and_iff_left hws]
    refine ⟨fun h => extraction?_eq_of_result hw h.result, fun hx => ?_⟩
    have himages :
        ImagesRelated (Picture.Alike (Twin job.archive ws)) job.archive job'.archive := by
      rw [hw.archive, hws]
      exact imagesRelated_self hw.named
    refine (install_alike hw .unset himages hx).1.mono fun d d' hd => ?_
    exact ⟨hd.mono fun _ _ _ => trivial, hd.picture?⟩
  · rw [or_iff_right hws]
    constructor
    · exact fun h => ⟨extraction?_eq_of_result hw h.result, pictures_eq_nil_of_alike hw hws h⟩
    · rintro ⟨hx, hnone⟩
      have halike :=
        (install_alike hw (iff_of_true .unset ⟨rfl, rfl⟩) (imagesRelated_wrapped hw hws) hx).1
      exact { halike with seen := (seen_alike_iff halike.seen).mpr hnone }

open Boxed in
/-- Without images the same is seen, and the same file is written, in a folder and without it. -/
theorem wrapped_alike_plain :
    (jobOf [] none none).Wrapped ["W"] (jobOf ["W"] none none) ∧
      (installer.install (jobOf [] none none)).1.Alike
        (Dialog.Alike (Twin shipment ["W"]))
        (installer.install (jobOf ["W"] none none)).1 ∧
      (installer.install (jobOf ["W"] none none)).1.log.created.map (·.path) = ["s.ini"] := by
  have hw := wrapped_jobOf none none
  refine ⟨hw, (wrapped_alike_iff installer hw).2.mpr ⟨?_, .inr ⟨?_, ?_⟩⟩, ?_⟩ <;> decide +kernel

open Boxed in
/-- In a folder the first image is not found, and the picture of the second is another one. -/
theorem wrapped_pictures_differ :
    (jobOf [] (some "p.png") (some "W/p.png")).Wrapped ["W"]
        (jobOf ["W"] (some "p.png") (some "W/p.png")) ∧
      (installer.install (jobOf [] (some "p.png") (some "W/p.png"))).1.pictures =
        ["x/p.png", "x/W/p.png"] ∧
      (installer.install (jobOf ["W"] (some "p.png") (some "W/p.png"))).1.pictures = ["x/W/p.png"] ∧
      ¬ (installer.install (jobOf [] (some "p.png") (some "W/p.png"))).1.Alike
        (Dialog.Alike (Twin shipment ["W"]))
        (installer.install (jobOf ["W"] (some "p.png") (some "W/p.png"))).1 := by
  have hw := wrapped_jobOf (some "p.png") (some "W/p.png")
  have hpictures : (installer.install (jobOf [] (some "p.png") (some "W/p.png"))).1.pictures =
      ["x/p.png", "x/W/p.png"] := by
    decide +kernel
  refine ⟨hw, hpictures, by decide +kernel, fun h => ?_⟩
  have hnone := (pictures_eq_nil_of_alike hw (by decide) h).1
  cases hpictures.symm.trans hnone

end Installer

end ModWizard
