import ModWizard.Proofs.Installer.Extracted
import ModWizard.Proofs.Tree.Path
import ModWizard.Proofs.Tree.Tidy
import ModWizard.Proofs.Tweak.Merge

/-!
# Tweak files beside each other

Tweak files are written one after the other, and each is searched for in the tree that the ones
before it left.  Whether a file can be written (`Fits`) is a matter of the tree alone.  A file that
was written blocks another one (`Blocks`) if it is found under the other's name, or stands on the
way to the other's goal; it changes nothing else for the other (`fits_addFile_iff`).  So all of them
are written exactly if each fits the tree at the start and none blocks a later one
(`exists_writeTweaks_iff`).
-/

namespace ModWizard.Installer

variable {disk : Disk} {x : Extracted} {t t' : Tree} {f g : String × List Tweak}

/-- Whether a name begins with the folder of tweak files. -/
def isInside (name : String) : Bool :=
  (Path.ofString name).head?.any fun h => Text.lower h == "ini tweaks"

/-- The path to which the tweak file of a name is written. -/
def goal (t : Tree) (name : String) : String :=
  if (solidAt? t name).isSome || isInside name then name else inTweakFolder name

/-- The path to which the file was extracted into which the tweaks of a name are merged. -/
def origin? (x : Extracted) (t : Tree) (name : String) : Option String :=
  (solidAt? t name).bind x.path?

/-- When a tweak file can be written to a tree. -/
structure Fits (x : Extracted) (t : Tree) (f : String × List Tweak) : Prop where
  /-- The name of a new file has a first part. -/
  named : solidAt? t f.1 = none → (Path.ofString f.1).head? ≠ none
  /-- What is found under the name is an extracted file. -/
  extracted : ∀ e, solidAt? t f.1 = some e → (x.path? e).isSome = true
  /-- Commands are only merged into a file that can be read. -/
  readable : Tweak.areCommands f.2 = true → ∀ o, origin? x t f.1 = some o →
    ∃ s, Tweak.Merge.readText x.disk (Path.ofString o) = .ok s
  /-- The goal is a path with a name. -/
  path : Tree.place (goal t f.1) ≠ []
  /-- No file stands on the way to the goal. -/
  way : t.Open (Tree.place (goal t f.1))

instance (x : Extracted) (t : Tree) (f : String × List Tweak) : Decidable (Fits x t f) :=
  decidable_of_iff
    ((solidAt? t f.1 = none → (Path.ofString f.1).head? ≠ none) ∧
      ((solidAt? t f.1).all fun e => (x.path? e).isSome) = true ∧
      (Tweak.areCommands f.2 = true → (origin? x t f.1).all (fun o =>
        (Tweak.Merge.readText x.disk (Path.ofString o)).isOk) = true) ∧
      Tree.place (goal t f.1) ≠ [] ∧ t.Open (Tree.place (goal t f.1))) <| by
    have hok : ∀ r : Except Tweak.Merge.Fault String, r.isOk = true ↔ ∃ s, r = .ok s := by
      rintro (e | s) <;> simp [Except.isOk, Except.toBool]
    simp only [Option.all_eq_true, hok]
    exact ⟨fun ⟨hn, he, hr, hp, hw⟩ => ⟨hn, he, hr, hp, hw⟩,
      fun ⟨hn, he, hr, hp, hw⟩ => ⟨hn, he, hr, hp, hw⟩⟩

/-- Whether the tweak file of a name, once written, keeps that of another from being written: it is
found under the other name, or stands on the way to the other goal. -/
def Blocks (t : Tree) (name other : String) : Prop :=
  Tree.place other <+: Tree.place (goal t name) ∨
    Tree.place (goal t name) <+: Tree.place (goal t other) ∧
      Tree.place (goal t name) ≠ Tree.place (goal t other)

instance (t : Tree) (name other : String) : Decidable (Blocks t name other) :=
  inferInstanceAs (Decidable (_ ∨ _))

/-- The text of a tweak file, if there is one. -/
def text? (x : Extracted) (t : Tree) (f : String × List Tweak) : Option String :=
  (tweakText x.disk (origin? x t f.1) f.2).toOption.map (·.text)

/-! ### Goals -/

theorem goal_congr {name : String} (h : solidAt? t' name = solidAt? t name) :
    goal t' name = goal t name := by
  rw [goal, h, goal]

theorem origin?_congr {name : String} (h : solidAt? t' name = solidAt? t name) :
    origin? x t' name = origin? x t name := by
  rw [origin?, h, origin?]

/-- The goal is the file's own path, or the file is new and put into the folder of tweak files. -/
theorem place_goal_eq_or (t : Tree) (name : String) :
    Tree.place (goal t name) = Tree.place name ∨
      solidAt? t name = none ∧ isInside name = false ∧ (Path.ofString name).start = .here ∧
        Tree.place (goal t name) = "ini tweaks" :: Tree.place name := by
  unfold goal
  split
  next => exact .inl rfl
  next hout =>
    simp only [Bool.or_eq_true, Option.isSome_iff_ne_none, not_or, ne_eq, not_not,
      Bool.not_eq_true] at hout
    unfold inTweakFolder
    split
    next => exact .inl rfl
    next hrel =>
      refine .inr ⟨hout.1, hout.2, ?_, ?_⟩
      · show Path.Start.ofChars name.toList = .here
        unfold Path.Start.ofChars
        split <;> simp_all
      · have hfolder : Tree.pathNames tweakFolder = ["INI Tweaks"] := by decide
        have hlower : Text.lower "INI Tweaks" = "ini tweaks" := by decide +kernel
        rw [Tree.place, Tree.pathNames_append_slash, hfolder, List.map_append, List.map_singleton,
          hlower, Tree.place, List.singleton_append]

/-- A name that leads to the folder of tweak files is not put into it again. -/
theorem place_goal_of_inside {name : String} (hname : '\\' ∉ name.toList) {p : List String}
    (h : Tree.place name = "ini tweaks" :: p) (t : Tree) :
    Tree.place (goal t name) = Tree.place name := by
  obtain he | ⟨-, hout, hhere, -⟩ := place_goal_eq_or t name
  · exact he
  · obtain ⟨n, ns, hns, hn, -⟩ := List.map_eq_cons_iff.mp h
    have hdot : n ≠ "." := by
      rintro rfl
      exact absurd hn (by decide +kernel)
    have hinside : isInside name = true := by
      simp only [isInside, Path.head?, hhere, Tree.names_ofString hname, hns]
      simp [hdot, hn]
    cases hinside.symm.trans hout

/-- A file that fits has a place. -/
theorem Fits.place_ne_nil (h : Fits x t f) (hname : '\\' ∉ f.1.toList) : Tree.place f.1 ≠ [] := by
  intro hnil
  obtain he | ⟨hnone, -, hhere, -⟩ := place_goal_eq_or t f.1
  · exact h.path (he.trans hnil)
  · refine h.named hnone ?_
    simp only [Path.head?, hhere, Tree.names_ofString hname, Tree.place_eq_nil_iff.mp hnil]
    rfl

/-! ### One file -/

theorem destination_eq_ok_iff {name : String} {d : Destination} :
    destination x t name = .ok d ↔
      (solidAt? t name = none → (Path.ofString name).head? ≠ none) ∧
      (∀ e, solidAt? t name = some e → (x.path? e).isSome = true) ∧
      d = ⟨origin? x t name, goal t name⟩ := by
  unfold destination goal origin? isInside
  rcases solidAt? t name with _ | e
  · rcases (Path.ofString name).head? with _ | h
    · simp
    · simp [eq_comm (a := d)]
  · cases hp : x.path? e with
    | none => simp [hp]
    | some o => simp [hp, eq_comm (a := d)]

theorem exists_tweakText_iff {o : Option String} {ts : List Tweak} :
    (∃ m, tweakText disk o ts = .ok m) ↔
      (Tweak.areCommands ts = true → ∀ p, o = some p →
        ∃ s, Tweak.Merge.readText disk (Path.ofString p) = .ok s) := by
  cases o with
  | none => simp [tweakText]
  | some p =>
    by_cases hc : Tweak.areCommands ts = true
    · rcases hr : Tweak.Merge.readText disk (Path.ofString p) with fault | s
      · simp [tweakText, Tweak.merge, hc, Tweak.Merge.render, hr, Except.bind, Except.map]
      · obtain ⟨below, -, -, hrender⟩ := Tweak.Merge.exists_render ts hr
        simp [tweakText, Tweak.merge, hc, hr, hrender, Except.map]
    · simp [tweakText, Tweak.merge, hc]

theorem Work.run_bind {α β : Type} (x : Work α) (y : α → Work β) (l : Log) :
    (x >>= y).run.run l = match x.run.run l with
      | (.ok a, k) => (y a).run.run k
      | (.error e, k) => (.error e, k) := by
  simp only [ExceptT.run_bind, StateT.run_bind]
  change (match x.run.run l with | p => _) = _
  rcases x.run.run l with ⟨e | a, k⟩ <;> rfl

theorem Work.run_bind_eq_ok {α β : Type} {x : Work α} {y : α → Work β} {b : β} {l l' : Log} :
    (x >>= y).run.run l = (.ok b, l') ↔
      ∃ a k, x.run.run l = (.ok a, k) ∧ (y a).run.run k = (.ok b, l') := by
  rw [Work.run_bind]
  rcases x.run.run l with ⟨e | a, k⟩
  · exact iff_of_false (fun h => by cases h) (fun ⟨_, _, h, _⟩ => by cases h)
  · refine ⟨fun h => ⟨a, k, rfl, h⟩, ?_⟩
    rintro ⟨a, k, ⟨⟩, h⟩
    exact h

theorem Work.run_mk_eq_ok {α : Type} {r : Except Fault α} {a : α} {l l' : Log} :
    (ExceptT.mk (pure r) : Work α).run.run l = (.ok a, l') ↔ r = .ok a ∧ l' = l := by
  constructor
  · intro h
    cases h
    exact ⟨rfl, rfl⟩
  · rintro ⟨rfl, rfl⟩
    rfl

theorem Work.run_ofTree_eq_ok {r : Except Tree.Fault Tree} {l l' : Log} :
    (Work.ofTree r).run.run l = (.ok t, l') ↔ r = .ok t ∧ l' = l := by
  cases r with
  | error f => exact iff_of_false (fun h => by cases h) fun h => by cases h.1
  | ok u =>
    constructor
    · intro h
      cases h
      exact ⟨rfl, rfl⟩
    · rintro ⟨h, rfl⟩
      cases h
      rfl

/-- The log once a tweak file is written. -/
def Log.withFile (l : Log) (path : String) (m : Tweak.Merged) : Log :=
  { l with
    warnings := l.warnings ++ m.warning.toList
    created := l.created ++ [⟨path, some m.text⟩] }

theorem run_writeTweak_eq_ok {l l' : Log} :
    (writeTweak x f.1 f.2 t).run.run l = (.ok t', l') ↔
      ∃ d m, destination x t f.1 = .ok d ∧ t.addFile (Tree.pathNames d.path) = .ok t' ∧
        tweakText x.disk d.origin f.2 = .ok m ∧
        l' = l.withFile (Tree.pathText (t'.spelling (Tree.pathNames d.path))) m := by
  rw [writeTweak]
  simp only [writeTo, Work.run_bind_eq_ok (x := ExceptT.mk _),
    Work.run_bind_eq_ok (x := Work.ofTree _), Work.run_mk_eq_ok, Work.run_ofTree_eq_ok]
  have hlog : ∀ (u : Tree) (path : String) (m : Tweak.Merged),
      (do m.warning.forM warning; record ⟨path, some m.text⟩; pure u : Work Tree).run.run l =
        (.ok u, l.withFile path m) := by
    rintro u path ⟨text, _ | w⟩
    · simp only [Log.withFile, Option.toList_none, List.append_nil]
      rfl
    · rfl
  constructor
  · rintro ⟨d, k, ⟨hd, rfl⟩, u, k', ⟨hadd, rfl⟩, h⟩
    rcases hm : tweakText x.disk d.origin f.2 with e | m
    · rw [hm] at h
      cases h
    · rw [hm] at h
      cases (hlog u _ m).symm.trans h
      exact ⟨d, m, hd, hadd, hm, rfl⟩
  · rintro ⟨d, m, hd, hadd, hm, rfl⟩
    refine ⟨d, l, ⟨hd, rfl⟩, t', l, ⟨hadd, rfl⟩, ?_⟩
    rw [hm]
    exact hlog t' _ m

/-- A file that fits is written. -/
theorem Fits.exists_writeTweak (h : Fits x t f) (l : Log) :
    ∃ t' l', (writeTweak x f.1 f.2 t).run.run l = (.ok t', l') := by
  have hdest := destination_eq_ok_iff.mpr ⟨h.named, h.extracted, rfl⟩
  have hpath : Tree.pathNames (goal t f.1) ≠ [] := fun hnil =>
    h.path (Tree.place_eq_nil_iff.mpr hnil)
  obtain ⟨t', hadd⟩ := Tree.exists_addFile_iff.mpr ⟨hpath, h.way⟩
  obtain ⟨m, hm⟩ := exists_tweakText_iff.mpr h.readable
  exact ⟨t', _, run_writeTweak_eq_ok.mpr ⟨_, m, hdest, hadd, hm, rfl⟩⟩

/-- A file that was written did fit, and is in the tree at its goal and in the log with its text. -/
theorem of_run_writeTweak {l l' : Log} (h : (writeTweak x f.1 f.2 t).run.run l = (.ok t', l')) :
    Fits x t f ∧ t.addFile (Tree.pathNames (goal t f.1)) = .ok t' ∧
      ∃ c, l'.created = l.created ++ [c] ∧ Tree.place c.path = Tree.place (goal t f.1) ∧
        c.text = text? x t f := by
  obtain ⟨d, m, hd, hadd, hm, rfl⟩ := run_writeTweak_eq_ok.mp h
  obtain ⟨hnamed, hextracted, rfl⟩ := destination_eq_ok_iff.mp hd
  obtain ⟨hne, hopen⟩ := Tree.exists_addFile_iff.mp ⟨t', hadd⟩
  have hreadable := exists_tweakText_iff.mp ⟨m, hm⟩
  have hpath : Tree.place (goal t f.1) ≠ [] := fun hnil => hne (Tree.place_eq_nil_iff.mp hnil)
  have htext : some m.text = text? x t f := by simp [text?, hm, Except.toOption]
  refine ⟨⟨hnamed, hextracted, hreadable, hpath, hopen⟩, hadd,
    ⟨Tree.pathText (t'.spelling (Tree.pathNames (goal t f.1))), some m.text⟩, rfl, ?_, htext⟩
  rw [Tree.place_spelling]

/-! ### One file after another -/

theorem solidAt?_eq_at? (ht : t.Tidy) {name : String} (hne : Tree.place name ≠ []) :
    solidAt? t name = (t.at? (Tree.place name)).filter (·.isSolid) := by
  rw [solidAt?, Tree.find?_eq_at? ht hne]

theorem filter_isSolid_folder {n : String} {i : Tree} (h : i ≠ .nil) :
    (some (Entry.folder n i)).filter (·.isSolid) = some (.folder n i) := by
  cases i with
  | nil => exact absurd rfl h
  | file => rfl
  | folder => rfl

section Step

variable (ht : t.Tidy) (h : t.addFile (Tree.pathNames (goal t f.1)) = .ok t')

include ht h

/-- What is found under the name of a file or of a folder above it was not extracted. -/
theorem not_fits_of_prefix_goal (hg : Tree.place g.1 <+: Tree.place (goal t f.1))
    (hne : Tree.place g.1 ≠ []) : ¬ Fits x t' g := by
  intro hfits
  have hsolid := solidAt?_eq_at? (ht.addFile h) hne
  by_cases he : Tree.place g.1 = Tree.place (goal t f.1)
  · obtain ⟨n, hn⟩ := Tree.at?_addFile h
    rw [he, show t'.at? (Tree.place (goal t f.1)) = _ from hn] at hsolid
    obtain ⟨_, hnumber⟩ := Extracted.exists_number_of_path? (hfits.extracted _ hsolid)
    cases hnumber
  · obtain ⟨n, i, hi, hcontent⟩ := Tree.at?_addFile_above h hg he
    have hfound : solidAt? t' g.1 = some (.folder n i) := by
      rw [hsolid, hi, filter_isSolid_folder hcontent]
    obtain ⟨_, hnumber⟩ := Extracted.exists_number_of_path? (hfits.extracted _ hfound)
    cases hnumber

/-- Under any other name the same is found as before, unless it was in a folder that gave way to the
file.  Such a folder is one of the folder of tweak files, to which the other name then leads. -/
theorem solidAt?_addFile_or (hf : Fits x t f) (hname : '\\' ∉ g.1.toList)
    (hg : ¬ Tree.place g.1 <+: Tree.place (goal t f.1)) :
    solidAt? t' g.1 = solidAt? t g.1 ∨
      Tree.place (goal t f.1) <+: Tree.place g.1 ∧
        ∀ u, Tree.place (goal u g.1) = Tree.place g.1 := by
  have hne : Tree.place g.1 ≠ [] := fun hnil => hg (by rw [hnil]; exact List.nil_prefix)
  have hdiff : Tree.place g.1 ≠ Tree.place (goal t f.1) := fun he => hg (by rw [he])
  rw [solidAt?_eq_at? (ht.addFile h) hne, solidAt?_eq_at? ht hne]
  by_cases hbelow : Tree.place (goal t f.1) <+: Tree.place g.1
  · rw [Tree.at?_addFile_below h hbelow hdiff]
    rcases hold : t.at? (Tree.place g.1) with _ | e
    · exact .inl rfl
    · refine .inr ⟨hbelow, ?_⟩
      obtain ⟨q, hq⟩ := hbelow
      rw [← hq, Tree.at?_append] at hold
      obtain ⟨y, hy, hreach⟩ := Option.bind_eq_some_iff.mp hold
      obtain ⟨n, i, rfl, hcontent⟩ := Entry.exists_folder_of_reach hreach fun hnil =>
        hdiff (by rw [← hq, hnil, List.append_nil])
      obtain hgoal | ⟨-, -, -, hgoal⟩ := place_goal_eq_or t f.1
      · -- the folder would have been found under the file's own name
        have hfound : solidAt? t f.1 = some (.folder n i) := by
          rw [solidAt?_eq_at? ht (by rw [← hgoal]; exact hf.path), ← hgoal, hy,
            filter_isSolid_folder hcontent]
        obtain ⟨_, hnumber⟩ := Extracted.exists_number_of_path? (hf.extracted _ hfound)
        cases hnumber
      · rw [hgoal, List.cons_append] at hq
        exact place_goal_of_inside hname hq.symm
  · exact .inl (by rw [Tree.at?_addFile_of_not h hg hbelow])

/-- Under a name that is not blocked the same is found as before. -/
theorem solidAt?_addFile (hf : Fits x t f) (hname : '\\' ∉ g.1.toList)
    (hb : ¬ Blocks t f.1 g.1) : solidAt? t' g.1 = solidAt? t g.1 := by
  have hg : ¬ Tree.place g.1 <+: Tree.place (goal t f.1) := fun hg => hb (.inl hg)
  obtain hsame | ⟨hbelow, hgoal⟩ := solidAt?_addFile_or ht h hf hname hg
  · exact hsame
  · refine absurd (.inr ?_) hb
    rw [hgoal]
    exact ⟨hbelow, fun he => hg (by rw [he])⟩

theorem not_fits_of_blocks (hf : Fits x t f) (hname : '\\' ∉ g.1.toList)
    (hb : Blocks t f.1 g.1) : ¬ Fits x t' g := by
  intro hfits
  by_cases hg : Tree.place g.1 <+: Tree.place (goal t f.1)
  · exact not_fits_of_prefix_goal ht h hg (hfits.place_ne_nil hname) hfits
  · have hgoal : Tree.place (goal t' g.1) = Tree.place (goal t g.1) := by
      obtain hsame | ⟨-, hgoal⟩ := solidAt?_addFile_or ht h hf hname hg
      · rw [goal_congr hsame]
      · rw [hgoal, hgoal]
    have hway := hfits.way
    rw [hgoal] at hway
    exact ((Tree.open_addFile_iff h).mp hway).2 (hb.resolve_left hg)

/-- Once a file is written, another one fits exactly if it did before and is not blocked. -/
theorem fits_addFile_iff (hf : Fits x t f) (hname : '\\' ∉ g.1.toList) :
    Fits x t' g ↔ Fits x t g ∧ ¬ Blocks t f.1 g.1 := by
  by_cases hb : Blocks t f.1 g.1
  · exact iff_of_false (not_fits_of_blocks ht h hf hname hb) fun hg => hg.2 hb
  · have hsame := solidAt?_addFile ht h hf hname hb
    have hway : t'.Open (Tree.place (goal t g.1)) ↔ t.Open (Tree.place (goal t g.1)) :=
      (Tree.open_addFile_iff h).trans (and_iff_left fun hon => hb (.inr hon))
    constructor
    · rintro ⟨hnamed, hextracted, hreadable, hpath, hopen⟩
      rw [hsame] at hnamed hextracted
      rw [origin?_congr hsame] at hreadable
      rw [goal_congr hsame] at hpath hopen
      exact ⟨⟨hnamed, hextracted, hreadable, hpath, hway.mp hopen⟩, hb⟩
    · rintro ⟨⟨hnamed, hextracted, hreadable, hpath, hopen⟩, -⟩
      rw [← hway, ← goal_congr hsame] at hopen
      rw [← goal_congr hsame] at hpath
      rw [← origin?_congr hsame] at hreadable
      rw [← hsame] at hnamed hextracted
      exact ⟨hnamed, hextracted, hreadable, hpath, hopen⟩

end Step

/-! ### All files -/

theorem blocks_congr {f g : String} (hf : solidAt? t' f = solidAt? t f)
    (hg : solidAt? t' g = solidAt? t g) : Blocks t' f g ↔ Blocks t f g := by
  rw [Blocks, goal_congr hf, goal_congr hg, Blocks]

theorem text?_congr (h : solidAt? t' f.1 = solidAt? t f.1) : text? x t' f = text? x t f := by
  rw [text?, origin?_congr h, text?]

variable {fs gs : List (String × List Tweak)} {l l' : Log}

/-- All files are written exactly if each of them fits at the start and none blocks a later one. -/
theorem exists_writeTweaks_iff (ht : t.Tidy) (hname : ∀ f ∈ fs, '\\' ∉ f.1.toList) (l : Log) :
    (∃ t' l', (writeTweaks x fs t).run.run l = (.ok t', l')) ↔
      (∀ f ∈ fs, Fits x t f) ∧ fs.Pairwise fun f g => ¬ Blocks t f.1 g.1 := by
  induction fs generalizing t l with
  | nil => exact iff_of_true ⟨t, l, rfl⟩ (by simp)
  | cons f fs ih =>
    rw [List.forall_mem_cons] at hname
    simp only [writeTweaks, Work.run_bind_eq_ok, List.forall_mem_cons, List.pairwise_cons]
    constructor
    · rintro ⟨t', l', u, k, hone, hrest⟩
      obtain ⟨hf, hadd, -⟩ := of_run_writeTweak hone
      obtain ⟨hfits, hpair⟩ := (ih (ht.addFile hadd) hname.2 k).mp ⟨t', l', hrest⟩
      have hstep := fun g hg => (fits_addFile_iff ht hadd hf (hname.2 g hg)).mp (hfits g hg)
      have hsame := fun g hg => solidAt?_addFile ht hadd hf (hname.2 g hg) (hstep g hg).2
      refine ⟨⟨hf, fun g hg => (hstep g hg).1⟩, fun g hg => (hstep g hg).2, ?_⟩
      exact hpair.imp_of_mem fun hg hh => mt (blocks_congr (hsame _ hg) (hsame _ hh)).mpr
    · rintro ⟨⟨hf, hfits⟩, hfree, hpair⟩
      obtain ⟨u, k, hone⟩ := hf.exists_writeTweak l
      obtain ⟨-, hadd, -⟩ := of_run_writeTweak hone
      have hsame := fun g hg => solidAt?_addFile ht hadd hf (hname.2 g hg) (hfree g hg)
      obtain ⟨t', l', hrest⟩ := (ih (ht.addFile hadd) hname.2 k).mpr
        ⟨fun g hg => (fits_addFile_iff ht hadd hf (hname.2 g hg)).mpr ⟨hfits g hg, hfree g hg⟩,
          hpair.imp_of_mem fun hg hh => mt (blocks_congr (hsame _ hg) (hsame _ hh)).mp⟩
      exact ⟨t', l', u, k, hone, hrest⟩

/-- After the first file the others are found as at the start. -/
theorem of_run_writeTweaks_cons (ht : t.Tidy) (hname : ∀ g ∈ f :: fs, '\\' ∉ g.1.toList)
    (h : (writeTweaks x (f :: fs) t).run.run l = (.ok t', l')) :
    ∃ u k, (writeTweak x f.1 f.2 t).run.run l = (.ok u, k) ∧ u.Tidy ∧
      (writeTweaks x fs u).run.run k = (.ok t', l') ∧
        ∀ g ∈ fs, solidAt? u g.1 = solidAt? t g.1 := by
  obtain ⟨u, k, hone, hrest⟩ := Work.run_bind_eq_ok.mp h
  obtain ⟨hf, hadd, -⟩ := of_run_writeTweak hone
  obtain ⟨-, hpair⟩ := (exists_writeTweaks_iff ht hname l).mp ⟨t', l', h⟩
  have hfree := (List.pairwise_cons.mp hpair).1
  exact ⟨u, k, hone, ht.addFile hadd, hrest, fun g hg =>
    solidAt?_addFile ht hadd hf (hname g (List.mem_cons_of_mem f hg)) (hfree g hg)⟩

/-- Each file is made at its goal, with its text. -/
theorem created_writeTweaks (ht : t.Tidy) (hname : ∀ f ∈ fs, '\\' ∉ f.1.toList)
    (h : (writeTweaks x fs t).run.run l = (.ok t', l')) :
    ∃ cs, l'.created = l.created ++ cs ∧ cs.map (fun c => (Tree.place c.path, c.text)) =
      fs.map fun f => (Tree.place (goal t f.1), text? x t f) := by
  induction fs generalizing t l with
  | nil =>
    cases h
    exact ⟨[], by simp, rfl⟩
  | cons f fs ih =>
    obtain ⟨u, k, hone, hu, hrest, hsame⟩ := of_run_writeTweaks_cons ht hname h
    obtain ⟨-, -, c, hk, hpath, htext⟩ := of_run_writeTweak hone
    obtain ⟨cs, hl', hcs⟩ := ih hu (List.forall_mem_cons.mp hname).2 hrest
    refine ⟨c :: cs, by rw [hl', hk, List.append_assoc, List.singleton_append], ?_⟩
    rw [List.map_cons, List.map_cons, hcs, hpath, htext]
    refine congrArg _ (List.map_congr_left fun g hg => ?_)
    rw [goal_congr (hsame g hg), text?_congr (hsame g hg)]

end ModWizard.Installer
