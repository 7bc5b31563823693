import ModWizard.Proofs.Disk.Writing
import ModWizard.Proofs.Installer.Packages

/-!
# Where the files of a mod come from

A file of the merged tree is one of the archive, which its number tells.  It is the file of the last
chosen sub-package that has something at its place (`exists_shippedLast`), or it was renamed from
such a place (`Carried`).  The tweaks of its name are merged into the file whose path stands at its
place among the extracted ones, and that path is its own (`mergesInto_of_run`).  There its content
is read (`read_of_extract`).
-/

namespace ModWizard.Installer

open Tree (Named Proper Whole pathText)

variable {i : Installer} {job : Job} {t t' base archive : Tree} {b : Base} {c : Conversation}
  {disk disk' : Disk} {x : Extracted} {l l' : Log} {o : String} {id : Nat} {room : Nat}
  {p q ns : List String}

/-! ### Extracted files -/

/-- The content of a file of the archive. -/
def Contents.of (contents : Contents) (path : String) : ByteArray :=
  (contents.get? path).getD .empty

theorem proper_extractionFolder : Proper extractionFolder := by decide

theorem extractedPath_pathText (hne : ns ≠ []) (hns : ∀ n ∈ ns, n ≠ "") :
    extractedPath (pathText ns) = pathText (extractionFolder :: ns) := by
  rw [Tree.pathText_eq_intercalate hns, Tree.pathText_eq_intercalate
    (List.forall_mem_cons.mpr ⟨proper_extractionFolder.ne_empty, hns⟩),
    String.intercalate_cons_of_ne_nil hne, extractedPath]

theorem pathText_injective {ms : List String} (hns : ∀ n ∈ ns, Proper n) (hms : ∀ n ∈ ms, Proper n)
    (h : pathText ns = pathText ms) : ns = ms := by
  rw [← Tree.pathNames_pathText fun n hn => (hns n hn).toWhole, h,
    Tree.pathNames_pathText fun n hn => (hms n hn).toWhole]

/-- That a path is written from names that lead down. -/
def Leads (path : String) : Prop := ∃ ns, ns ≠ [] ∧ (∀ n ∈ ns, Proper n) ∧ pathText ns = path

/-- That a file of the archive is stored where it is extracted to, and can be read there. -/
structure Unpacks (contents : Contents) (disk : Disk) (ns : List String) : Prop where
  stored : disk.Stored (extractionFolder :: ns) (contents.of (pathText ns))
  usable : ∀ n ∈ extractionFolder :: ns, Disk.Usable n
  size : (pathText (extractionFolder :: ns)).utf8ByteSize ≤ Disk.maxPath

variable {contents : Contents}

/-- Writing one file of the archive. -/
theorem unpacks_of_write (hne : ns ≠ []) (hns : ∀ n ∈ ns, Proper n)
    (h : (Disk.write room (extractedPath (pathText ns)) (contents.of (pathText ns))).run.run disk =
      (.ok (), disk')) :
    Unpacks contents disk' ns ∧ ∀ ms, Unpacks contents disk ms → Unpacks contents disk' ms := by
  have hproper : ∀ n ∈ extractionFolder :: ns, Proper n :=
    List.forall_mem_cons.mpr ⟨proper_extractionFolder, hns⟩
  rw [extractedPath_pathText hne fun n hn => (hns n hn).ne_empty] at h
  have hms := Disk.milestones_pathText (List.cons_ne_nil _ _) hproper
  obtain ⟨hstored, hothers, husable, hreach⟩ :=
    Disk.stored_of_write (by rw [hms, Disk.map_name_milestonesFrom]) hproper h
  have hthis : Unpacks contents disk' ns := by
    refine ⟨hstored, husable, ?_⟩
    rw [hms] at hreach
    rw [Tree.pathText_eq_intercalate fun n hn => (hproper n hn).ne_empty]
    obtain ⟨m, hm⟩ : ∃ m, (Disk.milestonesFrom 0 (extractionFolder :: ns)).getLast? = some m :=
      ⟨_, List.getLast?_eq_some_getLast (by simp [Disk.milestonesFrom])⟩
    have hsize := Disk.reach_getLast?_milestonesFrom 0 (extractionFolder :: ns) m hm
    rw [Nat.zero_add] at hsize
    exact hsize ▸ hreach m hm
  refine ⟨hthis, fun ms hms => ?_⟩
  by_cases he : ms = ns
  · rw [he]
    exact hthis
  · exact ⟨hothers _ _ hms.stored (by simpa using he), hms.usable, hms.size⟩

/-- Writing some files of the archive, one after the other. -/
theorem unpacks_of_forM {paths : List String} (hpaths : ∀ path ∈ paths, Leads path)
    (h : (paths.forM fun path =>
      Disk.write room (extractedPath path) (contents.of path)).run.run disk = (.ok (), disk')) :
    (∀ ms, Unpacks contents disk ms → Unpacks contents disk' ms) ∧
      ∀ ms, (∀ n ∈ ms, Proper n) → pathText ms ∈ paths → Unpacks contents disk' ms := by
  induction paths generalizing disk with
  | nil =>
    cases h
    exact ⟨fun _ h => h, fun _ _ h => absurd h List.not_mem_nil⟩
  | cons path paths ih =>
    rw [List.forall_mem_cons] at hpaths
    obtain ⟨⟨ns, hne, hns, rfl⟩, hrest⟩ := hpaths
    obtain ⟨_, disk₁, hfirst, hothers⟩ := Disk.Work.run_bind_eq_ok.mp h
    obtain ⟨hkept, hall⟩ := ih hrest hothers
    obtain ⟨hthis, hothers⟩ := unpacks_of_write hne hns hfirst
    refine ⟨fun ms hms => hkept ms (hothers ms hms), fun ms hms hmem => ?_⟩
    obtain he | hmem := List.mem_cons.mp hmem
    · rw [pathText_injective hms hns he]
      exact hkept ns hthis
    · exact hall ms hms hmem

/-- Once files are extracted, each is read under its path with its own content. -/
theorem read_of_extract {paths : List String} (hpaths : ∀ path ∈ paths, Leads path)
    (h : (extract room contents paths).run.run disk = (.ok (), disk')) :
    ∀ path ∈ paths, disk'.read (Path.ofString (extractedPath path)) = .ok (contents.of path) := by
  intro path hpath
  obtain ⟨_, disk₁, -, hwrite⟩ := Disk.Work.run_bind_eq_ok.mp h
  obtain ⟨ns, hne, hns, rfl⟩ := hpaths path hpath
  have hunpacks := (unpacks_of_forM hpaths hwrite).2 ns hns hpath
  rw [extractedPath_pathText hne fun n hn => (hns n hn).ne_empty]
  exact hunpacks.stored.read (List.cons_ne_nil _ _)
    (List.forall_mem_cons.mpr ⟨proper_extractionFolder, hns⟩) hunpacks.usable hunpacks.size

theorem leads_of_mem_toExtract (hn : archive.Named Proper) {endings : List String}
    (h : o ∈ toExtract endings archive) : Leads o := by
  obtain ⟨ns, e, he, -, rfl⟩ := mem_toExtract.mp h
  obtain ⟨hne, hns⟩ := hn.of_mem_walk he
  exact ⟨ns, hne, hns, rfl⟩

theorem leads_of_scriptPath? (habove : ∀ n ∈ b.above, Proper n) (hb : b.tree.Named Proper)
    (h : scriptPath? b = some o) : Leads o := by
  obtain ⟨e, he, rfl⟩ := Option.map_eq_some_iff.mp h
  rw [Tree.find?_of_whole whole_scriptName] at he
  refine ⟨b.above ++ [e.name], by simp, fun n hn => ?_, rfl⟩
  obtain hn | hn := List.mem_append.mp hn
  · exact habove n hn
  · rw [List.mem_singleton.mp hn]
    exact hb.of_mem (List.mem_of_find?_eq_some he)

/-- Each extracted file is read with its own content from where it was extracted to. -/
theorem read_of_mem_entries {script : String} (hx : x.IsOf script archive)
    (hn : archive.Named Proper) (hscript : Leads script)
    (h : (extract room contents (wanted script archive)).run.run disk = (.ok (), x.disk))
    {p : List String × Entry} (hp : p ∈ x.entries) :
    x.disk.read (Path.ofString (extractedPath (pathText p.1))) =
      .ok (contents.of (pathText p.1)) := by
  have hall : ∀ path ∈ wanted script archive, Leads path :=
    List.forall_mem_cons.mpr ⟨hscript, fun o ho => leads_of_mem_toExtract hn ho⟩
  obtain ⟨e, he, hext⟩ := hx.exists_mem_walk hp
  exact read_of_extract hall h _
    (List.mem_cons_of_mem _ (mem_toExtract.mpr ⟨_, e, he, hext, rfl⟩))

/-! ### Pictures -/

/-- The pictures are those of the files whose path, one further, is that of a picture. -/
theorem mem_pictures_iff {r : Path × Path} :
    r ∈ ((x.entries.zip x.paths.tail).filter fun p => isPicture p.2).map
        (fun p => (Path.ofString (pathText p.1.1), Path.ofString p.2)) ↔
      ∃ k : Fin x.entries.length, isPicture (x.pathAt k) = true ∧
        r = (Path.ofString (pathText (x.entries.get k).1), Path.ofString (x.pathAt k)) := by
  simp only [List.mem_map, List.mem_filter]
  constructor
  · rintro ⟨⟨p, path⟩, ⟨hzip, hpicture⟩, rfl⟩
    obtain ⟨k, rfl, rfl⟩ := Extracted.mem_zip_iff.mp hzip
    exact ⟨k, hpicture, rfl⟩
  · rintro ⟨k, hpicture, rfl⟩
    exact ⟨_, ⟨Extracted.mem_zip_iff.mpr ⟨k, rfl, rfl⟩, hpicture⟩, rfl⟩

/-- Files that are looked up by the same path have the same names, and were extracted to the same
path. -/
theorem pathAt_eq_of_ofString_eq {script : String} (hx : x.IsOf script archive)
    (hn : archive.Named Proper) {j k : Fin x.entries.length}
    (h : Path.ofString (pathText (x.entries.get j).1) =
      Path.ofString (pathText (x.entries.get k).1)) : x.pathAt j = x.pathAt k := by
  have hproper : ∀ k : Fin x.entries.length,
      (x.entries.get k).1 ≠ [] ∧ ∀ n ∈ (x.entries.get k).1, Proper n := fun k => by
    obtain ⟨_, he, -⟩ := hx.exists_mem_walk (List.get_mem x.entries k)
    exact hn.of_mem_walk he
  rw [Tree.ofString_pathText (hproper j).1 (hproper j).2,
    Tree.ofString_pathText (hproper k).1 (hproper k).2] at h
  have hnames : (x.entries.get j).1 = (x.entries.get k).1 := (Path.mk.inj h).2
  rw [hx.pathAt_eq, hx.pathAt_eq, hnames]

/-- Each picture is found by its own path in the archive, and has the path to which it was
extracted. -/
theorem get?_imagesOf {script : String} (hx : x.IsOf script archive) (hn : archive.Named Proper)
    {key v : Path} :
    (imagesOf x).get? key = some v ↔
      ∃ k : Fin x.entries.length, isPicture (x.pathAt k) = true ∧
        key = Path.ofString (pathText (x.entries.get k).1) ∧ v = Path.ofString (x.pathAt k) := by
  rw [imagesOf, Table.get?_ofList]
  constructor
  · intro h
    obtain ⟨r, hr, rfl⟩ := Option.map_eq_some_iff.mp h
    obtain ⟨k, hpicture, rfl⟩ :=
      mem_pictures_iff.mp (List.mem_reverse.mp (List.mem_of_find?_eq_some hr))
    have hkey := List.find?_some hr
    exact ⟨k, hpicture, (beq_iff_eq.mp hkey).symm, rfl⟩
  · rintro ⟨k, hpicture, rfl, rfl⟩
    have hthere := mem_pictures_iff.mpr ⟨k, hpicture, rfl⟩
    have hsome := List.find?_isSome
      (p := (·.1 == Path.ofString (pathText (x.entries.get k).1))).mpr
      ⟨_, List.mem_reverse.mpr hthere, beq_self_eq_true _⟩
    obtain ⟨r, hr⟩ := Option.isSome_iff_exists.mp hsome
    obtain ⟨j, -, rfl⟩ := mem_pictures_iff.mp (List.mem_reverse.mp (List.mem_of_find?_eq_some hr))
    have hkey := List.find?_some hr
    rw [hr, Option.map_some, pathAt_eq_of_ofString_eq hx hn (beq_iff_eq.mp hkey)]

/-! ### Merged files -/

/-- The place of a sub-package in the archive. -/
def packagePlace (b : Base) (n : String) : List String := b.above.map Text.lower ++ [Text.lower n]

/-- That some names lead to what the last of some sub-packages that has anything at a place has
there. -/
def ShippedLast (archive : Tree) (b : Base) (packages q ns : List String) : Prop :=
  ∃ before n after, packages = before ++ n :: after ∧
    ns.map Text.lower = packagePlace b n ++ q ∧
    ∀ m ∈ after, archive.kindAt? (packagePlace b m ++ q) = none

/-- A file of the merged tree is one of the last sub-package that has something there. -/
theorem exists_last_of_foldl {packages : List String} {k : Option Nat}
    (hb : base.Tidy) (hp : p ≠ [])
    (hfolder : ∀ n ∈ packages, ∃ m inner, base.entryAt? (Text.lower n) = some (.folder m inner) ∧
      contentAt? base n = if inner = .nil then none else some inner)
    (h : ((packages.filterMap (contentAt? base)).foldl Tree.merge t).kindAt? p = some (.file k)) :
    (∃ before n after, packages = before ++ n :: after ∧
      base.kindAt? (Text.lower n :: p) = some (.file k) ∧
      ∀ m ∈ after, base.kindAt? (Text.lower m :: p) = none) ∨
    t.kindAt? p = some (.file k) ∧ ∀ n ∈ packages, base.kindAt? (Text.lower n :: p) = none := by
  induction packages generalizing t with
  | nil => exact .inr ⟨h, by simp⟩
  | cons n packages ih =>
    rw [List.forall_mem_cons] at hfolder ⊢
    obtain ⟨m, inner, hentry, hcontent⟩ := hfolder.1
    have hinner : ∀ ks, base.kindAt? (Text.lower n :: ks) = inner.kindAt? ks :=
      Tree.kindAt?_cons_of_folder hentry
    rw [List.filterMap_cons, hcontent] at h
    by_cases hnil : inner = .nil
    · have hnone : base.kindAt? (Text.lower n :: p) = none := by
        obtain ⟨k, ks, rfl⟩ := List.exists_cons_of_ne_nil hp
        rw [hinner, hnil]
        rfl
      rw [if_pos hnil] at h
      obtain ⟨before, n', after, rfl, hlast⟩ | ⟨ht, hrest⟩ := ih hfolder.2 h
      · exact .inl ⟨n :: before, n', after, rfl, hlast⟩
      · exact .inr ⟨ht, hnone, hrest⟩
    · rw [if_neg hnil, List.foldl_cons] at h
      obtain ⟨before, n', after, rfl, hlast⟩ | ⟨ht, hrest⟩ := ih hfolder.2 h
      · exact .inl ⟨n :: before, n', after, rfl, hlast⟩
      · obtain ht | ⟨hnone, ht⟩ := Tree.kindAt?_merge_file (hb.of_entryAt? hentry) ht
        · exact .inl ⟨[], n, packages, rfl, (hinner p).trans ht, hrest⟩
        · exact .inr ⟨ht, (hinner p).trans hnone, hrest⟩

/-! ### Renamed files -/

/-- How a file comes from one place to another while entries are renamed one after the other. -/
inductive Carried : Tree → List (String × String) → List String → List String → Prop
  | done (t : Tree) (p : List String) : Carried t [] p p
  /-- there is nothing to rename -/
  | missing {t : Tree} {old new : String} {rs : List (String × String)} {q p : List String}
      (hold : solidAt? t old = none) (h : Carried t rs q p) : Carried t ((old, new) :: rs) q p
  /-- something else is renamed, or nothing because the new name is taken -/
  | stays {t t' : Tree} {old new : String} {e : Entry} {rs : List (String × String)}
      {q p : List String} (hold : solidAt? t old = some e)
      (hmove : t.move (Tree.pathNames old) e new = .ok t')
      (hout : t' = t ∨ ¬ Tree.place old <+: q) (h : Carried t' rs q p) :
      Carried t ((old, new) :: rs) q p
  /-- the file is renamed, or a folder that it is in -/
  | moved {t t' : Tree} {old new : String} {e : Entry} {rs : List (String × String)}
      {r p : List String} (hold : solidAt? t old = some e)
      (hmove : t.move (Tree.pathNames old) e new = .ok t')
      (h : Carried t' rs ((Tree.targetNames e new).map Text.lower ++ r) p) :
      Carried t ((old, new) :: rs) (Tree.place old ++ r) p

theorem place_ne_nil_of_solidAt? {name : String} {e : Entry} (h : solidAt? t name = some e) :
    Tree.place name ≠ [] := fun hnil => by
  rw [solidAt?, Tree.find?, Tree.place_eq_nil_iff.mp hnil] at h
  cases h

theorem at?_of_solidAt? (ht : t.Tidy) {name : String} {e : Entry} (h : solidAt? t name = some e) :
    t.at? (Tree.place name) = some e := by
  rw [solidAt?_eq_at? ht (place_ne_nil_of_solidAt? h)] at h
  exact (Option.filter_eq_some_iff.mp h).1

/-- Each file of the tree with entries renamed was carried there. -/
theorem exists_carried {rs : List (String × String)} {k : Option Nat} (ht : t.Tidy)
    (h : (renameAll rs t).run.run l = (.ok t', l')) (hp : t'.kindAt? p = some (.file k)) :
    ∃ q, Carried t rs q p ∧ t.kindAt? q = some (.file k) := by
  induction rs generalizing t l with
  | nil =>
    cases h
    exact ⟨p, .done _ p, hp⟩
  | cons r rs ih =>
    obtain ⟨old, new⟩ := r
    rw [renameAll] at h
    split at h
    next e he =>
      obtain ⟨u, m, hu, hrest⟩ := Work.run_bind_eq_ok.mp h
      have hmove := (Work.run_ofTree_eq_ok.mp hu).1
      have hat := at?_of_solidAt? ht he
      have hu := ht.move (ht.of_findFrom? (Option.filter_eq_some_iff.mp he).1) hmove
      obtain ⟨q, hq, hafter⟩ := ih hu hrest
      have hne : Tree.pathNames old ≠ [] := fun hnil =>
        place_ne_nil_of_solidAt? he (Tree.place_eq_nil_iff.mpr hnil)
      obtain ⟨hfile, hout⟩ | ⟨r, rfl, hfile⟩ := Tree.kindAt?_move_file ht hne hat hmove hafter
      · exact ⟨q, .stays he hmove hout hq, hfile⟩
      · exact ⟨_, .moved he hmove hq, hfile⟩
    next hnone =>
      obtain ⟨_, m, -, hrest⟩ := Work.run_bind_eq_ok.mp h
      obtain ⟨q, hq, hfile⟩ := ih ht hrest
      exact ⟨q, .missing hnone hq, hfile⟩

theorem tidy_of_writeTweaks {fs : List (String × List Tweak)} (ht : t.Tidy)
    (h : (writeTweaks x fs t).run.run l = (.ok t', l')) : t'.Tidy := by
  induction fs generalizing t l with
  | nil =>
    cases h
    exact ht
  | cons f fs ih =>
    obtain ⟨u, m, hone, hrest⟩ := Work.run_bind_eq_ok.mp h
    exact ih (ht.addFile (of_run_writeTweak hone).2.1) hrest

/-- Tweak files have no number: all files with one were there before. -/
theorem kindAt?_of_writeTweaks {fs : List (String × List Tweak)}
    (h : (writeTweaks x fs t).run.run l = (.ok t', l'))
    (hp : t'.kindAt? p = some (.file (some id))) : t.kindAt? p = some (.file (some id)) := by
  induction fs generalizing t l with
  | nil =>
    cases h
    exact hp
  | cons f fs ih =>
    obtain ⟨u, m, hone, hrest⟩ := Work.run_bind_eq_ok.mp h
    obtain ⟨-, hadd, -⟩ := of_run_writeTweak hone
    have hu := ih hrest
    rw [Tree.kindAt?_addFile hadd] at hu
    split at hu
    next => cases hu
    next =>
      split at hu
      next => cases hu
      next =>
        split at hu
        next => cases hu
        next => exact hu

/-! ### Tweaks and the files they are merged into -/

/-- A tweak file for an extracted file is made from what is merged into that file. -/
theorem exists_created_of_destination {name : String} {ts : List Tweak}
    (hgoal : destination x t name = .ok ⟨some o, name⟩)
    (h : (writeTweak x name ts t).run.run l = (.ok t', l')) :
    ∃ m path, Tweak.merge ts x.disk (Path.ofString o) = .ok m ∧
      Tree.place path = Tree.place name ∧ l'.created = l.created ++ [⟨path, some m.text⟩] := by
  obtain ⟨d, m, hd, -, hm, rfl⟩ := (run_writeTweak_eq_ok (f := (name, ts))).mp h
  cases hgoal.symm.trans hd
  refine ⟨m, _, ?_, Tree.place_spelling _ _, rfl⟩
  rw [tweakText] at hm
  split at hm
  next hmerge =>
    cases hm
    exact hmerge
  next => cases hm

/-- That a tweak file goes to the place of an extracted file and is merged into that file's own
content: the file that the tree has there, from the last sub-package that has something at the place
it comes from. -/
structure MergesInto (job : Job) (c : Conversation) (plan : Plan) (t : Tree) (name : String)
    (k : Fin c.entries.length) : Prop where
  entry : ∃ e, solidAt? t name = some e ∧ (c.entries.get k).2.isSame e = true
  goal : destination c.toExtracted t name = .ok ⟨some (c.pathAt k), name⟩
  content : c.disk.read (Path.ofString (c.pathAt k)) =
    .ok (job.contents.of (pathText (c.entries.get k).1))
  merged : ∀ ts t' l l', (writeTweak c.toExtracted name ts t).run.run l = (.ok t', l') →
    ∃ m path, Tweak.merge ts c.disk (Path.ofString (c.pathAt k)) = .ok m ∧
      Tree.place path = Tree.place name ∧ l'.created = l.created ++ [⟨path, some m.text⟩]
  shipped : ∃ q, Carried (mergedTree c.base.tree plan.packages) plan.renames.entries q
    (Tree.place name) ∧ ShippedLast job.archive c.base plan.packages q (c.entries.get k).1

/-- The merged tree has a file of the last sub-package that has something at its place. -/
theorem exists_shippedLast {org : Organizer} {packages : List String} (ht : archive.Tidy)
    (hn : archive.Named Whole) (hb : base? (mark archive) = some b)
    (hsub : packages.Sublist ((Package.all org b.above b.tree).map (·.name)))
    (h : (mergedTree b.tree packages).kindAt? q = some (.file (some id))) :
    ∃ ns n, (ns, .file n (some id)) ∈ (mark archive).walk ∧
      ShippedLast archive b packages q ns := by
  have htidy := tidy_of_base? ht hb
  have hwhole := (named_of_base? hn hb).2
  have hplace : ∀ n p, (mark archive).kindAt? (packagePlace b n ++ p) =
      b.tree.kindAt? (Text.lower n :: p) := fun n p => by
    rw [packagePlace, List.append_assoc, kindAt?_of_base? hb, List.singleton_append]
  have hq : q ≠ [] := fun he => by
    rw [he] at h
    cases h
  have hfolder : ∀ n ∈ packages, ∃ m inner,
      b.tree.entryAt? (Text.lower n) = some (.folder m inner) ∧
        contentAt? b.tree n = if inner = .nil then none else some inner := fun n hmem => by
    obtain ⟨inner, hinner⟩ := find?_of_sublist htidy hwhole hsub n hmem
    rw [← Tree.find?_of_whole (whole_of_sublist hwhole hsub n hmem)]
    exact ⟨n, inner, hinner, contentAt?_of_folder hinner⟩
  obtain ⟨before, n, after, hsplit, hfile, hlast⟩ | ⟨hnil, -⟩ :=
    exists_last_of_foldl htidy hq hfolder h
  · rw [← hplace] at hfile
    obtain ⟨ns, m, hwalk, hns⟩ := exists_mem_walk_of_kindAt? hfile
    refine ⟨ns, m, hwalk, before, n, after, hsplit, hns, fun m hm => ?_⟩
    exact kindAt?_eq_none_of_markFrom ((hplace m q).trans (hlast m hm))
  · obtain ⟨k, ks, rfl⟩ := List.exists_cons_of_ne_nil hq
    cases hnil

/-- A file that is found in the tree once some tweak files are written goes back through these, the
renamings and the merges to a file of the archive. -/
theorem exists_carried_shippedLast {org : Organizer} {plan : Plan}
    {fs : List (String × List Tweak)} {name n : String} (ht : archive.Tidy)
    (hw : archive.Named Whole) (hbase : base? (mark archive) = some b)
    (hsub : plan.packages.Sublist ((Package.all org b.above b.tree).map (·.name)))
    (h : (mergePackages plan.packages b.tree .nil >>= renameAll plan.renames.entries >>=
      writeTweaks x fs).run.run ⟨[], [], []⟩ = (.ok t, l))
    (hfile : solidAt? t name = some (.file n (some id))) :
    ∃ q, Carried (mergedTree b.tree plan.packages) plan.renames.entries q (Tree.place name) ∧
      ∃ ns m, (ns, .file m (some id)) ∈ (mark archive).walk ∧
        ShippedLast archive b plan.packages q ns := by
  have hb : b.tree.Tidy := tidy_of_base? ht hbase
  have hwhole := whole_of_sublist (named_of_base? hw hbase).2 hsub
  obtain ⟨renamed, l₂, hrun, htweaks⟩ := Work.run_bind_eq_ok.mp h
  obtain ⟨merged, l₁, hmerge, hrename⟩ := Work.run_bind_eq_ok.mp hrun
  have hmerged : mergedTree b.tree plan.packages = merged :=
    Except.ok.inj (Prod.mk.inj
      ((mergePackages_eq hb hwhole (nodup_key_of_sublist hb hsub)).symm.trans hmerge)).1
  have hmergedTidy := tidy_of_mergePackages hb Tree.tidy_nil hmerge
  have htidy := tidy_of_writeTweaks (tidy_of_renameAll hmergedTidy hrename) htweaks
  have hat : t.kindAt? (Tree.place name) = some (.file (some id)) := by
    rw [Tree.kindAt?, at?_of_solidAt? htidy hfile]
    rfl
  obtain ⟨q, hcarried, hq⟩ :=
    exists_carried hmergedTidy hrename (kindAt?_of_writeTweaks htweaks hat)
  rw [← hmerged] at hcarried hq
  exact ⟨q, hcarried, exists_shippedLast ht hw hbase hsub hq⟩

/-- The tweaks of a name are merged into the file that the tree has under it, if that is found among
the extracted files. -/
theorem mergesInto_of_run {org : Organizer} {plan : Plan} {fs : List (String × List Tweak)}
    {name script : String} {e : Entry} {k : Fin c.entries.length} (ht : job.archive.Tidy)
    (hw : job.archive.Named Whole) (hbase : base? (mark job.archive) = some c.base)
    (hx : c.IsOf script job.archive)
    (hsub : plan.packages.Sublist ((Package.all org c.base.above c.base.tree).map (·.name)))
    (hread : c.disk.read (Path.ofString (c.pathAt k)) =
      .ok (job.contents.of (pathText (c.entries.get k).1)))
    (h : (mergePackages plan.packages c.base.tree .nil >>= renameAll plan.renames.entries >>=
      writeTweaks c.toExtracted fs).run.run ⟨[], [], []⟩ = (.ok t, l))
    (he : solidAt? t name = some e) (hk : c.index? e = some k) :
    MergesInto job c plan t name k := by
  have hsame := Extracted.isSame_of_index? hk
  have hgoal : destination c.toExtracted t name = .ok ⟨some (c.pathAt k), name⟩ := by
    rw [destination, he]
    simp only [Extracted.path?, hk, Option.map_some]
  refine ⟨⟨e, he, hsame⟩, hgoal, hread, fun _ _ _ _ => exists_created_of_destination hgoal, ?_⟩
  obtain ⟨id, hid, hid'⟩ := Entry.isSame_iff.mp hsame
  obtain ⟨n, rfl⟩ : ∃ n, e = .file n (some id) := by
    cases e with
    | file n id' => exact ⟨n, congrArg (Entry.file n) hid'⟩
    | folder => cases hid'
  obtain ⟨q, hcarried, ns, m, hwalk, hlast⟩ :=
    exists_carried_shippedLast ht hw hbase hsub h he
  -- no other file of the archive has this number
  have hentry : c.entries.get k = (ns, .file m (some id)) :=
    eq_of_number? (hx.mem_walk_mark (List.get_mem ..)) hwalk hid rfl
  refine ⟨q, hcarried, ?_⟩
  rw [hentry]
  exact hlast

namespace Shadowing

/-- A script that ends at once, renames a file and gives tweaks to two. -/
def script : Script where
  start := "e"
  nodes := .ofList [("e", ⟨"e", .done ⟨["A", "B"], [], [], .ofList [("t.ini", "u.ini")],
    .ofList [("s.ini", [.edit ⟨"set", "a", .int 5, none⟩]),
      ("u.ini", [.edit ⟨"set", "b", .int 6, none⟩])]⟩ none⟩)]

/-- Two sub-packages that ship a file of the same name, and one that is not chosen. -/
def shipment : Job where
  name := ⟨"Mod", ["Mod"]⟩
  archive := .file "wizard.txt" none
    (.folder "A" (.file "S.ini" none (.file "t.ini" none .nil))
      (.folder "B" (.file "s.ini" none (.file "p.png" none .nil))
        (.folder "C" (.file "s.ini" none (.file "t.ini" none .nil)) .nil)))
  contents := .ofList [("A/S.ini", "set a to 1".toByteArray), ("A/t.ini", "set b to 2".toByteArray),
    ("B/s.ini", "set a to 3".toByteArray), ("C/s.ini", "set a to 4".toByteArray)]
  missing := 0
  script := script
  events := [.act .next]

def installer : Installer where
  organizer := ⟨.plain 9, "Game", "1.0", "1.0", none,
    some (.ofList [("A", .valid), ("B", .valid), ("C", .valid)]), [], [], ∅, ∅⟩
  memory := some ⟨false, ∅⟩
  disk := .bare

def talk : Conversation := (conversation? installer shipment).get (by decide +kernel)

def plan : Plan where
  packages := ["A", "B"]
  renames := .ofList [("t.ini", "u.ini")]
  tweaks := .ofList [("s.ini", [.edit ⟨"set", "a", .int 5, none⟩]),
    ("u.ini", [.edit ⟨"set", "b", .int 6, none⟩])]

/-- What comes of the plan up to some of its tweak files. -/
def outcome (k : Nat) : Except Fault Tree × Log :=
  (mergePackages plan.packages talk.base.tree .nil >>= renameAll plan.renames.entries >>=
    writeTweaks talk.toExtracted (plan.tweaks.entries.take k)).run.run ⟨[], [], []⟩

/-- The tree to which the first tweak file is written. -/
def first : Tree := (outcome 0).1.toOption.get (by decide +kernel)

/-- The tree to which the second one is written. -/
def second : Tree := (outcome 1).1.toOption.get (by decide +kernel)

end Shadowing

/-- In an accepted installation the files of the archive that are extracted stand in a list, and
their paths in another, one further.  A tweak file that is found in the tree as one of these files
is merged into the content of that very file, from the path at its place.  One that is found but is
not among them is an error.  Every picture has the path to which it was extracted itself. -/
theorem tweaks_merged_into_own_file (ht : job.archive.Tidy) (hn : job.archive.Named Proper)
    (hc : conversation? i job = some c) (hv : c.session.verdict = .ok .accepted) :
    (∃ plan, planOf c.session.dialog = .ok plan ∧
      plan.packages.Sublist ((Package.all i.organizer c.base.above c.base.tree).map (·.name)) ∧
      ∀ before f after, plan.tweaks.entries = before ++ f :: after → ∀ t l,
        (mergePackages plan.packages c.base.tree .nil >>= renameAll plan.renames.entries >>=
          writeTweaks c.toExtracted before).run.run ⟨[], [], []⟩ = (.ok t, l) →
        ∀ e, solidAt? t f.1 = some e →
          (∀ k, (c.entries.get k).2.isSame e = true → MergesInto job c plan t f.1 k) ∧
          ((∀ k, (c.entries.get k).2.isSame e = false) →
            destination c.toExtracted t f.1 = .error .notExtracted)) ∧
    (∀ key v,
      (setupOf i.organizer c.base c.toExtracted job c.memory.answers).images.get? key = some v ↔
        ∃ k : Fin c.entries.length, isPicture (c.pathAt k) = true ∧
          key = Path.ofString (pathText (c.entries.get k).1) ∧ v = Path.ofString (c.pathAt k)) ∧
    (∀ k : Fin c.entries.length,
      c.pathAt k = extractedPath (pathText (c.entries.get k).1) ∧
      c.disk.read (Path.ofString (c.pathAt k)) =
        .ok (job.contents.of (pathText (c.entries.get k).1))) ∧
    c.entries = entriesToExtract extractedEndings (mark job.archive) ∧
    ∃ script, scriptPath? c.base = some script ∧ c.script = extractedPath script ∧
      found job.missing ((wanted script job.archive).map extractedPath) = c.paths := by
  obtain ⟨hbase, -⟩ := session_of_conversation? hc
  obtain ⟨script, hscript, hextract, hfound, hx⟩ := exists_script_of_conversation? hc
  have hw : job.archive.Named Whole := hn.mono fun _ h => h.toWhole
  obtain ⟨habove, hnames⟩ := named_of_base? hn hbase
  have hread : ∀ k : Fin c.entries.length, c.disk.read (Path.ofString (c.pathAt k)) =
      .ok (job.contents.of (pathText (c.entries.get k).1)) := fun k => by
    rw [hx.pathAt_eq]
    exact read_of_mem_entries hx hn (leads_of_scriptPath? habove hnames hscript) hextract
      (List.get_mem ..)
  refine ⟨?_, fun key v => get?_imagesOf hx hn, fun k => ⟨hx.pathAt_eq k, hread k⟩, hx.entries_eq,
    script, hscript, hx.script_eq, hfound.trans hx.paths_eq.symm⟩
  obtain ⟨plan, hplan, hsub⟩ := exists_sublist_of_accepted hc hv
  refine ⟨plan, hplan, hsub, fun before f after _ t l hrun e he =>
    ⟨fun k hk => ?_, fun hnone => ?_⟩⟩
  · exact mergesInto_of_run ht hw hbase hx hsub (hread k) hrun he
      ((Extracted.index?_eq_some_iff hx.told).mpr hk)
  · rw [destination, he]
    simp only [Extracted.path?, Extracted.index?_eq_none_iff.mpr hnone, Option.map_none]

open Shadowing in
/-- The first tweak file is merged into the file of the later sub-package, the second into one that
was renamed. -/
theorem tweaks_merged_shadowing :
    shipment.archive.Tidy ∧ shipment.archive.Named Proper ∧
      conversation? installer shipment = some talk ∧ talk.session.verdict = .ok .accepted ∧
      talk.entries.map (fun p => pathText p.1) =
        ["A/S.ini", "A/t.ini", "B/s.ini", "B/p.png", "C/s.ini", "C/t.ini"] ∧
      MergesInto shipment talk plan first "s.ini" ⟨2, by decide +kernel⟩ ∧
      MergesInto shipment talk plan second "u.ini" ⟨1, by decide +kernel⟩ := by
  have ht : shipment.archive.Tidy := by decide +kernel
  have hn : shipment.archive.Named Proper := by decide +kernel
  have hc : conversation? installer shipment = some talk := (Option.some_get _).symm
  have hv : talk.session.verdict = .ok .accepted := by decide +kernel
  have hplan : planOf talk.session.dialog = .ok plan := by decide +kernel
  have hrun : ∀ {k t}, (outcome k).1.toOption = some t → ∃ l, outcome k = (.ok t, l) :=
    Work.toOption_eq_some.mp
  obtain ⟨l₁, hfirst⟩ := hrun (k := 0) (t := first) (Option.some_get _).symm
  obtain ⟨l₂, hsecond⟩ := hrun (k := 1) (t := second) (Option.some_get _).symm
  obtain ⟨⟨plan', hplan', -, hmerges⟩, -⟩ := tweaks_merged_into_own_file ht hn hc hv
  rw [hplan] at hplan'
  cases hplan'
  refine ⟨ht, hn, hc, hv, by decide +kernel, ?_, ?_⟩
  · exact (hmerges [] _ _ rfl first l₁ hfirst (.file "s.ini" (some 3)) (by decide +kernel)).1 _
      (by decide +kernel)
  · exact (hmerges [_] _ [] rfl second l₂ hsecond (.file "u.ini" (some 2)) (by decide +kernel)).1 _
      (by decide +kernel)

end ModWizard.Installer
