import Mathlib.Data.List.Nodup
import ModWizard.DataFile
import ModWizard.Proofs.Host
import ModWizard.Proofs.Tree.Path

/-!
# Which file a path leads to

A script's path names a file by its folder and its name, that is by all its names in any letter case
(`isNamed_iff`).  The virtual data folder is searched for a pattern, though: that name behind a
star.  So a path also leads to a file with a longer name, and to that one first if it stands first
(`resolve?_of_inside`); and a name that holds characters with a meaning of their own in patterns may
not lead to its own file.  Stray files and missed ones are all that can go wrong: without them the
files are found that the paths name, and no others (`lookup_exact_iff`).
-/

namespace ModWizard.DataFile

variable {org : Organizer} {disk : Disk} {path : String} {paths : List String} {f : VirtualFile}

/-- Whether a path is looked up on the disk, because it goes up from the data folder. -/
def goesUp (path : String) : Bool := "..".toList.isPrefixOf path.toList

/-- Whether a file is in the folder of a path. -/
def isBeside (path : String) (f : VirtualFile) : Bool :=
  Text.sameLetters f.folder (folderText (Path.ofString path))

/-- Whether a path names a file: by its folder and its name. -/
def isNamed (path : String) (f : VirtualFile) : Bool :=
  isBeside path f && Text.sameLetters f.name (Path.ofString path).name

/-- Whether a file is found for a path: it is in the folder of the path, and matches the name of the
path behind a star. -/
def isMatched (org : Organizer) (path : String) (f : VirtualFile) : Bool :=
  isBeside path f && org.host.isMatch ("*" ++ (Path.ofString path).name) f.name

/-- Whether the name of a path has no character with a meaning of its own in patterns. -/
def isLiteral (path : String) : Bool := (Path.ofString path).name.toList.all Text.isLiteral

/-- For a literal name, the files in the folder are found whose names end with it. -/
theorem isMatched_of_isLiteral (hg : org.host.Globs) (h : isLiteral path = true) (f : VirtualFile) :
    isMatched org path f =
      (isBeside path f && Text.endsWith f.name (Path.ofString path).name) := by
  rw [isMatched, hg.isMatch_star h]

theorem isMatched_of_isNamed (hg : org.host.Globs) (hp : isLiteral path = true)
    (h : isNamed path f = true) : isMatched org path f = true := by
  rw [isNamed, Bool.and_eq_true] at h
  rw [isMatched_of_isLiteral hg hp, h.1, Bool.true_and, Text.endsWith_iff]
  exact ⟨"", f.name, String.empty_append.symm, h.2⟩

/-! ### Paths and files by their names -/

/-- Whether a text can stand between two slashes. -/
structure Segment (n : String) : Prop where
  ne_empty : n ≠ ""
  no_slash : '/' ∉ n.toList

theorem Segment.lower {n : String} (h : Segment n) : Segment (Text.lower n) where
  ne_empty he := h.ne_empty (Text.lower_eq_empty_iff.mp he)
  no_slash hm := h.no_slash ((Text.mem_lower_iff (by decide) (by decide) (by decide)).mp hm)

theorem segment_of_mem_splitSlashes {s n : String} (h : n ∈ Text.splitSlashes s) (hne : n ≠ "") :
    Segment n := by
  obtain ⟨cs, hcs, rfl⟩ := List.mem_map.mp h
  refine ⟨hne, fun hm => ?_⟩
  rw [String.toList_ofList] at hm
  exact absurd (Text.mem_of_mem_splitAt hcs hm).2 (by decide)

theorem splitSlashes_ne_nil (s : String) : Text.splitSlashes s ≠ [] := by
  rw [Text.splitSlashes, ne_eq, List.map_eq_nil_iff]
  exact Text.splitAt_ne_nil _ _

/-- Different names are written differently. -/
theorem intercalate_inj {ns ms : List String} (hns : ∀ n ∈ ns, Segment n)
    (hms : ∀ m ∈ ms, Segment m) :
    "/".intercalate ns = "/".intercalate ms ↔ ns = ms := by
  refine ⟨fun h => ?_, congrArg _⟩
  have hnames : ∀ ls : List String, (∀ l ∈ ls, Segment l) →
      (Text.splitSlashes ("/".intercalate ls)).filter (· ≠ "") = ls := by
    intro ls hls
    by_cases hnil : ls = []
    · subst hnil; rfl
    · rw [Tree.splitSlashes_intercalate hnil fun l hl => (hls l hl).no_slash, List.filter_eq_self]
      exact fun l hl => decide_eq_true (hls l hl).ne_empty
  rw [← hnames ns hns, h, hnames ms hms]

theorem mem_names_ofString {n : String} (h : n ∈ (Path.ofString path).names) :
    Segment n ∧ n ≠ "." := by
  obtain ⟨hn, hne⟩ := List.mem_filter.mp h
  simp only [Bool.and_eq_true, decide_eq_true_eq] at hne
  exact ⟨segment_of_mem_splitSlashes hn hne.1, hne.2⟩

/-- The folder of a path is written from all its names but the last. -/
theorem folderText_ofString (h : (Path.ofString path).start = .here) :
    folderText (Path.ofString path) = "/".intercalate (Path.ofString path).names.dropLast := by
  have hsegment : ∀ n ∈ (Path.ofString path).names.dropLast, Segment n ∧ n ≠ "." := fun n hn =>
    mem_names_ofString (List.mem_of_mem_dropLast hn)
  rw [folderText, Path.text, Path.parent, h]
  generalize (Path.ofString path).names.dropLast = ns at hsegment
  cases ns with
  | nil => rfl
  | cons n ns =>
    have hdot : "/".intercalate (n :: ns) ≠ "." := by
      intro hdot
      have hone : n :: ns = ["."] :=
        (intercalate_inj (fun m hm => (hsegment m hm).1)
          (List.forall_mem_singleton.mpr ⟨by decide, by decide⟩)).mp hdot
      exact (hsegment n List.mem_cons_self).2 (List.cons.inj hone).1
    simp [Path.Start.text, hdot]

/-- A path from the data folder names a file if its names are those of the file, in any letter
case. -/
theorem isNamed_iff (hpath : (Path.ofString path).start = .here)
    (hf : "" ∉ Text.splitSlashes f.virtual) :
    isNamed path f = true ↔
      (Text.splitSlashes f.virtual).map Text.lower = (Path.ofString path).names.map Text.lower := by
  have hsegment : ∀ n ∈ Text.splitSlashes f.virtual, Segment n := fun n hn =>
    segment_of_mem_splitSlashes hn fun he => hf (he ▸ hn)
  have hnames : ∀ n ∈ (Path.ofString path).names, Segment n := fun n hn => (mem_names_ofString hn).1
  rw [isNamed, isBeside, Bool.and_eq_true, Text.sameLetters_iff, Text.sameLetters_iff,
    folderText_ofString hpath, VirtualFile.folder, VirtualFile.name, Text.lastName, Path.name,
    Text.lower_intercalate, Text.lower_intercalate]
  obtain hnil | ⟨ns, n, hns⟩ := List.eq_nil_or_concat' (Text.splitSlashes f.virtual)
  · exact absurd hnil (splitSlashes_ne_nil _)
  rw [hns] at hsegment ⊢
  have hlower : ∀ ls : List String, (∀ l ∈ ls, Segment l) → ∀ l ∈ ls.map Text.lower, Segment l :=
    fun ls hls => List.forall_mem_map.mpr fun l hl => (hls l hl).lower
  obtain hnil | ⟨ms, m, hms⟩ := List.eq_nil_or_concat' (Path.ofString path).names
  · -- a path of no names has an empty last name, which no file has
    have hlast : Text.lower n ≠ Text.lower "" := (hsegment n (by simp)).lower.ne_empty
    simp [hnil, hlast]
  · rw [hms] at hnames ⊢
    rw [List.dropLast_concat, List.dropLast_concat, List.getLast?_concat, List.getLast?_concat,
      Option.getD_some, Option.getD_some,
      intercalate_inj (hlower ns fun l hl => hsegment l (List.mem_append_left [n] hl))
        (hlower ms fun l hl => hnames l (List.mem_append_left [m] hl))]
    simp

/-! ### One path -/

/-- A path leads to the first file that is found for it. -/
theorem resolve?_of_inside (h : goesUp path = false) :
    resolve? org disk path =
      .ok ((org.files.find? (isMatched org path)).map fun f => Path.ofString f.real) := by
  have hinside : ¬ "..".toList.isPrefixOf path.toList = true := Bool.eq_false_iff.mp h
  have hsearch : search org (folderText (Path.ofString path)) ("*" ++ (Path.ofString path).name) =
      (org.files.filter (isMatched org path)).map (·.real) := rfl
  rw [resolve?, if_neg hinside]
  dsimp only
  rw [hsearch, List.head?_map, List.head?_filter, Option.map_map]
  rfl

/-- That a path leads to a file of another name: the first that is found, where no file that the
path names is in the same real place. -/
def Stray (org : Organizer) (path : String) : Prop :=
  ∃ f, org.files.find? (isMatched org path) = some f ∧
    ∀ g ∈ org.files, isNamed path g = true → Path.ofString g.real ≠ Path.ofString f.real

theorem not_stray_iff :
    ¬ Stray org path ↔ ∀ f, org.files.find? (isMatched org path) = some f →
      ∃ g ∈ org.files, isNamed path g = true ∧ Path.ofString g.real = Path.ofString f.real := by
  simp only [Stray, not_exists, not_and, Classical.not_forall, ne_eq, Decidable.not_not,
    exists_prop]

/-- Where every file is in a real place of its own, the first that is found is stray if it is not
named. -/
theorem stray_iff_of_nodup (h : (org.files.map fun f => Path.ofString f.real).Nodup) :
    Stray org path ↔
      ∃ f, org.files.find? (isMatched org path) = some f ∧ isNamed path f = false := by
  constructor
  · rintro ⟨f, hf, hother⟩
    refine ⟨f, hf, Bool.eq_false_iff.mpr fun hnamed => ?_⟩
    exact hother f (List.mem_of_find?_eq_some hf) hnamed rfl
  · rintro ⟨f, hf, hnamed⟩
    refine ⟨f, hf, fun g hg hg' hreal => ?_⟩
    rw [List.inj_on_of_nodup_map h hg (List.mem_of_find?_eq_some hf) hreal, hnamed] at hg'
    cases hg'

/-! ### Several paths -/

/-- That each of some paths names a file. -/
def AllNamed (org : Organizer) (paths : List String) : Prop :=
  ∀ p ∈ paths, ∃ f ∈ org.files, isNamed p f = true

/-- That a file is found for each of some paths. -/
def AllMatched (org : Organizer) (paths : List String) : Prop :=
  ∀ p ∈ paths, ∃ f ∈ org.files, isMatched org p f = true

/-- All of some paths are found if a file is found for each. -/
theorem allExist_of_inside (h : ∀ p ∈ paths, goesUp p = false) :
    allExist org disk paths = .ok (paths.all fun p => org.files.any (isMatched org p)) := by
  induction paths with
  | nil => rfl
  | cons p ps ih =>
    rw [List.forall_mem_cons] at h
    rw [allExist, resolve?_of_inside h.1, Except.bind, Option.isSome_map, List.isSome_find?, ih h.2,
      List.all_cons]
    cases org.files.any (isMatched org p) <;> rfl

theorem allExist_eq_true_iff (h : ∀ p ∈ paths, goesUp p = false) :
    allExist org disk paths = .ok true ↔ AllMatched org paths := by
  rw [allExist_of_inside h, Except.ok.injEq, List.all_eq_true]
  simp only [List.any_eq_true, AllMatched]

/-- That paths are looked up as they are written: all are found if each names a file, and then each
leads to a file that it names. -/
structure Exact (org : Organizer) (disk : Disk) (paths : List String) : Prop where
  found_iff : allExist org disk paths = .ok true ↔ AllNamed org paths
  leads : allExist org disk paths = .ok true →
    ∀ p ∈ paths, ∃ f ∈ org.files, isNamed p f = true ∧
      resolve? org disk p = .ok (some (Path.ofString f.real))

/-- Paths are looked up exactly unless all lead somewhere and one of them to a stray file, or all
name files and for one of them none is found. -/
theorem exact_iff (h : ∀ p ∈ paths, goesUp p = false) :
    Exact org disk paths ↔
      (AllMatched org paths → ∀ p ∈ paths, ¬ Stray org p) ∧
        (AllNamed org paths → AllMatched org paths) := by
  constructor
  · rintro ⟨hfound, hleads⟩
    refine ⟨fun hmatched p hp ⟨g, hg, hother⟩ => ?_, fun hnamed => ?_⟩
    · obtain ⟨f, hf, hnamed, hresolve⟩ := hleads ((allExist_eq_true_iff h).mpr hmatched) p hp
      rw [resolve?_of_inside (h p hp), hg, Except.ok.injEq, Option.map_some, Option.some.injEq]
        at hresolve
      exact hother f hf hnamed hresolve.symm
    · exact (allExist_eq_true_iff h).mp (hfound.mpr hnamed)
  · rintro ⟨hstray, hmissed⟩
    have hleads : allExist org disk paths = .ok true →
        ∀ p ∈ paths, ∃ f ∈ org.files, isNamed p f = true ∧
          resolve? org disk p = .ok (some (Path.ofString f.real)) := by
      intro hall p hp
      have hmatched := (allExist_eq_true_iff h).mp hall
      obtain ⟨g, hg⟩ := Option.isSome_iff_exists.mp (List.find?_isSome.mpr (hmatched p hp))
      obtain ⟨f, hf, hnamed, hreal⟩ := not_stray_iff.mp (hstray hmatched p hp) g hg
      refine ⟨f, hf, hnamed, ?_⟩
      rw [resolve?_of_inside (h p hp), hg, hreal, Option.map_some]
    refine ⟨⟨fun hall p hp => ?_, fun hnamed => ?_⟩, hleads⟩
    · obtain ⟨f, hf, hnamed, -⟩ := hleads hall p hp
      exact ⟨f, hf, hnamed⟩
    · exact (allExist_eq_true_iff h).mpr (hmissed hnamed)

/-- For literal names, only stray files can go wrong. -/
theorem exact_iff_of_isLiteral (hg : org.host.Globs) (h : ∀ p ∈ paths, goesUp p = false)
    (hp : ∀ p ∈ paths, isLiteral p = true) :
    Exact org disk paths ↔ (AllMatched org paths → ∀ p ∈ paths, ¬ Stray org p) := by
  rw [exact_iff h, and_iff_left]
  intro hnamed p hmem
  obtain ⟨f, hf, hnamed⟩ := hnamed p hmem
  exact ⟨f, hf, isMatched_of_isNamed hg (hp p hmem) hnamed⟩

/-- Where the files that are found for paths are those that they name, nothing goes wrong. -/
theorem exact_of_isMatched_eq (h : ∀ p ∈ paths, goesUp p = false)
    (hsame : ∀ p ∈ paths, ∀ f ∈ org.files, isMatched org p f = isNamed p f) :
    Exact org disk paths := by
  refine (exact_iff h).mpr ⟨fun _ p hp => not_stray_iff.mpr fun f hf => ?_, fun hnamed p hp => ?_⟩
  · have hmem := List.mem_of_find?_eq_some hf
    exact ⟨f, hmem, hsame p hp f hmem ▸ List.find?_some hf, rfl⟩
  · obtain ⟨f, hf, hnamed⟩ := hnamed p hp
    exact ⟨f, hf, (hsame p hp f hf).trans hnamed⟩

namespace Sample

/-- An organizer that knows of some files only. -/
def organizer (files : List VirtualFile) : Organizer :=
  ⟨.plain 9, "Game", "1.0", "1.0", none, none, [], files, ∅, ∅⟩

/-- A file of the name that is asked for, and one of a longer name in another folder. -/
def apart : Organizer := organizer [⟨"ab.esp", "m/ab.esp"⟩, ⟨"textures/b.esp", "n/b.esp"⟩]

/-- A longer name alone. -/
def longer : Organizer := organizer [⟨"ab.esp", "m/ab.esp"⟩]

/-- A longer name before the one that is asked for. -/
def both : Organizer := organizer [⟨"ab.esp", "m/ab.esp"⟩, ⟨"b.esp", "m/b.esp"⟩]

/-- A name that is no pattern for itself. -/
def bracketed : Organizer := organizer [⟨"[a].esp", "m/[a].esp"⟩]

end Sample

/-- Each path leads to the first file in its folder that matches its name behind a star, and all are
found if each leads somewhere.  They are looked up exactly unless all lead somewhere and one of them
to a stray file, or all name files and for one of them none is found.  A file is stray, if no two
are in one real place, where it stands first and is not named.  For a literal name those files are
found that end with it, so none is missed; for any other, those of which an end matches it.  Where
found and named are the same, the look-up is exact.  What a path names, from the data folder on, are
the files that have all its names in any letter case. -/
theorem lookup_exact_iff (org : Organizer) (disk : Disk) (hg : org.host.Globs)
    (h : ∀ p ∈ paths, goesUp p = false) :
    (∀ p ∈ paths, resolve? org disk p =
      .ok ((org.files.find? (isMatched org p)).map fun f => Path.ofString f.real)) ∧
    allExist org disk paths = .ok (paths.all fun p => org.files.any (isMatched org p)) ∧
    (Exact org disk paths ↔
      (AllMatched org paths → ∀ p ∈ paths, ¬ Stray org p) ∧
        (AllNamed org paths → AllMatched org paths)) ∧
    ((org.files.map fun f => Path.ofString f.real).Nodup → ∀ p,
      (Stray org p ↔
        ∃ f, org.files.find? (isMatched org p) = some f ∧ isNamed p f = false)) ∧
    (∀ p f, isMatched org p f = true ↔ isBeside p f = true ∧ ∃ before after,
      f.name = before ++ after ∧ org.host.isMatch (Path.ofString p).name after = true) ∧
    (∀ p, isLiteral p = true → ∀ f, isMatched org p f =
      (isBeside p f && Text.endsWith f.name (Path.ofString p).name)) ∧
    ((∀ p ∈ paths, isLiteral p = true) →
      (Exact org disk paths ↔ (AllMatched org paths → ∀ p ∈ paths, ¬ Stray org p))) ∧
    ((∀ p ∈ paths, ∀ f ∈ org.files, isMatched org p f = isNamed p f) → Exact org disk paths) ∧
    (∀ p f, (Path.ofString p).start = .here → "" ∉ Text.splitSlashes f.virtual →
      (isNamed p f = true ↔
        (Text.splitSlashes f.virtual).map Text.lower =
          (Path.ofString p).names.map Text.lower)) := by
  refine ⟨fun p hp => resolve?_of_inside (h p hp), allExist_of_inside h, exact_iff h,
    fun hn p => stray_iff_of_nodup hn, fun p f => ?_, fun p hp => isMatched_of_isLiteral hg hp,
    exact_iff_of_isLiteral hg h, exact_of_isMatched_eq h, fun p f => isNamed_iff⟩
  rw [isMatched, Bool.and_eq_true, hg.star]

open Sample in
/-- Letter case and spare slashes do not matter, nor does the file in the other folder. -/
theorem lookup_exact_apart :
    apart.host.Globs ∧ goesUp "Textures//B.ESP" = false ∧ isLiteral "Textures//B.ESP" = true ∧
      Exact apart .bare ["Textures//B.ESP"] ∧
      resolve? apart .bare "Textures//B.ESP" = .ok (some (Path.ofString "n/b.esp")) := by
  have hinside : ∀ p ∈ ["Textures//B.ESP"], goesUp p = false := by decide +kernel
  have hsame : ∀ p ∈ ["Textures//B.ESP"], ∀ f ∈ apart.files, isMatched apart p f = isNamed p f := by
    decide +kernel
  have hfind : apart.files.find? (isMatched apart "Textures//B.ESP") =
      some ⟨"textures/b.esp", "n/b.esp"⟩ := by
    decide +kernel
  obtain ⟨hresolve, -, -, -, -, -, -, hexact, -⟩ :=
    lookup_exact_iff apart .bare (globs_plain 9) hinside
  refine ⟨globs_plain 9, hinside _ List.mem_cons_self, by decide +kernel, hexact hsame, ?_⟩
  rw [hresolve _ List.mem_cons_self, hfind, Option.map_some]

open Sample in
/-- A longer name is taken for the one that is asked for, where that is not there and where it comes
later.  A name that is no pattern for itself is not found. -/
theorem lookup_not_exact :
    allExist longer .bare ["b.esp"] = .ok true ∧ ¬ AllNamed longer ["b.esp"] ∧
      ¬ Exact longer .bare ["b.esp"] ∧
    resolve? both .bare "b.esp" = .ok (some (Path.ofString "m/ab.esp")) ∧
      both.files.find? (isNamed "b.esp") = some ⟨"b.esp", "m/b.esp"⟩ ∧
      ¬ Exact both .bare ["b.esp"] ∧
    allExist bracketed .bare ["[a].esp"] = .ok false ∧ AllNamed bracketed ["[a].esp"] ∧
      ¬ Exact bracketed .bare ["[a].esp"] := by
  have hlonger : allExist longer .bare ["b.esp"] = .ok true := by
    rw [allExist_of_inside (by decide +kernel)]
    decide +kernel
  have hbracketed : allExist bracketed .bare ["[a].esp"] = .ok false := by
    rw [allExist_of_inside (by decide +kernel)]
    decide +kernel
  have hunnamed : ¬ AllNamed longer ["b.esp"] := by
    unfold AllNamed
    decide +kernel
  have hnamed : AllNamed bracketed ["[a].esp"] := by
    unfold AllNamed
    decide +kernel
  have hinside : ∀ p ∈ ["b.esp"], goesUp p = false := by decide +kernel
  have hfirst : both.files.find? (isMatched both "b.esp") = some ⟨"ab.esp", "m/ab.esp"⟩ := by
    decide +kernel
  refine ⟨hlonger, hunnamed, fun h => hunnamed (h.found_iff.mp hlonger), ?_, by decide +kernel,
    fun h => ?_, hbracketed, hnamed, fun h => ?_⟩
  · rw [resolve?_of_inside (hinside _ List.mem_cons_self), hfirst, Option.map_some]
  · have hmatched : AllMatched both ["b.esp"] :=
      List.forall_mem_singleton.mpr ⟨_, List.mem_of_find?_eq_some hfirst, List.find?_some hfirst⟩
    refine ((exact_iff hinside).mp h).1 hmatched "b.esp" List.mem_cons_self
      ((stray_iff_of_nodup (by decide +kernel)).mpr ⟨_, hfirst, by decide +kernel⟩)
  · cases (h.found_iff.mpr hnamed).symm.trans hbracketed

end ModWizard.DataFile
