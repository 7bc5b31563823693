import Mathlib.Data.List.Basic
import ModWizard.Proofs.Installer.Archive

/-!
# Files and the paths to which they were extracted

A file is looked up among those that were extracted, and the path that stands at its place, one
further, is taken for its own.  The files are told from each other by their numbers, so the place
that is found is that of the file itself (`index?_eq_some_iff`), and the path at that place is the
one to which the file was extracted (`IsOf.pathAt_eq`).  Pictures are paired with their paths by the
places of both lists, which comes to the same (`mem_zip_iff`).
-/

namespace ModWizard.Installer

open Tree (pathText)

/-- The paths of the files of an archive that are extracted, that of the script first. -/
def wanted (script : String) (archive : Tree) : List String :=
  script :: toExtract extractedEndings archive

namespace Extracted

variable {x : Extracted} {e : Entry} {script : String} {archive : Tree}

/-! ### Places -/

/-- That no two of the files are the same. -/
def Told (x : Extracted) : Prop :=
  x.entries.Pairwise fun p q => ∀ i, p.2.number? = some i → q.2.number? ≠ some i

/-- Files and paths are paired exactly if there are as many as there should be. -/
theorem isSome_of?_iff (disk : Disk) (entries : List (List String × Entry)) (paths : List String) :
    (of? disk entries paths).isSome = true ↔ paths.length = entries.length + 1 := by
  rw [of?]
  split <;> simp [*]

/-- What is found at a place is the same file. -/
theorem isSame_of_index? {k : Fin x.entries.length} (h : x.index? e = some k) :
    (x.entries.get k).2.isSame e = true :=
  (List.findFinIdx?_eq_some_iff.mp h).1

/-- A file has a place if it is one of those that were extracted. -/
theorem isSome_index?_iff :
    (x.index? e).isSome = true ↔ ∃ p ∈ x.entries, p.2.isSame e = true := by
  rw [index?, List.isSome_findFinIdx?, List.any_eq_true]

/-- If no two files are the same, a file has the place at which it stands. -/
theorem index?_eq_some_iff (h : x.Told) {k : Fin x.entries.length} :
    x.index? e = some k ↔ (x.entries.get k).2.isSame e = true := by
  refine ⟨isSame_of_index?, fun hk => ?_⟩
  refine List.findFinIdx?_eq_some_iff.mpr ⟨hk, fun j hj hsame => ?_⟩
  obtain ⟨i, hi, he⟩ := Entry.isSame_iff.mp hsame
  obtain ⟨i', hi', he'⟩ := Entry.isSame_iff.mp hk
  cases he.symm.trans he'
  exact List.pairwise_iff_getElem.mp h j k (Nat.lt_trans hj k.isLt) k.isLt hj i hi hi'

theorem index?_eq_none_iff :
    x.index? e = none ↔ ∀ k : Fin x.entries.length, (x.entries.get k).2.isSame e = false := by
  rw [index?, List.findFinIdx?_eq_none_iff, List.forall_mem_iff_get]
  simp only [Bool.not_eq_true]

/-- Only files with a number were extracted. -/
theorem exists_number_of_path? (h : (x.path? e).isSome = true) : ∃ i, e.number? = some i := by
  rw [path?, Option.isSome_map, isSome_index?_iff] at h
  obtain ⟨p, -, hsame⟩ := h
  obtain ⟨i, -, he⟩ := Entry.isSame_iff.mp hsame
  exact ⟨i, he⟩

theorem paths_eq_cons (x : Extracted) : x.paths = x.script :: x.paths.tail := by
  have hlength := x.length_paths
  cases hpaths : x.paths with
  | nil => simp [hpaths] at hlength
  | cons p ps => simp [script, hpaths]

theorem getElem?_tail_paths (k : Fin x.entries.length) :
    x.paths.tail[k.val]? = some (x.pathAt k) := by
  rw [List.getElem?_tail, List.getElem?_eq_some_iff]
  exact ⟨_, rfl⟩

/-- Files and paths are paired by their places. -/
theorem mem_zip_iff {p : List String × Entry} {path : String} :
    (p, path) ∈ x.entries.zip x.paths.tail ↔
      ∃ k : Fin x.entries.length, p = x.entries.get k ∧ path = x.pathAt k := by
  rw [List.mem_iff_getElem?]
  simp only [List.getElem?_zip_eq_some]
  constructor
  · rintro ⟨j, hj, hpath⟩
    obtain ⟨hlt, hp⟩ := List.getElem?_eq_some_iff.mp hj
    refine ⟨⟨j, hlt⟩, hp.symm, ?_⟩
    exact Option.some.inj (hpath.symm.trans (getElem?_tail_paths ⟨j, hlt⟩))
  · rintro ⟨k, rfl, rfl⟩
    exact ⟨k, List.getElem?_eq_getElem k.isLt, getElem?_tail_paths k⟩

/-! ### The files of an archive -/

/-- That the files of an archive were extracted, those that were wanted and all of them. -/
structure IsOf (x : Extracted) (script : String) (archive : Tree) : Prop where
  entries_eq : x.entries = entriesToExtract extractedEndings (mark archive)
  paths_eq : x.paths = (wanted script archive).map extractedPath

variable (h : x.IsOf script archive)

include h

/-- All files of an archive have numbers of their own. -/
theorem IsOf.told : x.Told := by
  have hsub : (entriesToExtract extractedEndings (mark archive)).Sublist (mark archive).walk :=
    List.filter_sublist
  have hnodup := (numbers_mark archive).sublist (hsub.filterMap _)
  rw [Told, h.entries_eq]
  refine (List.pairwise_filterMap.mp hnodup).imp fun hne i hi hi' => ?_
  exact hne i hi i hi' rfl

theorem IsOf.script_eq : x.script = extractedPath script := by
  have hpaths := x.paths_eq_cons
  rw [h.paths_eq] at hpaths
  exact (List.cons.inj hpaths).1.symm

theorem IsOf.tail_paths_eq :
    x.paths.tail = x.entries.map fun p => extractedPath (pathText p.1) := by
  rw [h.paths_eq, wanted, List.map_cons, List.tail_cons, ← toExtract_mark, toExtract,
    ← h.entries_eq, List.map_map]
  rfl

/-- The path that stands at the place of a file is that to which the file was extracted. -/
theorem IsOf.pathAt_eq (k : Fin x.entries.length) :
    x.pathAt k = extractedPath (pathText (x.entries.get k).1) := by
  have hk := getElem?_tail_paths k
  rw [h.tail_paths_eq, List.getElem?_map, List.getElem?_eq_getElem k.isLt] at hk
  exact (Option.some.inj hk).symm

/-- The path that is looked up for an entry is that to which the same file was extracted. -/
theorem IsOf.path?_eq_some_iff {path : String} :
    x.path? e = some path ↔
      ∃ p ∈ x.entries, p.2.isSame e = true ∧ path = extractedPath (pathText p.1) := by
  simp only [path?, Option.map_eq_some_iff, index?_eq_some_iff h.told, h.pathAt_eq,
    List.mem_iff_get]
  constructor
  · rintro ⟨k, hsame, rfl⟩
    exact ⟨_, ⟨k, rfl⟩, hsame, rfl⟩
  · rintro ⟨_, ⟨k, rfl⟩, hsame, rfl⟩
    exact ⟨k, hsame, rfl⟩

/-- The pictures are a matter of the archive alone. -/
theorem IsOf.imagesOf_eq {x' : Extracted} {script' : String} (h' : x'.IsOf script' archive) :
    imagesOf x' = imagesOf x := by
  rw [imagesOf, imagesOf, h.tail_paths_eq, h'.tail_paths_eq, h.entries_eq, h'.entries_eq]

variable {p : List String × Entry} (hp : p ∈ x.entries)

include hp

theorem IsOf.mem_walk_mark : p ∈ (mark archive).walk := by
  rw [h.entries_eq] at hp
  exact (List.mem_filter.mp hp).1

theorem IsOf.exists_mem_walk :
    ∃ e, (p.1, e) ∈ archive.walk ∧ isExtracted extractedEndings e = true := by
  rw [h.entries_eq] at hp
  exact exists_mem_walk_of_mark hp

end Extracted

end ModWizard.Installer
