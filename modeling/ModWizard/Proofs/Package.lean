import Mathlib.Data.List.Nodup
import ModWizard.Package
import ModWizard.Proofs.Host
import ModWizard.Proofs.Tree.Tidy
import ModWizard.Proofs.Tree.Walk

/-!
# What a sub-package lists

A sub-package lists what a walk through its folder meets.  The walk meets every entry of the folder
at any depth (`Tree.mem_walkBelow_iff`), and if no names are shared it meets none twice
(`Tree.nodup_map_walkBelow`).  But it meets folders as well as files, and all of them are listed:
the list is one of files only if there is no folder in it (`files_eq_pathsWhere_iff`).
-/

namespace ModWizard

namespace Tree

variable {t : Tree} {e : Entry} {above ns : List String}

/-! ### Entries at any depth -/

/-- That an entry stands in a tree, in it or in a folder further down, and which names lead to
it. -/
inductive Stands : Tree → List String → Entry → Prop
  | here {t : Tree} {e : Entry} (he : e ∈ t.entries) : Stands t [e.name] e
  | inside {t inner : Tree} {n : String} {ns : List String} {e : Entry}
    (hn : .folder n inner ∈ t.entries) (he : Stands inner ns e) : Stands t (n :: ns) e

/-- The first name that leads to an entry is that of an entry of the tree. -/
theorem Stands.exists_head (h : t.Stands ns e) : ∃ x ∈ t.entries, ∃ ms, ns = x.name :: ms := by
  cases h with
  | here he => exact ⟨e, he, [], rfl⟩
  | inside hn _ => exact ⟨_, hn, _, rfl⟩

theorem Stands.mono {u : Tree} (hsub : ∀ x ∈ t.entries, x ∈ u.entries) (h : t.Stands ns e) :
    u.Stands ns e := by
  cases h with
  | here he => exact .here (hsub _ he)
  | inside hn he => exact .inside (hsub _ hn) he

theorem mem_walkBelow_of_mem (above : List String) (he : e ∈ t.entries) :
    (above ++ [e.name], e) ∈ t.walkBelow above := by
  induction t with
  | nil => cases he
  | file n o rest ih =>
    obtain rfl | he := List.mem_cons.mp he
    · exact List.mem_cons_self
    · exact List.mem_cons_of_mem _ (ih he)
  | folder n i rest _ ih =>
    obtain rfl | he := List.mem_cons.mp he
    · exact List.mem_cons_self
    · exact List.mem_cons_of_mem _ (List.mem_append_right _ (ih he))

theorem walkBelow_subset_of_mem {n : String} {inner : Tree} (h : .folder n inner ∈ t.entries) :
    ∀ x ∈ inner.walkBelow (above ++ [n]), x ∈ t.walkBelow above := by
  intro x hx
  induction t with
  | nil => cases h
  | file m o rest ih =>
    obtain h | h := List.mem_cons.mp h
    · cases h
    · exact List.mem_cons_of_mem _ (ih h)
  | folder m i rest _ ih =>
    obtain h | h := List.mem_cons.mp h
    · cases h
      exact List.mem_cons_of_mem _ (List.mem_append_left _ hx)
    · exact List.mem_cons_of_mem _ (List.mem_append_right _ (ih h))

/-- A walk meets every entry, at any depth, and nothing else. -/
theorem mem_walkBelow_iff :
    (ns, e) ∈ t.walkBelow above ↔ ∃ ms, t.Stands ms e ∧ ns = above ++ ms := by
  constructor
  · intro h
    induction t generalizing above with
    | nil => cases h
    | file n o rest ih =>
      obtain h | h := List.mem_cons.mp h
      · cases h
        exact ⟨_, .here List.mem_cons_self, rfl⟩
      · obtain ⟨ms, hms, rfl⟩ := ih h
        exact ⟨ms, hms.mono fun _ => List.mem_cons_of_mem _, rfl⟩
    | folder n i rest ihi ih =>
      obtain h | h := List.mem_cons.mp h
      · cases h
        exact ⟨_, .here List.mem_cons_self, rfl⟩
      · obtain h | h := List.mem_append.mp h
        · obtain ⟨ms, hms, rfl⟩ := ihi h
          exact ⟨n :: ms, .inside List.mem_cons_self hms, by simp⟩
        · obtain ⟨ms, hms, rfl⟩ := ih h
          exact ⟨ms, hms.mono fun _ => List.mem_cons_of_mem _, rfl⟩
  · rintro ⟨ms, hms, rfl⟩
    induction hms generalizing above with
    | here he => exact mem_walkBelow_of_mem above he
    | @inside t inner n ns e hn _ ih =>
      have hin : (above ++ [n] ++ ns, e) ∈ inner.walkBelow (above ++ [n]) := ih
      have h := walkBelow_subset_of_mem hn _ hin
      rwa [List.append_assoc, List.singleton_append] at h

/-- Names that lead to an entry of a row lead away from an entry of another name. -/
theorem append_cons_not_mem_walkBelow {n : String} (h : ∀ x ∈ t.entries, x.key ≠ Text.lower n)
    (ms : List String) : above ++ n :: ms ∉ (t.walkBelow above).map Prod.fst := by
  rw [List.mem_map]
  rintro ⟨⟨ns, e⟩, he, hns⟩
  obtain ⟨ms', hms', rfl⟩ := mem_walkBelow_iff.mp he
  obtain ⟨x, hx, ms'', rfl⟩ := hms'.exists_head
  cases List.append_cancel_left hns
  exact h x hx rfl

/-- In a tidy tree the walk comes to no place twice. -/
theorem nodup_map_walkBelow (ht : t.Tidy) (above : List String) :
    ((t.walkBelow above).map Prod.fst).Nodup := by
  induction t generalizing above with
  | nil => exact List.nodup_nil
  | file n o rest ih =>
    exact List.nodup_cons.mpr ⟨append_cons_not_mem_walkBelow ht.1 [], ih ht.2 above⟩
  | folder n i rest ihi ih =>
    have hfirst : ∀ ns ∈ (i.walkBelow (above ++ [n])).map Prod.fst,
        ∃ m ms, ns = above ++ n :: m :: ms := by
      intro ns hns
      obtain ⟨⟨ns, e⟩, he, rfl⟩ := List.mem_map.mp hns
      obtain ⟨ms, hms, rfl⟩ := mem_walkBelow_iff.mp he
      obtain ⟨x, -, ms', rfl⟩ := hms.exists_head
      exact ⟨x.name, ms', by simp⟩
    rw [walkBelow, List.map_cons, List.map_append, List.nodup_cons, List.nodup_append']
    refine ⟨?_, ihi ht.2.1 _, ih ht.2.2 above, fun ns hns hrest => ?_⟩
    · rw [List.mem_append]
      rintro (hmem | hmem)
      · obtain ⟨m, ms, he⟩ := hfirst _ hmem
        simp at he
      · exact append_cons_not_mem_walkBelow ht.1 [] hmem
    · obtain ⟨m, ms, rfl⟩ := hfirst ns hns
      exact append_cons_not_mem_walkBelow ht.1 (m :: ms) hrest

/-! ### Their paths -/

/-- The paths of the entries that pass a test, in the order of a walk. -/
def pathsWhere (ok : Entry → Bool) (above : List String) (t : Tree) : List String :=
  ((t.walkBelow above).filter fun p => ok p.2).map fun p => pathText p.1

/-- That some paths are those of the entries that pass a test: of each of them at any depth and of
no other, in the order of a walk, and none twice if no folder has two entries of one name. -/
structure Lists (ok : Entry → Bool) (above : List String) (t : Tree) (paths : List String) :
    Prop where
  mem_iff : ∀ p, p ∈ paths ↔ ∃ ns e, t.Stands ns e ∧ ok e = true ∧ pathText (above ++ ns) = p
  walked : paths = t.pathsWhere ok above
  once : t.Tidy → t.Named Whole → (∀ n ∈ above, Whole n) → paths.Nodup

variable {ok : Entry → Bool} {paths : List String}

theorem mem_pathsWhere {p : String} : p ∈ t.pathsWhere ok above ↔
    ∃ ns e, t.Stands ns e ∧ ok e = true ∧ pathText (above ++ ns) = p := by
  simp only [pathsWhere, List.mem_map, List.mem_filter, Prod.exists, mem_walkBelow_iff]
  constructor
  · rintro ⟨_, e, ⟨⟨ns, hns, rfl⟩, hok⟩, rfl⟩
    exact ⟨ns, e, hns, hok, rfl⟩
  · rintro ⟨ns, e, hns, hok, rfl⟩
    exact ⟨_, e, ⟨⟨ns, hns, rfl⟩, hok⟩, rfl⟩

/-- Whole names can be read off the path that they make. -/
theorem pathText_inj {ms : List String} (hns : ∀ n ∈ ns, Whole n) (hms : ∀ n ∈ ms, Whole n)
    (h : pathText ns = pathText ms) : ns = ms := by
  rw [← pathNames_pathText hns, h, pathNames_pathText hms]

theorem nodup_pathsWhere (ht : t.Tidy) (hn : t.Named Whole) (habove : ∀ n ∈ above, Whole n) :
    (t.pathsWhere ok above).Nodup := by
  have hwhole : ∀ ns ∈ (t.walkBelow above).map Prod.fst, ∀ n ∈ ns, Whole n := by
    intro ns hns n hmem
    obtain ⟨⟨ns, e⟩, he, rfl⟩ := List.mem_map.mp hns
    obtain ⟨ms, rfl, -, hms⟩ := hn.of_mem_walkBelow he
    obtain hmem | hmem := List.mem_append.mp hmem
    · exact habove n hmem
    · exact hms n hmem
  have hpaths : (((t.walkBelow above).map Prod.fst).map pathText).Nodup :=
    (nodup_map_walkBelow ht above).map_on fun ns hns ms hms =>
      pathText_inj (hwhole ns hns) (hwhole ms hms)
  rw [List.map_map] at hpaths
  exact hpaths.sublist (List.filter_sublist.map _)

theorem lists_iff : t.Lists ok above paths ↔ paths = t.pathsWhere ok above := by
  constructor
  · exact Lists.walked
  · rintro rfl
    exact ⟨fun _ => mem_pathsWhere, rfl, nodup_pathsWhere⟩

theorem forall_stands_isFile_iff :
    (∀ ns e, t.Stands ns e → e.isFile = true) ↔ ∀ e ∈ t.entries, e.isFile = true := by
  constructor
  · intro h e he
    exact h _ e (.here he)
  · intro h ns e he
    cases he with
    | here he => exact h e he
    | inside hn _ => cases h _ hn

end Tree

/-- What passes one test is the same among all and among those that pass another exactly if it
passes the other too. -/
theorem filter_map_eq_filter_map_iff {α β : Type} (f : α → β) (p : β → Bool) (ok : α → Bool)
    (l : List α) : (l.map f).filter p = ((l.filter ok).map f).filter p ↔
      ∀ x ∈ l, p (f x) = true → ok x = true := by
  have hcomm : (l.filter ok).filter (p ∘ f) = (l.filter (p ∘ f)).filter ok := by
    simp only [List.filter_filter, Bool.and_comm]
  rw [List.filter_map, List.filter_map, hcomm]
  constructor
  · intro h x hx hp
    have hlength := congrArg List.length h
    rw [List.length_map, List.length_map] at hlength
    have hself := List.filter_sublist.eq_of_length hlength.symm
    exact List.filter_eq_self.mp hself x (List.mem_filter.mpr ⟨hx, hp⟩)
  · intro h
    have hself : (l.filter (p ∘ f)).filter ok = l.filter (p ∘ f) := by
      rw [List.filter_eq_self]
      intro x hx
      obtain ⟨hx, hp⟩ := List.mem_filter.mp hx
      exact h x hx hp
    rw [hself]

namespace Package

open Tree (Lists Stands Whole pathText pathsWhere)

variable {org : Organizer} {above : List String} {t : Tree} {k : Package}

/-! ### Sub-packages -/

theorem folder_of_mem_all (h : k ∈ all org above t) :
    ∃ inner, .folder k.name inner ∈ t.entries ∧ isPackage org k.name inner = true ∧
      k = ofFolder org.host above k.name inner := by
  obtain ⟨e, he, hk⟩ := List.mem_filterMap.mp h
  cases e with
  | file n o => cases hk
  | folder n inner =>
    rw [recognise?] at hk
    split at hk
    next hpackage =>
      cases hk
      exact ⟨inner, he, hpackage, rfl⟩
    next => cases hk

theorem files_ofFolder (host : Host) (above : List String) (name : String) (inner : Tree) :
    (ofFolder host above name inner).files =
      inner.pathsWhere (fun _ => true) (above ++ [name]) := by
  rw [ofFolder, filesOf, pathsWhere, List.filter_true]

/-- A sub-package lists files only if its folder holds files only. -/
theorem files_eq_pathsWhere_iff (host : Host) (above : List String) (name : String) (inner : Tree) :
    (ofFolder host above name inner).files = inner.pathsWhere Entry.isFile (above ++ [name]) ↔
      ∀ e ∈ inner.entries, e.isFile = true := by
  have h := filter_map_eq_filter_map_iff (fun p : List String × Entry => pathText p.1)
    (fun _ => true) (fun p => p.2.isFile) (inner.walkBelow (above ++ [name]))
  simp only [List.filter_true, forall_const] at h
  rw [← Tree.forall_stands_isFile_iff]
  refine h.trans ⟨fun hall ns e he => ?_, fun hall x hx => ?_⟩
  · exact hall _ (Tree.mem_walkBelow_iff.mpr ⟨ns, he, rfl⟩)
  · obtain ⟨ns, hns, -⟩ := Tree.mem_walkBelow_iff.mp hx
    exact hall ns _ hns

/-- That a host tells plugins by a test on the last names of paths. -/
def TellsBy (host : Host) (test : String → Bool) : Prop :=
  ∀ name files, host.pluginsFor name files = (files.map Text.lastName).filter test

/-- The folders that a sub-package lists do no harm to its plugins as long as none is named like
one. -/
theorem plugins_eq_iff {host : Host} {test : String → Bool} (htest : TellsBy host test)
    (above : List String) (name : String) (inner : Tree) :
    (ofFolder host above name inner).plugins =
        host.pluginsFor name (inner.pathsWhere Entry.isFile (above ++ [name])) ↔
      ∀ p ∈ inner.pathsWhere Entry.isFolder (above ++ [name]), test (Text.lastName p) = false := by
  have h := filter_map_eq_filter_map_iff
    (fun p : List String × Entry => Text.lastName (pathText p.1)) test (fun p => p.2.isFile)
    (inner.walkBelow (above ++ [name]))
  rw [ofFolder, htest, htest, filesOf, pathsWhere, pathsWhere, List.map_map, List.map_map]
  refine h.trans ⟨fun hall p hp => ?_, fun hall x hx hplugin => ?_⟩
  · obtain ⟨ns, e, he, hfolder, rfl⟩ := Tree.mem_pathsWhere.mp hp
    have hfile := hall _ (Tree.mem_walkBelow_iff.mpr ⟨ns, he, rfl⟩)
    rw [Entry.isFile, hfolder] at hfile
    exact Bool.eq_false_iff.mpr fun hplugin => absurd (hfile hplugin) (by decide)
  · obtain ⟨ns, hns, hx⟩ := Tree.mem_walkBelow_iff.mp hx
    cases hfolder : x.2.isFolder with
    | false => rw [Entry.isFile, hfolder]; rfl
    | true =>
      have hpath := Tree.mem_pathsWhere.mpr ⟨ns, x.2, hns, hfolder, congrArg pathText hx.symm⟩
      have hnot := hall _ hpath
      rw [hplugin] at hnot
      cases hnot

namespace Nested

/-- An organizer of a game that takes two folders for the content of a mod. -/
def organizer : Organizer :=
  ⟨.plain 9, "Game", "1.0", "1.0", none, some (.ofList [("Core", .valid), ("Extra", .valid)]), [],
    [],
    ∅, ∅⟩

/-- A folder that holds files only. -/
def core : Tree := .file "read.txt" none (.file "core.esp" none .nil)

/-- A folder with a folder of files, and one with a file of a plugin's name. -/
def extra : Tree :=
  .folder "meshes" (.file "a.nif" none .nil) (.folder "old.esp" (.file "b.txt" none .nil) .nil)

def archive : Tree := .folder "Core" core (.file "wizard.txt" none (.folder "Extra" extra .nil))

end Nested

/-- A sub-package is made of a folder and lists all that stands in it, at any depth, in the order of
a walk.  It lists the files and nothing else if and only if no folder stands in it.  Where plugins
are told by a test on their names, its plugins are those of the files if and only if no folder in it
is named like a plugin. -/
theorem files_listed_iff (hk : k ∈ all org above t) :
    ∃ inner, .folder k.name inner ∈ t.entries ∧ k = ofFolder org.host above k.name inner ∧
      inner.Lists (fun _ => true) (above ++ [k.name]) k.files ∧
      (inner.Lists Entry.isFile (above ++ [k.name]) k.files ↔
        ∀ e ∈ inner.entries, e.isFile = true) ∧
      ∀ test, TellsBy org.host test →
        (k.plugins = org.host.pluginsFor k.name
            (inner.pathsWhere Entry.isFile (above ++ [k.name])) ↔
          ∀ p ∈ inner.pathsWhere Entry.isFolder (above ++ [k.name]),
            test (Text.lastName p) = false) := by
  obtain ⟨inner, hinner, -, heq⟩ := folder_of_mem_all hk
  refine ⟨inner, hinner, heq, ?_, ?_, fun test htest => ?_⟩
  · rw [Tree.lists_iff, ← files_ofFolder org.host above k.name inner, ← heq]
  · rw [Tree.lists_iff, ← files_eq_pathsWhere_iff org.host above k.name, ← heq]
  · rw [← plugins_eq_iff htest, ← heq]

open Nested in
theorem files_listed_core :
    ⟨"Core", ["Mod/Core/read.txt", "Mod/Core/core.esp"], ["core.esp"]⟩ ∈
        all organizer ["Mod"] archive ∧
      core.Lists Entry.isFile ["Mod", "Core"] ["Mod/Core/read.txt", "Mod/Core/core.esp"] := by
  have hk : ⟨"Core", ["Mod/Core/read.txt", "Mod/Core/core.esp"], ["core.esp"]⟩ ∈
      all organizer ["Mod"] archive := by
    decide
  obtain ⟨inner, hinner, -, -, hiff, -⟩ := files_listed_iff hk
  have hcore : inner = core := by
    simpa [archive, Tree.entries] using hinner
  subst hcore
  exact ⟨hk, hiff.mpr (by decide)⟩

open Nested in
/-- Folders are listed beside the files, and one of them passes for a plugin. -/
theorem files_not_listed_nested :
    ⟨"Extra", ["Extra/meshes", "Extra/meshes/a.nif", "Extra/old.esp", "Extra/old.esp/b.txt"],
        ["old.esp"]⟩ ∈ all organizer [] archive ∧
      ¬ extra.Lists Entry.isFile ["Extra"]
        ["Extra/meshes", "Extra/meshes/a.nif", "Extra/old.esp", "Extra/old.esp/b.txt"] ∧
      extra.pathsWhere Entry.isFile ["Extra"] = ["Extra/meshes/a.nif", "Extra/old.esp/b.txt"] ∧
      (ofFolder organizer.host [] "Extra" extra).plugins = ["old.esp"] := by
  rw [Tree.lists_iff]
  decide

end Package

end ModWizard
