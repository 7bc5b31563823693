import Mathlib.Data.List.Pairwise
import ModWizard.Installer.Install
import ModWizard.Proofs.Tree.Change
import ModWizard.Proofs.Tree.Walk

/-!
# Archives and their bases

An archive is searched with its files numbered.  Numbers change neither names nor places, nor which
files are extracted (`toExtract_mark`), and no two files have the same (`numbers_mark`).  The base
of the archive is what stands below the names that lead to it (`kindAt?_of_base?`), and it is the
same folder with the numbers as without them (`base?_mark`).
-/

namespace ModWizard

/-- The number of a file. -/
def Entry.number? : Entry → Option Nat
  | .file _ id => id
  | .folder .. => none

/-- Entries are the same file if they have the same number. -/
theorem Entry.isSame_iff {e e' : Entry} :
    e.isSame e' = true ↔ ∃ k, e.number? = some k ∧ e'.number? = some k := by
  cases e with
  | folder n inner => simp [isSame, number?]
  | file n id =>
    cases e' with
    | folder n' inner' => cases id <;> simp [isSame, number?]
    | file n' id' =>
      cases id with
      | none => simp [isSame, number?]
      | some i =>
        cases id' with
        | none => simp [isSame, number?]
        | some j => simp [isSame, number?, eq_comm (a := i)]

namespace Installer

open Tree (Named pathText)

variable {P : String → Prop} {t : Tree} {b : Base} {above endings p : List String} {k : Nat}

theorem mem_toExtract {o : String} :
    o ∈ toExtract endings t ↔ ∃ ns e, (ns, e) ∈ t.walk ∧ isExtracted endings e = true ∧
      pathText ns = o := by
  simp [toExtract, entriesToExtract, and_assoc]

/-! ### Numbers -/

theorem map_key_markFrom (k : Nat) (t : Tree) :
    (markFrom k t).entries.map Entry.key = t.entries.map Entry.key := by
  induction t generalizing k with
  | nil => rfl
  | file n id rest ih => simp only [markFrom, Tree.entries, List.map_cons, Entry.key_file, ih]
  | folder n inner rest _ ih =>
    simp only [markFrom, Tree.entries, List.map_cons, Entry.key_folder, ih]

theorem tidy_markFrom (k : Nat) (ht : t.Tidy) : (markFrom k t).Tidy := by
  have hkeys : ∀ k u s, (∀ e ∈ u.entries, e.key ≠ s) →
      ∀ e ∈ (markFrom k u).entries, e.key ≠ s := fun k u s hu e he hs => by
    have hmem := List.mem_map_of_mem (f := Entry.key) he
    rw [map_key_markFrom, hs] at hmem
    obtain ⟨e', he', hs'⟩ := List.mem_map.mp hmem
    exact hu e' he' hs'
  induction t generalizing k with
  | nil => exact Tree.tidy_nil
  | file n id rest ih => exact ⟨hkeys _ rest _ ht.1, ih _ ht.2⟩
  | folder n inner rest ihi ih => exact ⟨hkeys _ rest _ ht.1, ihi _ ht.2.1, ih _ ht.2.2⟩

theorem named_markFrom (k : Nat) (h : t.Named P) : (markFrom k t).Named P := by
  induction t generalizing k with
  | nil => trivial
  | file n id rest ih => exact ⟨h.1, ih _ h.2⟩
  | folder n inner rest ihi ih => exact ⟨h.1, ihi _ h.2.1, ih _ h.2.2⟩

/-- A walk meets the numbers one after the other. -/
theorem numbers_markFrom (k : Nat) (above : List String) (t : Tree) :
    ((markFrom k t).walkBelow above).filterMap (·.2.number?) = List.range' k (fileCount t) := by
  induction t generalizing k above with
  | nil => rfl
  | file n id rest ih =>
    rw [markFrom, Tree.walkBelow, List.filterMap_cons, ih, fileCount, List.range'_succ]
    rfl
  | folder n inner rest ihi ih =>
    rw [markFrom, Tree.walkBelow, List.filterMap_cons, List.filterMap_append, ihi, ih, fileCount,
      ← List.range'_append_1]
    rfl

theorem numbers_mark (t : Tree) :
    ((mark t).walk.filterMap (·.2.number?)).Nodup := by
  rw [mark, Tree.walk, numbers_markFrom]
  exact List.nodup_range'

/-- A number tells a file of the archive from all others. -/
theorem eq_of_number? {q r : List String × Entry} {n : Nat} (hq : q ∈ (mark t).walk)
    (hr : r ∈ (mark t).walk) (hqn : q.2.number? = some n) (hrn : r.2.number? = some n) : q = r := by
  let R := fun q r : List String × Entry =>
    ∀ i, q.2.number? = some i → ∀ j, r.2.number? = some j → i ≠ j
  have : Std.Symm R := ⟨fun _ _ h i hi j hj he => h j hj i hi he.symm⟩
  have hpairs : (mark t).walk.Pairwise R := List.pairwise_filterMap.mp (numbers_mark t)
  by_contra hne
  exact hpairs.forall hq hr hne n hqn n hrn rfl

/-- The same files are extracted with numbers as without them. -/
theorem map_fst_filter_markFrom (endings : List String) (k : Nat) (above : List String) (t : Tree) :
    (((markFrom k t).walkBelow above).filter fun p => isExtracted endings p.2).map Prod.fst =
      ((t.walkBelow above).filter fun p => isExtracted endings p.2).map Prod.fst := by
  induction t generalizing k above with
  | nil => rfl
  | file n id rest ih =>
    rw [markFrom, Tree.walkBelow, Tree.walkBelow, List.filter_cons, List.filter_cons]
    have hsame : isExtracted endings (.file n (some k)) = isExtracted endings (.file n id) := rfl
    rw [hsame]
    split
    · rw [List.map_cons, List.map_cons, ih]
    · exact ih _ _
  | folder n inner rest ihi ih =>
    have hfolder : ∀ i : Tree, ¬ isExtracted endings (.folder n i) = true := fun i h => by cases h
    rw [markFrom, Tree.walkBelow, Tree.walkBelow, List.filter_cons, List.filter_cons,
      if_neg (hfolder _), if_neg (hfolder _), List.filter_append, List.filter_append,
      List.map_append, List.map_append, ihi, ih]

theorem map_fst_entriesToExtract_mark (endings : List String) (t : Tree) :
    (entriesToExtract endings (mark t)).map Prod.fst = (entriesToExtract endings t).map Prod.fst :=
  map_fst_filter_markFrom endings 0 [] t

/-- The files that are extracted from the numbered archive are those of the archive. -/
theorem exists_mem_walk_of_mark {q : List String × Entry}
    (h : q ∈ entriesToExtract endings (mark t)) :
    ∃ e, (q.1, e) ∈ t.walk ∧ isExtracted endings e = true := by
  have hmem := List.mem_map_of_mem (f := Prod.fst) h
  rw [map_fst_entriesToExtract_mark] at hmem
  obtain ⟨⟨ns, e⟩, he, rfl⟩ := List.mem_map.mp hmem
  exact ⟨e, List.mem_filter.mp he⟩

theorem toExtract_mark (endings : List String) (t : Tree) :
    toExtract endings (mark t) = toExtract endings t := by
  have hmap : ∀ l : List (List String × Entry),
      l.map (fun p => pathText p.1) = (l.map Prod.fst).map pathText := fun l =>
    (List.map_map ..).symm
  rw [toExtract, toExtract, hmap, hmap, map_fst_entriesToExtract_mark]

/-- Where there is nothing in the numbered archive there is nothing in the archive. -/
theorem kindAt?_eq_none_of_markFrom (h : (markFrom k t).kindAt? p = none) :
    t.kindAt? p = none := by
  induction t generalizing k p with
  | nil => exact h
  | file n id rest ih =>
    cases p with
    | nil => cases h
    | cons q qs =>
      rw [markFrom, Tree.kindAt?_file] at h
      rw [Tree.kindAt?_file]
      by_cases hq : Text.lower n = q
      · rw [if_pos hq] at h ⊢
        split at h
        next => cases h
        next hqs => exact if_neg hqs
      · rw [if_neg hq] at h ⊢
        exact ih h
  | folder n inner rest ihi ih =>
    cases p with
    | nil => cases h
    | cons q qs =>
      rw [markFrom, Tree.kindAt?_folder] at h
      rw [Tree.kindAt?_folder]
      by_cases hq : Text.lower n = q
      · rw [if_pos hq] at h ⊢
        exact ihi h
      · rw [if_neg hq] at h ⊢
        exact ih h

/-- A file that stands at a place is met by a walk, with its number. -/
theorem exists_mem_walkBelow_of_kindAt? (above : List String) {id : Option Nat}
    (h : t.kindAt? p = some (.file id)) :
    ∃ ns n, (above ++ ns, .file n id) ∈ t.walkBelow above ∧ ns.map Text.lower = p := by
  induction t generalizing above p with
  | nil => cases p <;> cases h
  | file n x rest ih =>
    cases p with
    | nil => cases h
    | cons q qs =>
      rw [Tree.kindAt?_file] at h
      by_cases hq : Text.lower n = q
      · rw [if_pos hq] at h
        split at h
        next hnil =>
          subst hnil
          cases h
          exact ⟨[n], n, List.mem_cons_self, by rw [List.map_singleton, hq]⟩
        next => cases h
      · rw [if_neg hq] at h
        obtain ⟨ns, m, hm, hns⟩ := ih above h
        exact ⟨ns, m, List.mem_cons_of_mem _ hm, hns⟩
  | folder n inner rest ihi ih =>
    cases p with
    | nil => cases h
    | cons q qs =>
      rw [Tree.kindAt?_folder] at h
      by_cases hq : Text.lower n = q
      · rw [if_pos hq] at h
        obtain ⟨ns, m, hm, hns⟩ := ihi (above ++ [n]) h
        rw [List.append_assoc] at hm
        exact ⟨n :: ns, m, List.mem_cons_of_mem _ (List.mem_append_left _ hm),
          by rw [List.map_cons, hq, hns]⟩
      · rw [if_neg hq] at h
        obtain ⟨ns, m, hm, hns⟩ := ih above h
        exact ⟨ns, m, List.mem_cons_of_mem _ (List.mem_append_right _ hm), hns⟩

theorem exists_mem_walk_of_kindAt? {id : Option Nat} (h : t.kindAt? p = some (.file id)) :
    ∃ ns n, (ns, .file n id) ∈ t.walk ∧ ns.map Text.lower = p :=
  exists_mem_walkBelow_of_kindAt? [] h

/-! ### Bases -/

theorem tidy_of_baseBelow? (ht : t.Tidy) (h : baseBelow? above t = some b) : b.tree.Tidy := by
  fun_induction baseBelow? above t with
  | case1 above t hscript =>
    cases h
    exact ht
  | case2 above n inner hscript ih => exact ih ht.2.1 h
  | case3 => cases h

theorem named_of_baseBelow? (ht : t.Named P) (habove : ∀ n ∈ above, P n)
    (h : baseBelow? above t = some b) : (∀ n ∈ b.above, P n) ∧ b.tree.Named P := by
  fun_induction baseBelow? above t with
  | case1 above t hscript =>
    cases h
    exact ⟨habove, ht⟩
  | case2 above n inner hscript ih =>
    refine ih ht.2.1 (fun m hm => ?_) h
    obtain hm | hm := List.mem_append.mp hm
    · exact habove m hm
    · rw [List.mem_singleton.mp hm]
      exact ht.1
  | case3 => cases h

/-- The base is what stands below its names. -/
theorem kindAt?_of_baseBelow? (h : baseBelow? above t = some b) :
    ∃ up, b.above = above ++ up ∧ ∀ p, t.kindAt? (up.map Text.lower ++ p) = b.tree.kindAt? p := by
  fun_induction baseBelow? above t with
  | case1 above t hscript =>
    cases h
    exact ⟨[], (List.append_nil _).symm, fun p => rfl⟩
  | case2 above n inner hscript ih =>
    obtain ⟨up, hup, hp⟩ := ih h
    refine ⟨n :: up, by rw [hup, List.append_assoc, List.singleton_append], fun p => ?_⟩
    rw [List.map_cons, List.cons_append, Tree.kindAt?_folder, if_pos rfl, hp]
  | case3 => cases h

theorem kindAt?_of_base? (h : base? t = some b) (p : List String) :
    t.kindAt? (b.above.map Text.lower ++ p) = b.tree.kindAt? p := by
  obtain ⟨up, hup, hp⟩ := kindAt?_of_baseBelow? h
  rw [hup, List.nil_append, hp]

/-! ### The script -/

theorem whole_scriptName : Tree.Whole scriptName := by decide

theorem holdsScript_iff :
    holdsScript t = true ↔ ∃ e ∈ t.entries, e.isFile ∧ e.isNamed scriptName := by
  rw [holdsScript, Tree.findFile?, Tree.pathNames_of_whole whole_scriptName, Tree.findFrom?,
    Tree.child?, List.find?_isSome]
  simp only [Bool.and_eq_true]

/-- Numbers do not hide the script. -/
theorem holdsScript_markFrom (k : Nat) (t : Tree) :
    holdsScript (markFrom k t) = holdsScript t := by
  rw [Bool.eq_iff_iff, holdsScript_iff, holdsScript_iff]
  induction t generalizing k with
  | nil => rfl
  | file n id rest ih => simp only [markFrom, Tree.entries, List.exists_mem_cons_iff, ih]; rfl
  | folder n inner rest _ ih =>
    simp only [markFrom, Tree.entries, List.exists_mem_cons_iff, ih]
    rfl

theorem holdsScript_of_baseBelow? (h : baseBelow? above t = some b) :
    holdsScript b.tree = true := by
  fun_induction baseBelow? above t with
  | case1 above t hscript =>
    cases h
    exact hscript
  | case2 above n inner hscript ih => exact ih h
  | case3 => cases h

/-- A folder that holds the script has a path for it. -/
theorem exists_scriptPath? (h : holdsScript b.tree = true) :
    ∃ script, scriptPath? b = some script := by
  obtain ⟨e, he, -, hnamed⟩ := holdsScript_iff.mp h
  have hfind : (b.tree.find? scriptName).isSome = true := by
    rw [Tree.find?, Tree.pathNames_of_whole whole_scriptName, Tree.findFrom?, Tree.child?,
      List.find?_isSome]
    exact ⟨e, he, hnamed⟩
  obtain ⟨e, he⟩ := Option.isSome_iff_exists.mp hfind
  exact ⟨_, by rw [scriptPath?, he]; rfl⟩

theorem baseBelow?_of_holdsScript (h : holdsScript t = true) :
    baseBelow? above t = some ⟨above, t⟩ := by
  unfold baseBelow?
  exact if_pos h

/-- A folder that is alone is searched below its name. -/
theorem baseBelow?_folder (n : String) (inner : Tree) :
    baseBelow? above (.folder n inner .nil) = baseBelow? (above ++ [n]) inner := by
  have hscript : ¬ holdsScript (.folder n inner .nil) = true := by
    rw [holdsScript_iff]
    rintro ⟨e, he, hfile, -⟩
    cases List.mem_singleton.mp he
    cases hfile
  rw [baseBelow?, if_neg hscript]

/-- The base of a numbered tree is the numbered base of the tree. -/
theorem baseBelow?_markFrom (k : Nat) (above : List String) (t : Tree) :
    baseBelow? above (markFrom k t) =
      (baseBelow? above t).map fun b => ⟨b.above, markFrom k b.tree⟩ := by
  fun_induction baseBelow? above t with
  | case1 t above hscript =>
    exact baseBelow?_of_holdsScript (by rwa [holdsScript_markFrom])
  | case2 above n inner hscript ih => exact (baseBelow?_folder n _).trans ih
  | case3 t above hscript hone =>
    have hscript' : ¬ holdsScript (markFrom k t) = true := by
      rwa [holdsScript_markFrom]
    unfold baseBelow?
    rw [if_neg hscript']
    -- Numbers leave more than one entry, or none, as they are.
    match t, hone with
    | .nil, _ => rfl
    | .file _ _ _, _ => rfl
    | .folder n inner .nil, hone => exact absurd rfl (hone n inner)
    | .folder _ _ (.file _ _ _), _ => rfl
    | .folder _ _ (.folder _ _ _), _ => rfl

theorem base?_mark (t : Tree) :
    base? (mark t) = (base? t).map fun b => ⟨b.above, mark b.tree⟩ :=
  baseBelow?_markFrom 0 [] t

theorem tidy_of_base? (ht : t.Tidy) (h : base? (mark t) = some b) : b.tree.Tidy :=
  tidy_of_baseBelow? (tidy_markFrom 0 ht) h

theorem named_of_base? (ht : t.Named P) (h : base? (mark t) = some b) :
    (∀ n ∈ b.above, P n) ∧ b.tree.Named P :=
  named_of_baseBelow? (named_markFrom 0 ht) (by simp) h

end Installer

end ModWizard
