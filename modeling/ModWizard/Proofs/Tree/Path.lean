import ModWizard.Path
import ModWizard.Proofs.Tree.Place

/-!
# The names of a written path

A path is written from whole names: names that are not empty and hold neither slash nor backslash.
The names of what is written from whole names are those again (`pathNames_pathText`), so a path that
is spelled as the entries of a tree are leads to the same place (`place_spelling`).  If all of them
lead down, they are also the names of the path on a disk (`ofString_pathText`).
-/

namespace ModWizard.Tree

/-- Whether a text can be one name of a path. -/
structure Whole (n : String) : Prop where
  ne_empty : n ≠ ""
  no_slash : '/' ∉ n.toList
  no_backslash : '\\' ∉ n.toList

instance (n : String) : Decidable (Whole n) :=
  decidable_of_iff (n ≠ "" ∧ '/' ∉ n.toList ∧ '\\' ∉ n.toList)
    ⟨fun ⟨hne, hs, hb⟩ => ⟨hne, hs, hb⟩, fun ⟨hne, hs, hb⟩ => ⟨hne, hs, hb⟩⟩

/-- Whether a text is a name that leads down from a folder. -/
structure Proper (n : String) : Prop extends Whole n where
  ne_stay : n ≠ "."
  ne_up : n ≠ ".."

instance (n : String) : Decidable (Proper n) :=
  decidable_of_iff (Whole n ∧ n ≠ "." ∧ n ≠ "..")
    ⟨fun ⟨hw, hs, hu⟩ => ⟨hw, hs, hu⟩, fun ⟨hw, hs, hu⟩ => ⟨hw, hs, hu⟩⟩

theorem Whole.undivided {n : String} (h : Whole n) :
    ∀ c ∈ n.toList, (c == '/' || c == '\\') = false := by
  intro c hc
  rw [Bool.or_eq_false_iff, beq_eq_false_iff_ne, beq_eq_false_iff_ne]
  exact ⟨fun he => h.no_slash (he ▸ hc), fun he => h.no_backslash (he ▸ hc)⟩

/-- Being a name does not hang on the case of the letters. -/
theorem Whole.of_lower_eq {m n : String} (h : Whole n) (he : Text.lower m = Text.lower n) :
    Whole m where
  ne_empty hm := h.ne_empty (Text.lower_eq_empty_iff.mp (he ▸ Text.lower_eq_empty_iff.mpr hm))
  no_slash hm := h.no_slash <| by
    rwa [← Text.mem_lower_iff (by decide) (by decide) (by decide), ← he,
      Text.mem_lower_iff (by decide) (by decide) (by decide)]
  no_backslash hm := h.no_backslash <| by
    rwa [← Text.mem_lower_iff (by decide) (by decide) (by decide), ← he,
      Text.mem_lower_iff (by decide) (by decide) (by decide)]

theorem whole_of_mem_pathNames {path n : String} (h : n ∈ pathNames path) : Whole n := by
  simp only [pathNames, List.mem_map, List.mem_filter] at h
  obtain ⟨cs, ⟨hcs, hne⟩, rfl⟩ := h
  have hdiv : ∀ c ∈ cs, (c == '/' || c == '\\') = false := fun c hc =>
    (Text.mem_of_mem_splitAt hcs hc).2
  refine ⟨fun he => ?_, fun hm => ?_, fun hm => ?_⟩
  · have hnil : cs = [] := by simpa using congrArg String.toList he
    simp [hnil] at hne
  · exact absurd (hdiv '/' (by rwa [String.toList_ofList] at hm)) (by decide)
  · exact absurd (hdiv '\\' (by rwa [String.toList_ofList] at hm)) (by decide)

@[simp] theorem pathNames_empty : pathNames "" = [] := rfl

theorem pathNames_of_whole {n : String} (h : Whole n) : pathNames n = [n] := by
  have hne : n.toList ≠ [] := fun he => h.ne_empty (String.toList_eq_nil_iff.mp he)
  simp [pathNames, Text.splitAt_eq_singleton h.undivided, hne]

/-- A search by one name is a search among the entries of the tree. -/
theorem find?_of_whole {n : String} (h : Whole n) (t : Tree) :
    t.find? n = t.entryAt? (Text.lower n) := by
  rw [find?, pathNames_of_whole h, findFrom?, child?_eq_entryAt?]

/-- The names of two paths with a slash between them. -/
theorem pathNames_append_slash (a b : String) :
    pathNames (a ++ "/" ++ b) = pathNames a ++ pathNames b := by
  have hchars : (a ++ "/" ++ b).toList = a.toList ++ '/' :: b.toList := by
    simp [String.toList_append]
  rw [pathNames, hchars, Text.splitAt_append_cons rfl, List.filter_append, List.map_append,
    pathNames,
    pathNames]

theorem pathNames_pathBelow (path : String) {n : String} (h : Whole n) :
    pathNames (pathBelow path n) = pathNames path ++ [n] := by
  unfold pathBelow
  split
  next hp => simp [hp, pathNames_of_whole h]
  next => rw [pathNames_append_slash, pathNames_of_whole h]

theorem pathNames_pathText {ns : List String} (h : ∀ n ∈ ns, Whole n) :
    pathNames (pathText ns) = ns := by
  have hfold : ∀ path, pathNames (ns.foldl pathBelow path) = pathNames path ++ ns := by
    induction ns with
    | nil => simp
    | cons n ns ih =>
      intro path
      rw [List.foldl_cons, ih fun m hm => h m (List.mem_cons_of_mem n hm),
        pathNames_pathBelow path (h n List.mem_cons_self), List.append_assoc, List.singleton_append]
  rw [pathText, hfold, pathNames_empty, List.nil_append]

/-! ### Spelled paths -/

/-- A path is spelled in its own letters, up to their case. -/
theorem map_lower_spelling (t : Tree) (ns : List String) :
    (t.spelling ns).map Text.lower = ns.map Text.lower := by
  induction ns generalizing t with
  | nil => rfl
  | cons n ns ih =>
    rw [spelling, child?_eq_entryAt?]
    split
    next m inner he =>
      have hm := entryAt?_key he
      rw [Entry.key_folder] at hm
      rw [List.map_cons, List.map_cons, hm, ih]
    next m o he =>
      have hm := entryAt?_key he
      rw [Entry.key_file] at hm
      rw [List.map_cons, List.map_cons, hm]
    next => rfl

/-- The spelled path leads to the same place. -/
theorem place_spelling (t : Tree) (path : String) :
    place (pathText (t.spelling (pathNames path))) = place path := by
  have hlower := map_lower_spelling t (pathNames path)
  have hwhole : ∀ m ∈ t.spelling (pathNames path), Whole m := by
    intro m hm
    have hmem : Text.lower m ∈ (pathNames path).map Text.lower :=
      hlower ▸ List.mem_map_of_mem hm
    obtain ⟨n, hn, he⟩ := List.mem_map.mp hmem
    exact (whole_of_mem_pathNames hn).of_lower_eq he.symm
  rw [place, pathNames_pathText hwhole, hlower, place]

/-! ### Paths without backslashes -/

/-- Without backslashes the names of a path are those below its start, and points. -/
theorem names_ofString {path : String} (h : '\\' ∉ path.toList) :
    (Path.ofString path).names = (pathNames path).filter (· ≠ ".") := by
  have hsplit : Text.splitAt (fun c => c == '/' || c == '\\') path.toList =
      Text.splitAt (· == '/') path.toList := by
    refine Text.splitAt_congr fun c hc => ?_
    have hne : (c == '\\') = false := beq_eq_false_iff_ne.mpr fun he => h (he ▸ hc)
    rw [hne, Bool.or_false]
  simp only [Path.ofString, pathNames, Text.splitSlashes, hsplit, List.filter_map,
    List.filter_filter]
  congr 2
  funext cs
  cases cs <;> simp

/-! ### Written paths -/

theorem pathText_eq_intercalate {ns : List String} (h : ∀ n ∈ ns, n ≠ "") :
    pathText ns = "/".intercalate ns := by
  have hfold : ∀ ns : List String, ∀ path, path ≠ "" →
      ns.foldl pathBelow path = "/".intercalate (path :: ns) := by
    intro ns
    induction ns with
    | nil => exact fun path _ => String.intercalate_singleton.symm
    | cons n ns ih =>
      intro path hpath
      have hbelow : pathBelow path n = path ++ "/" ++ n := if_neg hpath
      rw [List.foldl_cons, hbelow, ih _ (by simp [hpath]), String.intercalate_cons_cons,
        String.intercalate_cons_append]
  cases ns with
  | nil => rfl
  | cons n ns => exact hfold ns n (h n List.mem_cons_self)

theorem splitSlashes_intercalate {ns : List String} (hne : ns ≠ []) (h : ∀ n ∈ ns, '/' ∉ n.toList) :
    Text.splitSlashes ("/".intercalate ns) = ns := by
  have hsplit : ∀ n : String, '/' ∉ n.toList → Text.splitAt (· == '/') n.toList = [n.toList] :=
    fun n hn => Text.splitAt_eq_singleton fun c hc => beq_eq_false_iff_ne.mpr fun he => hn (he ▸ hc)
  induction ns with
  | nil => exact absurd rfl hne
  | cons n ns ih =>
    rw [List.forall_mem_cons] at h
    cases ns with
    | nil => rw [String.intercalate_singleton, Text.splitSlashes, hsplit n h.1]; simp
    | cons m ns =>
      have hchars : ("/".intercalate (n :: m :: ns)).toList =
          n.toList ++ '/' :: ("/".intercalate (m :: ns)).toList := by
        simp [String.intercalate_cons_cons, String.toList_append]
      have ih := ih (by simp) h.2
      rw [Text.splitSlashes] at ih ⊢
      rw [hchars, Text.splitAt_append_cons (by rfl), hsplit n h.1, List.map_append, ih]
      simp

/-- A path written from proper names is read as these names below the present folder. -/
theorem ofString_pathText {ns : List String} (hne : ns ≠ []) (h : ∀ n ∈ ns, Proper n) :
    Path.ofString (pathText ns) = ⟨.here, ns⟩ := by
  rw [pathText_eq_intercalate fun n hn => (h n hn).ne_empty]
  have hnames :
      (Text.splitSlashes ("/".intercalate ns)).filter (fun n => n ≠ "" && n ≠ ".") = ns := by
    rw [splitSlashes_intercalate hne fun n hn => (h n hn).no_slash, List.filter_eq_self]
    intro n hn
    simp [(h n hn).ne_empty, (h n hn).ne_stay]
  have hstart : Path.Start.ofChars ("/".intercalate ns).toList = .here := by
    obtain ⟨n, ms, rfl⟩ := List.exists_cons_of_ne_nil hne
    have hn := (h n List.mem_cons_self).toWhole
    obtain ⟨c, cs, hcs⟩ := List.exists_cons_of_ne_nil fun hnil =>
      hn.ne_empty (String.toList_eq_nil_iff.mp hnil)
    have hc : c ≠ '/' := fun he => hn.no_slash (by rw [hcs, he]; exact List.mem_cons_self)
    obtain ⟨ds, hds⟩ : ∃ ds, ("/".intercalate (n :: ms)).toList = c :: ds := by
      cases ms with
      | nil => exact ⟨cs, by rw [String.intercalate_singleton, hcs]⟩
      | cons m ms =>
        exact ⟨_, by rw [String.intercalate_cons_cons, String.append_assoc, String.toList_append,
          hcs,
          List.cons_append]⟩
    rw [hds]
    unfold Path.Start.ofChars
    split <;> simp_all
  rw [Path.ofString, hstart, hnames]

theorem text_of_proper {ns : List String} (hne : ns ≠ []) (h : ∀ n ∈ ns, Proper n) :
    (Path.mk .here ns).text = pathText ns := by
  rw [pathText_eq_intercalate fun n hn => (h n hn).ne_empty, Path.text, if_neg (by simp [hne])]
  exact String.empty_append

end ModWizard.Tree
