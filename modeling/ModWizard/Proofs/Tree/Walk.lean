import ModWizard.Proofs.Tree.Path

/-!
# The names of a tree

All names in a tree may be asked to pass a test (`Named`), such as that each leads down from its
folder (`Proper`).  A walk through the tree meets these names only (`Named.of_mem_walkBelow`).
-/

namespace ModWizard.Tree

variable {P : String → Prop} {t : Tree} {e : Entry} {above ns : List String}

/-- That every name in a tree passes a test. -/
def Named (P : String → Prop) : Tree → Prop
  | nil => True
  | file n _ rest => P n ∧ rest.Named P
  | folder n i rest => P n ∧ i.Named P ∧ rest.Named P

instance decidableNamed [DecidablePred P] : DecidablePred (Named P)
  | nil => isTrue trivial
  | file n _ rest =>
    have := decidableNamed rest
    inferInstanceAs (Decidable (P n ∧ rest.Named P))
  | folder n i rest =>
    have := decidableNamed i
    have := decidableNamed rest
    inferInstanceAs (Decidable (P n ∧ i.Named P ∧ rest.Named P))

theorem Named.mono {Q : String → Prop} (hPQ : ∀ n, P n → Q n) (h : t.Named P) : t.Named Q := by
  induction t with
  | nil => trivial
  | file n o rest ih => exact ⟨hPQ n h.1, ih h.2⟩
  | folder n i rest ihi ih => exact ⟨hPQ n h.1, ihi h.2.1, ih h.2.2⟩

theorem Named.of_mem (h : t.Named P) (he : e ∈ t.entries) : P e.name := by
  induction t with
  | nil => cases he
  | file n o rest ih =>
    obtain rfl | he := List.mem_cons.mp he
    · exact h.1
    · exact ih h.2 he
  | folder n i rest _ ih =>
    obtain rfl | he := List.mem_cons.mp he
    · exact h.1
    · exact ih h.2.2 he

theorem Named.of_mem_folder {n : String} {inner : Tree} (h : t.Named P)
    (he : .folder n inner ∈ t.entries) : inner.Named P := by
  induction t with
  | nil => cases he
  | file m o rest ih =>
    obtain he | he := List.mem_cons.mp he
    · cases he
    · exact ih h.2 he
  | folder m i rest _ ih =>
    obtain he | he := List.mem_cons.mp he
    · cases he
      exact h.2.1
    · exact ih h.2.2 he

/-- The names that lead to an entry pass the test. -/
theorem Named.of_mem_walkBelow (h : t.Named P) (he : (ns, e) ∈ t.walkBelow above) :
    ∃ ms, ns = above ++ ms ∧ ms ≠ [] ∧ ∀ m ∈ ms, P m := by
  induction t generalizing above with
  | nil => cases he
  | file n o rest ih =>
    obtain he | he := List.mem_cons.mp he
    · cases he
      exact ⟨[n], rfl, by simp, by simpa using h.1⟩
    · exact ih h.2 he
  | folder n i rest ihi ih =>
    obtain he | he := List.mem_cons.mp he
    · cases he
      exact ⟨[n], rfl, by simp, by simpa using h.1⟩
    · obtain he | he := List.mem_append.mp he
      · obtain ⟨ms, rfl, -, hms⟩ := ihi h.2.1 he
        exact ⟨n :: ms, by simp, by simp, List.forall_mem_cons.mpr ⟨h.1, hms⟩⟩
      · exact ih h.2.2 he

theorem Named.of_mem_walk (h : t.Named P) (he : (ns, e) ∈ t.walk) : ns ≠ [] ∧ ∀ n ∈ ns, P n := by
  obtain ⟨ms, rfl, hne, hms⟩ := h.of_mem_walkBelow he
  exact ⟨hne, hms⟩

/-- Further down, a walk meets the same entries below more names. -/
theorem walkBelow_append (ws above : List String) (t : Tree) :
    t.walkBelow (ws ++ above) = (t.walkBelow above).map fun p => (ws ++ p.1, p.2) := by
  induction t generalizing above with
  | nil => rfl
  | file n o rest ih => simp only [walkBelow, List.map_cons, List.append_assoc, ih]
  | folder n i rest ihi ih =>
    simp only [walkBelow, List.map_cons, List.map_append, List.append_assoc, ihi, ih]

theorem walkBelow_eq_map (ws : List String) (t : Tree) :
    t.walkBelow ws = t.walk.map fun p => (ws ++ p.1, p.2) := by
  have h := walkBelow_append ws [] t
  rwa [List.append_nil] at h

end ModWizard.Tree
