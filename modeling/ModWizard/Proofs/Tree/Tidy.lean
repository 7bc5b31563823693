import Mathlib.Data.List.Nodup
import ModWizard.Proofs.Tree.Place

/-!
# Tidy trees

A tree is tidy if no folder in it has two entries of one name, in any letter case.  In a tidy tree a
search by names finds what stands at the place of the path.  All changes of trees keep them tidy.
-/

namespace ModWizard

namespace Tree

/-- A tree in which no folder has two entries of one name. -/
def Tidy : Tree → Prop
  | nil => True
  | file n _ rest => (∀ e ∈ rest.entries, e.key ≠ Text.lower n) ∧ rest.Tidy
  | folder n i rest => (∀ e ∈ rest.entries, e.key ≠ Text.lower n) ∧ i.Tidy ∧ rest.Tidy

instance decidableTidy : DecidablePred Tidy
  | nil => isTrue trivial
  | file n _ rest =>
    have := decidableTidy rest
    inferInstanceAs (Decidable ((∀ e ∈ rest.entries, e.key ≠ Text.lower n) ∧ rest.Tidy))
  | folder n i rest =>
    have := decidableTidy i
    have := decidableTidy rest
    inferInstanceAs (Decidable ((∀ e ∈ rest.entries, e.key ≠ Text.lower n) ∧ i.Tidy ∧ rest.Tidy))

end Tree

/-- An entry that is a file, or a folder with a tidy tree. -/
def Entry.Tidy : Entry → Prop
  | file .. => True
  | folder _ t => t.Tidy

namespace Tree

variable {t t' u : Tree} {e : Entry} {es : List Entry}

/-- A row of entries of different names, all of them tidy. -/
def TidyRow (es : List Entry) : Prop := (es.map Entry.key).Nodup ∧ ∀ e ∈ es, e.Tidy

theorem tidy_iff : t.Tidy ↔ TidyRow t.entries := by
  unfold TidyRow
  induction t with
  | nil => simp [Tidy, entries]
  | file n o rest ih =>
    simp only [Tidy, entries, List.map_cons, List.nodup_cons, List.forall_mem_cons, ih,
      Entry.key_file,
      List.mem_map, not_exists, not_and, Entry.Tidy, true_and, and_assoc]
  | folder n i rest _ ih =>
    simp only [Tidy, entries, List.map_cons, List.nodup_cons, List.forall_mem_cons, ih,
      Entry.key_folder, List.mem_map, not_exists, not_and, Entry.Tidy]
    tauto

theorem tidy_nil : nil.Tidy := trivial

theorem tidy_file (n : String) (o : Option Nat) : (Entry.file n o).Tidy := trivial

theorem tidy_ofEntries_iff : (ofEntries es).Tidy ↔ TidyRow es := by
  rw [tidy_iff, entries_ofEntries]

/-! ### Searches -/

/-- In a row of different names the entry of a name is the only one. -/
theorem find?_and_key (h : TidyRow es) (ok : Entry → Bool) (k : String) :
    es.find? (fun e => ok e && e.key == k) = (es.find? (·.key == k)).filter ok := by
  induction es with
  | nil => rfl
  | cons e es ih =>
    obtain ⟨hnodup, htidy⟩ := h
    rw [List.map_cons, List.nodup_cons] at hnodup
    have ih := ih ⟨hnodup.2, fun e he => htidy e (List.mem_cons_of_mem _ he)⟩
    by_cases hk : e.key = k
    · have hnone : es.find? (·.key == k) = none := by
        rw [List.find?_eq_none]
        intro x hx
        simp only [beq_iff_eq]
        rintro rfl
        exact hnodup.1 (List.mem_map.mpr ⟨x, hx, hk.symm⟩)
      rw [hnone] at ih
      cases hok : ok e <;> simp [hk, hok, ih, Option.filter]
    · simp [hk, ih]

theorem child?_eq_filter (ht : t.Tidy) (ok : Entry → Bool) (n : String) :
    t.child? ok n = (t.entryAt? (Text.lower n)).filter ok :=
  find?_and_key (tidy_iff.mp ht) ok (Text.lower n)

theorem Tidy.of_entryAt? (ht : t.Tidy) {k : String} (h : t.entryAt? k = some e) : e.Tidy :=
  (tidy_iff.mp ht).2 e (List.mem_of_find?_eq_some h)

/-- A search finds what stands at the place of the path. -/
theorem findFrom?_eq_at? (ht : t.Tidy) {ns : List String} (hne : ns ≠ []) :
    findFrom? (fun _ => true) t ns = t.at? (ns.map Text.lower) := by
  induction ns generalizing t with
  | nil => exact absurd rfl hne
  | cons n ns ih =>
    have hat : t.at? ((n :: ns).map Text.lower) =
        (t.entryAt? (Text.lower n)).bind (·.reach (ns.map Text.lower)) := rfl
    rw [hat]
    cases ns with
    | nil =>
      rw [findFrom?, child?_eq_entryAt?]
      cases t.entryAt? (Text.lower n) <;> simp
    | cons m ns =>
      rw [findFrom?, child?_eq_filter ht]
      · cases hn : t.entryAt? (Text.lower n) with
        | none => rfl
        | some e =>
          cases e with
          | file => rfl
          | folder k i =>
            have hi : i.Tidy := ht.of_entryAt? hn
            simpa [Option.filter, Entry.isFolder, at?] using ih hi (by simp)
      · simp

theorem find?_eq_at? (ht : t.Tidy) {path : String} (hne : place path ≠ []) :
    t.find? path = t.at? (place path) :=
  findFrom?_eq_at? ht fun h => hne (by rw [place, h]; rfl)

/-! ### Changes -/

theorem mem_putAmong {x : Entry} (h : x ∈ putAmong e es) : x = e ∨ x ∈ es := by
  induction es with
  | nil => exact .inl (List.mem_singleton.mp h)
  | cons y es ih =>
    rw [putAmong] at h
    split at h
    · exact (List.mem_cons.mp h).imp_right (List.mem_cons_of_mem y)
    · obtain rfl | h := List.mem_cons.mp h
      · exact .inr List.mem_cons_self
      · exact (ih h).imp_right (List.mem_cons_of_mem y)

theorem map_key_putAmong (e : Entry) (es : List Entry) :
    (putAmong e es).map Entry.key =
      if e.key ∈ es.map Entry.key then es.map Entry.key else es.map Entry.key ++ [e.key] := by
  have hkey : Text.lower e.name = e.key := rfl
  induction es with
  | nil => rfl
  | cons x es ih =>
    simp only [putAmong, Entry.isNamed_eq, hkey, List.map_cons, List.mem_cons]
    by_cases hx : x.key = e.key
    · simp [hx]
    · have hne : e.key ≠ x.key := fun h => hx h.symm
      simp only [beq_iff_eq, hx, if_false, List.map_cons, ih, hne, false_or]
      split <;> rfl

theorem nodup_ite_concat {ks : List String} (h : ks.Nodup) (k : String) :
    (if k ∈ ks then ks else ks ++ [k]).Nodup := by
  split
  next => exact h
  next hnew =>
    rw [← List.concat_eq_append]
    exact h.concat hnew

theorem TidyRow.putAmong (h : TidyRow es) (he : e.Tidy) : TidyRow (putAmong e es) := by
  refine ⟨?_, fun x hx => (mem_putAmong hx).elim (· ▸ he) (h.2 x)⟩
  rw [map_key_putAmong]
  exact nodup_ite_concat h.1 e.key

theorem Tidy.put (ht : t.Tidy) (he : e.Tidy) : (t.put e).Tidy :=
  tidy_ofEntries_iff.mpr ((tidy_iff.mp ht).putAmong he)

/-- The row stays tidy if the entry that is changed keeps its name and is tidy, or is left out. -/
theorem TidyRow.changeFirst {p : Entry → Bool} {f : Entry → Option Entry} (h : TidyRow es)
    (hf : ∀ e ∈ es, p e = true → e.Tidy → ∀ x ∈ f e, x.key = e.key ∧ x.Tidy) :
    TidyRow (changeFirst p f es) := by
  have hsub : ((Tree.changeFirst p f es).map Entry.key).Sublist (es.map Entry.key) ∧
      ∀ x ∈ Tree.changeFirst p f es, x.Tidy := by
    have htidy := h.2
    clear h
    induction es with
    | nil => exact ⟨List.Sublist.refl _, by simp [Tree.changeFirst]⟩
    | cons e es ih =>
      rw [List.forall_mem_cons] at htidy
      have ih := ih (fun x hx => hf x (List.mem_cons_of_mem e hx)) htidy.2
      rw [Tree.changeFirst]
      split
      next hp =>
        have hf := hf e List.mem_cons_self hp htidy.1
        cases hx : f e with
        | none => exact ⟨List.sublist_cons_self _ _, htidy.2⟩
        | some x =>
          obtain ⟨hkey, hxt⟩ := hf x hx
          refine ⟨by simp [hkey], ?_⟩
          simpa using ⟨hxt, htidy.2⟩
      next => exact ⟨ih.1.cons_cons _, List.forall_mem_cons.mpr ⟨htidy.1, ih.2⟩⟩
  exact ⟨hsub.1.nodup h.1, hsub.2⟩

theorem Tidy.changeChild (ht : t.Tidy) {ok : Entry → Bool} {n : String} {f : Entry → Option Entry}
    (hf : ∀ e ∈ t.entries, e.key = Text.lower n → e.Tidy → ∀ x ∈ f e, x.key = e.key ∧ x.Tidy) :
    (t.changeChild ok n f).Tidy := by
  refine tidy_ofEntries_iff.mpr ((tidy_iff.mp ht).changeFirst fun e he hp => hf e he ?_)
  rw [Bool.and_eq_true, Entry.isNamed_eq, beq_iff_eq] at hp
  exact hp.2

theorem Tidy.changeAt {f : Entry → Option Entry}
    (hf : ∀ e, e.Tidy → ∀ x ∈ f e, x.key = e.key ∧ x.Tidy) (ht : t.Tidy) (ns : List String) :
    (changeAt f t ns).Tidy := by
  induction ns generalizing t with
  | nil => exact ht
  | cons n ns ih =>
    cases ns with
    | nil => exact ht.changeChild fun e _ _ he => hf e he
    | cons m ns =>
      rw [Tree.changeAt]
      · refine ht.changeChild fun e _ _ he x hx => ?_
        cases e with
        | file =>
          cases hx
          exact ⟨rfl, trivial⟩
        | folder k i =>
          cases hx
          exact ⟨rfl, ih he⟩
      · simp

theorem Tidy.removeAt (ht : t.Tidy) (ns : List String) : (t.removeAt ns).Tidy :=
  ht.changeAt (by simp) ns

theorem Tidy.emptyAt (ht : t.Tidy) (ns : List String) : (t.emptyAt ns).Tidy := by
  refine ht.changeAt (fun e _ x hx => ?_) ns
  cases e with
  | file =>
    cases hx
    exact ⟨rfl, trivial⟩
  | folder =>
    cases hx
    exact ⟨rfl, trivial⟩

theorem Tidy.inFolder {f : Tree → Tree} (hf : ∀ i, i.Tidy → (f i).Tidy) (ht : t.Tidy)
    {ns : List String} (h : inFolder f t ns = .ok t') : t'.Tidy := by
  induction ns generalizing t t' with
  | nil =>
    cases h
    exact hf t ht
  | cons n ns ih =>
    rw [Tree.inFolder, child?_eq_entryAt?] at h
    cases hn : t.entryAt? (Text.lower n) with
    | none =>
      simp only [hn] at h
      cases hi : Tree.inFolder f nil ns with
      | error => simp [hi, Except.map] at h
      | ok i =>
        obtain rfl : ofEntries (t.entries ++ [.folder n i]) = t' := by
          simpa [hi, Except.map] using h
        have hi : i.Tidy := ih tidy_nil hi
        have hnew : Text.lower n ∉ t.entries.map Entry.key := by
          rw [entryAt?, List.find?_eq_none] at hn
          rintro hmem
          obtain ⟨e, he, hkey⟩ := List.mem_map.mp hmem
          exact hn e he (beq_iff_eq.mpr hkey)
        obtain ⟨hnodup, hall⟩ := tidy_iff.mp ht
        refine tidy_ofEntries_iff.mpr ⟨?_, ?_⟩
        · have hkeys := nodup_ite_concat hnodup (Text.lower n)
          rw [if_neg hnew] at hkeys
          rw [List.map_append]
          exact hkeys
        · intro e he
          obtain he | he := List.mem_append.mp he
          · exact hall e he
          · obtain rfl := List.mem_singleton.mp he
            exact hi
    | some e =>
      cases e with
      | file => simp [hn] at h
      | folder m i =>
        simp only [hn] at h
        cases hi : Tree.inFolder f i ns with
        | error => simp [hi, Except.map] at h
        | ok i' =>
          obtain rfl : (t.changeChild (fun _ => true) n fun _ => some (.folder m i')) = t' := by
            simpa [hi, Except.map] using h
          have hi' : i'.Tidy := ih (ht.of_entryAt? hn) hi
          have hkey : (Entry.folder m i).key = Text.lower n := entryAt?_key hn
          refine ht.changeChild fun e _ hek _ x hx => ?_
          cases hx
          exact ⟨hkey.trans hek.symm, hi'⟩

theorem Tidy.addFile (ht : t.Tidy) {ns : List String} (h : t.addFile ns = .ok t') : t'.Tidy := by
  obtain rfl | ⟨ns, n, rfl⟩ := List.eq_nil_or_concat ns
  · cases h
  · rw [List.concat_eq_append, addFile_concat] at h
    exact ht.inFolder (fun i hi => hi.put (tidy_file n none)) h

/-! ### Merges and moves -/

theorem map_key_mergeFolder (n : String) (i : Tree) (into : Tree → Tree) (es : List Entry) :
    (mergeFolder n i into es).map Entry.key =
      if Text.lower n ∈ es.map Entry.key then es.map Entry.key
      else es.map Entry.key ++ [Text.lower n] := by
  induction es with
  | nil => rfl
  | cons x es ih =>
    simp only [mergeFolder, Entry.isNamed_eq, List.map_cons, List.mem_cons]
    by_cases hx : x.key = Text.lower n
    · cases x <;> simp_all [Entry.key, Entry.name]
    · have hne : Text.lower n ≠ x.key := fun h => hx h.symm
      simp only [beq_iff_eq, hx, if_false, List.map_cons, ih, hne, false_or]
      split <;> rfl

theorem mem_mergeFolder {n : String} {i : Tree} {into : Tree → Tree} {x : Entry}
    (h : x ∈ mergeFolder n i into es) :
    x = .folder n i ∨ x ∈ es ∨ ∃ m j, .folder m j ∈ es ∧ x = .folder m (into j) := by
  induction es with
  | nil => exact .inl (List.mem_singleton.mp h)
  | cons y es ih =>
    simp only [mergeFolder] at h
    split at h
    · obtain hx | h := List.mem_cons.mp h
      · cases y with
        | file => exact .inl hx
        | folder m j => exact .inr (.inr ⟨m, j, List.mem_cons_self, hx⟩)
      · exact .inr (.inl (List.mem_cons_of_mem y h))
    · obtain rfl | h := List.mem_cons.mp h
      · exact .inr (.inl List.mem_cons_self)
      · obtain h | h | ⟨m, j, hj, hx⟩ := ih h
        · exact .inl h
        · exact .inr (.inl (List.mem_cons_of_mem y h))
        · exact .inr (.inr ⟨m, j, List.mem_cons_of_mem y hj, hx⟩)

theorem Tidy.merge (ht : t.Tidy) (hu : u.Tidy) : (t.merge u).Tidy := by
  induction u generalizing t with
  | nil => exact ht
  | file n o rest ih =>
    rw [Tree.merge]
    exact ih (ht.put (tidy_file n o)) hu.2
  | folder n i rest ihi ih =>
    rw [Tree.merge]
    obtain ⟨hnodup, hall⟩ := tidy_iff.mp ht
    refine ih (tidy_ofEntries_iff.mpr ⟨?_, fun x hx => ?_⟩) hu.2.2
    · rw [map_key_mergeFolder]
      exact nodup_ite_concat hnodup (Text.lower n)
    · obtain rfl | hx | ⟨m, j, hj, rfl⟩ := mem_mergeFolder hx
      · exact hu.2.1
      · exact hall x hx
      · exact ihi (hall _ hj) hu.2.1

theorem Tidy.of_findFrom? {ok : Entry → Bool} (ht : t.Tidy) {ns : List String}
    (h : findFrom? ok t ns = some e) : e.Tidy := by
  induction ns generalizing t with
  | nil => cases h
  | cons n ns ih =>
    have hchild : ∀ {ok : Entry → Bool} {x : Entry}, t.child? ok n = some x → x.Tidy := fun hx =>
      (tidy_iff.mp ht).2 _ (List.mem_of_find?_eq_some hx)
    cases ns with
    | nil => exact hchild h
    | cons m ns =>
      rw [findFrom?] at h
      · split at h
        next k i hx => exact ih (hchild hx) h
        next => cases h
      · simp

theorem tidy_rename (he : e.Tidy) (n : String) : (e.rename n).Tidy := by
  cases e <;> exact he

theorem Tidy.move (ht : t.Tidy) (he : e.Tidy) {source : List String} {path : String}
    (h : t.move source e path = .ok t') : t'.Tidy := by
  simp only [Tree.move] at h
  split at h
  next => cases h
  next n _ =>
    split at h
    next =>
      cases h
      exact ht
    next =>
      cases hmade : Tree.inFolder id t (targetNames e path).dropLast with
      | error => simp [hmade, Except.bind] at h
      | ok made =>
        have hremoved : (made.removeAt source).Tidy :=
          (ht.inFolder (fun _ hi => hi) hmade).removeAt source
        simp only [hmade, Except.bind] at h
        split at h
        next =>
          cases h
          exact hremoved
        next => exact hremoved.inFolder (fun i hi => hi.put (tidy_rename he n)) h

end Tree

end ModWizard
