import ModWizard.Table

/-!
# Lemmas about tables

A key that is not in a table goes to its end, so pairs with distinct keys are written to a table
one after the other; a key that has a value keeps its place.  The values are what the keys lead to.
-/

namespace ModWizard.Table

universe u v

variable {κ : Type u} {α : Type v} [DecidableEq κ]

theorem write_of_notMem {k : κ} {a : α} {es : List (κ × α)} (h : k ∉ es.map Prod.fst) :
    write k a es = es ++ [(k, a)] := by
  induction es with
  | nil => rfl
  | cons e es ih =>
    obtain ⟨k', b⟩ := e
    rw [List.map_cons, List.mem_cons, not_or] at h
    have hk : k' ≠ k := fun he => h.1 he.symm
    simp [write, hk, ih h.2]

/-- A new key goes to the end. -/
theorem entries_insert_of_notMem {t : Table κ α} {k : κ} (a : α) (h : k ∉ t.keys) :
    (t.insert k a).entries = t.entries ++ [(k, a)] :=
  write_of_notMem h

theorem write_of_lookup_eq_some {k : κ} {a : α} {es : List (κ × α)} (h : lookup k es = some a) :
    write k a es = es := by
  induction es with
  | nil => cases h
  | cons e es ih =>
    obtain ⟨k', b⟩ := e
    by_cases hk : k' = k
    · rw [lookup, if_pos hk] at h
      cases h
      rw [write, if_pos hk]
    · rw [lookup, if_neg hk] at h
      rw [write, if_neg hk, ih h]

/-- A value written to the key that has it changes nothing. -/
theorem insert_of_get?_eq_some {t : Table κ α} {k : κ} {a : α} (h : t.get? k = some a) :
    t.insert k a = t :=
  ext (write_of_lookup_eq_some h)

theorem write_write (k : κ) (a b : α) (es : List (κ × α)) :
    write k b (write k a es) = write k b es := by
  induction es with
  | nil => simp [write]
  | cons e es ih =>
    obtain ⟨k', c⟩ := e
    by_cases hk : k' = k <;> simp [write, hk, ih]

/-- Of two values written to a key the second stays. -/
theorem insert_insert (t : Table κ α) (k : κ) (a b : α) :
    (t.insert k a).insert k b = t.insert k b :=
  ext (write_write k a b t.entries)

theorem map_fst_write_of_mem {k : κ} {a : α} {es : List (κ × α)} (h : k ∈ es.map Prod.fst) :
    (write k a es).map Prod.fst = es.map Prod.fst := by
  induction es with
  | nil => cases h
  | cons e es ih =>
    obtain ⟨k', b⟩ := e
    by_cases hk : k' = k
    · rw [write, if_pos hk]
      rfl
    · have hm : k ∈ es.map Prod.fst := (List.mem_cons.mp h).resolve_left fun he => hk he.symm
      rw [write, if_neg hk, List.map_cons, List.map_cons, ih hm]

/-- The keys stay in their places when a value is written to one of them. -/
theorem keys_insert_of_mem {t : Table κ α} {k : κ} (a : α) (h : k ∈ t.keys) :
    (t.insert k a).keys = t.keys :=
  map_fst_write_of_mem h

theorem mem_keys_insert {t : Table κ α} {k k' : κ} {a : α} :
    k' ∈ (t.insert k a).keys ↔ k' = k ∨ k' ∈ t.keys :=
  mem_keys_write

/-- There is at most one entry more once a value is written. -/
theorem length_entries_insert_le (t : Table κ α) (k : κ) (a : α) :
    (t.insert k a).entries.length ≤ t.entries.length + 1 := by
  by_cases h : k ∈ t.keys
  · have hkeys := congrArg List.length (keys_insert_of_mem a h)
    rw [keys, keys, List.length_map, List.length_map] at hkeys
    omega
  · exact Nat.le_of_eq
      (by rw [entries_insert_of_notMem a h, List.length_append, List.length_singleton])

theorem filter_write_of_eq_false {p : κ → Bool} {k : κ} (h : p k = false) (a : α)
    (es : List (κ × α)) :
    ((write k a es).filter fun e => p e.1) = es.filter fun e => p e.1 := by
  induction es with
  | nil => simp [write, h]
  | cons e es ih =>
    obtain ⟨k', b⟩ := e
    by_cases hk : k' = k
    · simp [write, hk, h]
    · simp [write, hk, List.filter_cons, ih]

/-- A value written to a key that fails a test leaves the keys that pass it as they are. -/
theorem filterKeys_insert_of_eq_false {p : κ → Bool} {k : κ} (h : p k = false) (a : α)
    (t : Table κ α) : (t.insert k a).filterKeys p = t.filterKeys p :=
  ext (filter_write_of_eq_false h a t.entries)

theorem lookup_eq_some_iff {k : κ} {a : α} {es : List (κ × α)} (h : (es.map Prod.fst).Nodup) :
    lookup k es = some a ↔ (k, a) ∈ es := by
  induction es with
  | nil => simp [lookup]
  | cons e es ih =>
    obtain ⟨k', b⟩ := e
    rw [List.map_cons, List.nodup_cons] at h
    rw [lookup, List.mem_cons, Prod.mk.injEq]
    by_cases hk : k' = k
    · subst hk
      have hes : (k', a) ∉ es := fun hm => h.1 (List.mem_map.mpr ⟨_, hm, rfl⟩)
      simp [hes, eq_comm]
    · simp [hk, Ne.symm hk, ih h.2]

theorem get?_eq_some_iff {t : Table κ α} {k : κ} {a : α} :
    t.get? k = some a ↔ (k, a) ∈ t.entries :=
  lookup_eq_some_iff t.nodup

theorem mem_keys_iff {t : Table κ α} {k : κ} : k ∈ t.keys ↔ ∃ a, t.get? k = some a := by
  simp [keys, get?_eq_some_iff]

theorem contains_iff_mem_keys {t : Table κ α} {k : κ} : t.contains k = true ↔ k ∈ t.keys := by
  rw [contains, Option.isSome_iff_exists, mem_keys_iff]

theorem mem_values_iff {t : Table κ α} {a : α} : a ∈ t.values ↔ ∃ k, t.get? k = some a := by
  simp [values, get?_eq_some_iff]

theorem entries_foldl_insert {ps : List (κ × α)} {t : Table κ α}
    (h : (t.keys ++ ps.map Prod.fst).Nodup) :
    (ps.foldl (fun t p => t.insert p.1 p.2) t).entries = t.entries ++ ps := by
  induction ps generalizing t with
  | nil => simp
  | cons p ps ih =>
    have hp : p.1 ∉ t.keys := by
      intro hm
      exact (List.nodup_append.mp h).2.2 _ hm _ (by simp) rfl
    have he := entries_insert_of_notMem (t := t) p.2 hp
    rw [List.foldl_cons, ih, he, List.append_assoc, List.singleton_append]
    rw [keys, he, List.map_append, List.append_assoc]
    simpa [keys] using h

/-- Pairs with distinct keys are the entries of the table that they write. -/
theorem entries_ofList {ps : List (κ × α)} (h : (ps.map Prod.fst).Nodup) :
    (ofList ps).entries = ps := by
  rw [ofList, entries_foldl_insert (by simpa using h), entries_empty, List.nil_append]

/-- Of several values that pairs write to a key the last one stays. -/
theorem get?_ofList (ps : List (κ × α)) (k : κ) :
    (ofList ps).get? k = (ps.reverse.find? (·.1 == k)).map Prod.snd := by
  have hfold : ∀ t : Table κ α, (ps.foldl (fun t p => t.insert p.1 p.2) t).get? k =
      ((ps.reverse.find? (·.1 == k)).map Prod.snd).or (t.get? k) := by
    induction ps with
    | nil => exact fun t => rfl
    | cons p ps ih =>
      intro t
      rw [List.foldl_cons, ih, get?_insert, List.reverse_cons, List.find?_append]
      cases ps.reverse.find? (·.1 == k) with
      | some q => rfl
      | none => by_cases hp : p.1 = k <;> simp [hp]
  rw [ofList, hfold, get?_empty, Option.or_none]

/-- The keys of a table come from the pairs that it was written by. -/
theorem mem_keys_ofList {ps : List (κ × α)} {k : κ} (h : k ∈ (ofList ps).keys) :
    k ∈ ps.map Prod.fst := by
  have hfold : ∀ t : Table κ α, k ∈ (ps.foldl (fun t p => t.insert p.1 p.2) t).keys →
      k ∈ t.keys ∨ k ∈ ps.map Prod.fst := by
    clear h
    induction ps with
    | nil => exact fun t h => .inl h
    | cons p ps ih =>
      intro t h
      rw [List.map_cons, List.mem_cons]
      obtain h | h := ih (t.insert p.1 p.2) h
      · obtain rfl | h := mem_keys_insert.mp h
        · exact .inr (.inl rfl)
        · exact .inl h
      · exact .inr (.inr h)
  exact (hfold ∅ h).resolve_left (by simp)

end ModWizard.Table
