/-!
# Tables

A table gives each of its keys one value and lists its keys in the order in which they
came.  Writing to a present key keeps the key's place; a new key goes to the end.
-/

namespace ModWizard

universe u v

/-- A table: entries in order, no key twice. -/
structure Table (κ : Type u) (α : Type v) where
  entries : List (κ × α)
  nodup : (entries.map Prod.fst).Nodup

namespace Table

variable {κ : Type u} {α : Type v}

/-- The table without entries. -/
def empty : Table κ α := ⟨[], List.nodup_nil⟩

instance : EmptyCollection (Table κ α) := ⟨empty⟩

instance : Inhabited (Table κ α) := ⟨empty⟩

/-- The keys, in order. -/
def keys (t : Table κ α) : List κ := t.entries.map Prod.fst

/-- The values, in the order of their keys. -/
def values (t : Table κ α) : List α := t.entries.map Prod.snd

/-- Two tables with the same entries in the same order are the same. -/
@[ext] theorem ext {t u : Table κ α} (h : t.entries = u.entries) : t = u := by
  cases t; cases u; cases h; rfl

instance [DecidableEq κ] [DecidableEq α] : DecidableEq (Table κ α) := fun t u =>
  if h : t.entries = u.entries then isTrue (ext h) else isFalse fun e => h (e ▸ rfl)

@[simp] theorem entries_empty : (∅ : Table κ α).entries = [] := rfl

@[simp] theorem keys_empty : (∅ : Table κ α).keys = [] := rfl

variable [DecidableEq κ]

/-- The value of a key among some entries. -/
def lookup (k : κ) : List (κ × α) → Option α
  | [] => none
  | (k', a) :: es => if k' = k then some a else lookup k es

/-- Some entries with a value written to a key. -/
def write (k : κ) (a : α) : List (κ × α) → List (κ × α)
  | [] => [(k, a)]
  | (k', b) :: es => if k' = k then (k', a) :: es else (k', b) :: write k a es

theorem mem_keys_write {k x : κ} {a : α} {es : List (κ × α)} :
    x ∈ (write k a es).map Prod.fst ↔ x = k ∨ x ∈ es.map Prod.fst := by
  induction es with
  | nil => simp [write]
  | cons e es ih =>
    obtain ⟨k', b⟩ := e
    by_cases h : k' = k
    · subst h; simp [write]
    · simp only [write, if_neg h, List.map_cons, List.mem_cons, ih]
      grind

theorem nodup_keys_write {k : κ} {a : α} {es : List (κ × α)}
    (h : (es.map Prod.fst).Nodup) : ((write k a es).map Prod.fst).Nodup := by
  induction es with
  | nil => simp [write]
  | cons e es ih =>
    obtain ⟨k', b⟩ := e
    rw [List.map_cons, List.nodup_cons] at h
    by_cases hk : k' = k
    · subst hk; simpa [write] using h
    · simp only [write, if_neg hk, List.map_cons, List.nodup_cons, mem_keys_write]
      exact ⟨fun hm => hm.elim hk h.1, ih h.2⟩

/-- The value of a key. -/
def get? (t : Table κ α) (k : κ) : Option α := lookup k t.entries

/-- Whether a key is present. -/
def contains (t : Table κ α) (k : κ) : Bool := (t.get? k).isSome

/-- The table with a value written to a key. -/
def insert (t : Table κ α) (k : κ) (a : α) : Table κ α :=
  ⟨write k a t.entries, nodup_keys_write t.nodup⟩

/-- The table with the keys that pass a test. -/
def filterKeys (t : Table κ α) (p : κ → Bool) : Table κ α :=
  ⟨t.entries.filter fun e => p e.1, (List.filter_sublist.map _).nodup t.nodup⟩

/-- The table without a key. -/
def erase (t : Table κ α) (k : κ) : Table κ α := t.filterKeys (· ≠ k)

/-- The table written by some pairs one after the other. -/
def ofList (ps : List (κ × α)) : Table κ α := ps.foldl (fun t p => t.insert p.1 p.2) ∅

@[simp] theorem get?_empty (k : κ) : (∅ : Table κ α).get? k = none := rfl

theorem lookup_write (k k' : κ) (a : α) (es : List (κ × α)) :
    lookup k' (write k a es) = if k = k' then some a else lookup k' es := by
  induction es with
  | nil => simp [write, lookup]
  | cons e es ih =>
    obtain ⟨x, b⟩ := e
    by_cases h : x = k
    · subst h; simp only [write, if_pos, lookup]; split <;> rfl
    · simp only [write, if_neg h, lookup, ih]; grind

@[simp] theorem get?_insert (t : Table κ α) (k k' : κ) (a : α) :
    (t.insert k a).get? k' = if k = k' then some a else t.get? k' :=
  lookup_write k k' a t.entries

theorem lookup_filter (p : κ → Bool) (k : κ) (es : List (κ × α)) :
    lookup k (es.filter fun e => p e.1) = if p k then lookup k es else none := by
  induction es with
  | nil => simp [lookup]
  | cons e es ih =>
    obtain ⟨x, b⟩ := e
    by_cases hx : p x
    · simp only [List.filter_cons, hx, if_true, lookup, ih]; grind
    · simp only [List.filter_cons, hx, lookup]; grind

@[simp] theorem get?_filterKeys (t : Table κ α) (p : κ → Bool) (k : κ) :
    (t.filterKeys p).get? k = if p k then t.get? k else none :=
  lookup_filter p k t.entries

@[simp] theorem get?_erase (t : Table κ α) (k k' : κ) :
    (t.erase k).get? k' = if k = k' then none else t.get? k' := by
  simp only [erase, get?_filterKeys]; grind

end Table

end ModWizard
