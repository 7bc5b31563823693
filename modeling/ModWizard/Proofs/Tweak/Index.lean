import Mathlib.Data.List.Induction
import ModWizard.Proofs.Table
import ModWizard.Tweak.Merge

/-!
# The tweaks by section and setting

What is found under a section and a setting after a list of tweaks has been entered: what the last
tweak about the setting says, unless a later tweak names the same section in other letters than
the key's.  Such a tweak begins the section anew.
-/

namespace ModWizard

namespace Keyword

/-- The keys are in small letters. -/
@[simp] theorem lower_key (k : Keyword) : Text.lower k.key = k.key := by
  cases k <;> decide +kernel

theorem key_injective : Function.Injective key := by
  intro k k' h
  cases k <;> cases k' <;> first | rfl | exact absurd h (by decide)

@[simp] theorem key_inj {k k' : Keyword} : k.key = k'.key ↔ k = k' := key_injective.eq_iff

end Keyword

namespace Tweak.Merge

variable {α : Type}

namespace Index

theorem find?_eq_some_iff {x : Index α} {key s : String} {a : α} :
    x.find? key s = some a ↔ ∃ t, x.get? key = some t ∧ t.get? s = some a :=
  Option.bind_eq_some_iff

/-- An entry is found where it has been made.  The rest of its section stays if the section was
named by its key. -/
theorem find?_add {x : Index α} {sectionName : String}
    (h : x.contains sectionName = true → Text.lower sectionName = sectionName)
    (setting : String) (a : α) (key s : String) :
    (x.add sectionName setting a).find? key s =
      if Text.lower sectionName = key then
        if setting = s then some a else if sectionName = key then x.find? key s else none
      else x.find? key s := by
  by_cases hkey : Text.lower sectionName = key
  · subst hkey
    rw [if_pos rfl]
    simp only [find?, add, Table.get?_insert, if_true, Option.bind_some]
    by_cases hs : setting = s
    · rw [if_pos hs, if_pos hs]
    · rw [if_neg hs, if_neg hs]
      by_cases hc : x.contains sectionName = true
      · rw [if_pos hc, if_pos (h hc).symm]
        cases x.get? (Text.lower sectionName) <;> rfl
      · rw [if_neg hc, Table.get?_empty]
        split
        next he =>
          rw [← he]
          rw [Table.contains, Option.not_isSome_iff_eq_none] at hc
          rw [hc, Option.bind_none]
        next => rfl
  · rw [if_neg hkey]
    simp only [find?, add, Table.get?_insert, if_neg hkey]

/-- What is found after an entry is that entry, or was found before. -/
theorem of_find?_add {x : Index α} {sectionName setting key s : String} {a b : α}
    (h : (x.add sectionName setting a).find? key s = some b) :
    Text.lower sectionName = key ∧ setting = s ∧ a = b ∨ x.find? key s = some b := by
  simp only [find?, add, Table.get?_insert] at h ⊢
  by_cases hkey : Text.lower sectionName = key
  · subst hkey
    rw [if_pos rfl, Option.bind_some, Table.get?_insert] at h
    by_cases hs : setting = s
    · rw [if_pos hs, Option.some.injEq] at h
      exact .inl ⟨rfl, hs, h⟩
    · rw [if_neg hs] at h
      split at h
      next =>
        right
        cases hx : x.get? (Text.lower sectionName) with
        | none => simp [hx] at h
        | some t => simpa [hx] using h
      next => simp at h
  · rw [if_neg hkey] at h
    exact .inr h

theorem find?_drop (x : Index α) (key s key' s' : String) :
    (x.drop key s).find? key' s' = if key = key' ∧ s = s' then none else x.find? key' s' := by
  unfold drop find?
  cases hx : x.get? key with
  | none =>
    simp only
    by_cases hk : key = key'
    · simp [← hk, hx]
    · simp [hk]
  | some t =>
    simp only [Table.get?_insert]
    by_cases hk : key = key'
    · subst hk
      simp [hx]
    · simp [hk]

/-- The sections stay when an entry is removed. -/
@[simp] theorem keys_drop (x : Index α) (key s : String) : (x.drop key s).keys = x.keys := by
  unfold drop
  split
  next t ht => exact Table.keys_insert_of_mem _ (Table.mem_keys_iff.mpr ⟨t, ht⟩)
  next => rfl

/-- All that has been entered, section by section. -/
def items (x : Index α) : List α := x.values.flatMap Table.values

theorem mem_items_iff {x : Index α} {a : α} : a ∈ x.items ↔ ∃ key s, x.find? key s = some a := by
  simp only [items, List.mem_flatMap, Table.mem_values_iff, find?_eq_some_iff]
  constructor
  · rintro ⟨t, ⟨key, ht⟩, s, hs⟩
    exact ⟨key, s, t, ht, hs⟩
  · rintro ⟨key, s, t, ht, hs⟩
    exact ⟨t, ⟨key, ht⟩, s, hs⟩

end Index

/-! ### Entering a list -/

/-- Something to enter under a section and a setting. -/
structure Entry (α : Type) where
  sectionName : String
  setting : String
  item : α

namespace Entry

/-- Whether an entry is made in the section of a keyword. -/
def isIn (k : Keyword) (e : Entry α) : Bool := Text.lower e.sectionName == k.key

/-- Whether an entry is made for a setting of a keyword. -/
def isAbout (k : Keyword) (s : String) (e : Entry α) : Bool := e.isIn k && e.setting == s

end Entry

/-- The entries made one after the other. -/
def gather (es : List (Entry α)) : Index α :=
  es.foldl (fun x e => x.add e.sectionName e.setting e.item) ∅

/-- What the last entry about a setting says. -/
def last? (es : List (Entry α)) (k : Keyword) (s : String) : Option α :=
  (es.reverse.find? (·.isAbout k s)).map Entry.item

/-- Whether every entry of the section that comes after the last about a setting names the section
by its key. -/
def Kept (es : List (Entry α)) (k : Keyword) (s : String) : Prop :=
  ∀ e ∈ es.reverse.takeWhile (!·.isAbout k s), e.isIn k = true → e.sectionName = k.key

instance (es : List (Entry α)) (k : Keyword) (s : String) : Decidable (Kept es k s) :=
  inferInstanceAs (Decidable (∀ e ∈ es.reverse.takeWhile (!·.isAbout k s),
    e.isIn k = true → e.sectionName = k.key))

@[simp] theorem gather_concat (es : List (Entry α)) (e : Entry α) :
    gather (es ++ [e]) = (gather es).add e.sectionName e.setting e.item := by
  simp [gather]

theorem last?_concat (es : List (Entry α)) (e : Entry α) (k : Keyword) (s : String) :
    last? (es ++ [e]) k s = if e.isAbout k s then some e.item else last? es k s := by
  simp only [last?, List.reverse_concat, List.find?_cons]
  cases e.isAbout k s <;> rfl

theorem kept_concat_iff {es : List (Entry α)} {e : Entry α} {k : Keyword} {s : String} :
    Kept (es ++ [e]) k s ↔
      e.isAbout k s = true ∨ (e.isIn k = true → e.sectionName = k.key) ∧ Kept es k s := by
  simp only [Kept, List.reverse_concat, List.takeWhile_cons]
  cases e.isAbout k s <;> simp

/-- A section is present if an entry was made in it. -/
theorem mem_keys_gather {es : List (Entry α)} {key : String} :
    key ∈ (gather es).keys ↔ ∃ e ∈ es, Text.lower e.sectionName = key := by
  induction es using List.reverseRecOn with
  | nil => simp [gather]
  | append_singleton es e ih =>
    rw [gather_concat, Index.add, Table.mem_keys_insert, ih]
    simp only [List.mem_append, List.mem_singleton]
    grind

/-- Sections named by keywords. -/
def OfKeywords (es : List (Entry α)) : Prop := ∀ e ∈ es, ∃ k : Keyword, e.isIn k = true

theorem lower_eq_of_contains_gather {es : List (Entry α)} (h : OfKeywords es) {key : String}
    (hc : (gather es).contains key = true) : Text.lower key = key := by
  obtain ⟨e, he, rfl⟩ := mem_keys_gather.mp (Table.contains_iff_mem_keys.mp hc)
  obtain ⟨k, hk⟩ := h e he
  rw [eq_of_beq hk, Keyword.lower_key]

/-- What is found for a setting is what its last entry says, if that is kept. -/
theorem find?_gather {es : List (Entry α)} (h : OfKeywords es) (k : Keyword) (s : String) :
    (gather es).find? k.key s = if Kept es k s then last? es k s else none := by
  induction es using List.reverseRecOn with
  | nil => simp [gather, last?, Index.find?]
  | append_singleton es e ih =>
    have hes : OfKeywords es := fun e' he' => h e' (List.mem_append_left _ he')
    rw [gather_concat, Index.find?_add (lower_eq_of_contains_gather hes), ih hes, last?_concat]
    simp only [kept_concat_iff, Entry.isAbout, Entry.isIn, Bool.and_eq_true, beq_iff_eq]
    grind

/-- What is found has been entered there. -/
theorem exists_of_find?_gather {es : List (Entry α)} {key s : String} {a : α}
    (h : (gather es).find? key s = some a) :
    ∃ e ∈ es, Text.lower e.sectionName = key ∧ e.setting = s ∧ e.item = a := by
  induction es using List.reverseRecOn with
  | nil => simp [gather, Index.find?] at h
  | append_singleton es e ih =>
    rw [gather_concat] at h
    obtain hnew | hold := Index.of_find?_add h
    · exact ⟨e, by simp, hnew⟩
    · obtain ⟨e', he', habout⟩ := ih hold
      exact ⟨e', List.mem_append_left _ he', habout⟩

/-- No section is without an entry. -/
theorem ne_nil_of_mem_values_gather {es : List (Entry α)} {t : Table String α}
    (h : t ∈ (gather es).values) : t.values ≠ [] := by
  obtain ⟨key, ht⟩ := Table.mem_values_iff.mp h
  suffices hs : ∃ s a, t.get? s = some a by
    obtain ⟨s, a, ha⟩ := hs
    exact List.ne_nil_of_mem (Table.mem_values_iff.mpr ⟨s, ha⟩)
  clear h
  induction es using List.reverseRecOn with
  | nil => simp [gather] at ht
  | append_singleton es e ih =>
    rw [gather_concat, Index.add, Table.get?_insert] at ht
    split at ht
    · cases ht
      exact ⟨e.setting, e.item, by simp⟩
    · exact ih ht

/-! ### The tweaks -/

/-- The entry of an edit. -/
def entry (e : Edit) : Entry Edit := ⟨e.sectionName, e.setting, e⟩

/-- The entries of the edits. -/
def editEntries (ts : List Tweak) : List (Entry Edit) := (ts.filterMap edit?).map entry

/-- The entries of the disabled settings. -/
def disabledEntries (ts : List Tweak) : List (Entry Unit) :=
  (ts.filterMap disabled?).map fun d => ⟨d.1, d.2, ()⟩

theorem edits_eq_gather (ts : List Tweak) : edits ts = gather (editEntries ts) := by
  rw [edits, gather, editEntries, List.foldl_map]
  rfl

theorem disabled_eq_gather (ts : List Tweak) : disabled ts = gather (disabledEntries ts) := by
  rw [disabled, gather, disabledEntries, List.foldl_map]

theorem exists_lower_eq_of_isCommand {t : Tweak} (h : t.isCommand = true) :
    ∃ k : Keyword, Text.lower t.sectionName = k.key := by
  obtain ⟨k, hk⟩ := Option.isSome_iff_exists.mp h
  have hkey := List.find?_some hk
  exact ⟨k, (eq_of_beq hkey).symm⟩

/-- Entries that are made in the sections of their tweaks. -/
theorem ofKeywords_map_filterMap {β : Type} {ts : List Tweak} (h : ∀ t ∈ ts, t.isCommand = true)
    {part? : Tweak → Option β} {toEntry : β → Entry α}
    (hsection : ∀ t b, part? t = some b → (toEntry b).sectionName = t.sectionName) :
    OfKeywords ((ts.filterMap part?).map toEntry) := by
  intro x hx
  obtain ⟨b, hb, rfl⟩ := List.mem_map.mp hx
  obtain ⟨t, ht, htb⟩ := List.mem_filterMap.mp hb
  obtain ⟨k, hk⟩ := exists_lower_eq_of_isCommand (h t ht)
  rw [← hsection t b htb] at hk
  exact ⟨k, beq_iff_eq.mpr hk⟩

theorem ofKeywords_editEntries {ts : List Tweak} (h : ∀ t ∈ ts, t.isCommand = true) :
    OfKeywords (editEntries ts) :=
  ofKeywords_map_filterMap h fun t _ ht => by
    cases t with
    | edit =>
      cases ht
      rfl
    | disable => cases ht

theorem ofKeywords_disabledEntries {ts : List Tweak} (h : ∀ t ∈ ts, t.isCommand = true) :
    OfKeywords (disabledEntries ts) :=
  ofKeywords_map_filterMap h fun t _ ht => by
    cases t with
    | edit => cases ht
    | disable =>
      cases ht
      rfl

/-- An edit that is found is in the list. -/
theorem mem_of_find?_edits {ts : List Tweak} {key s : String} {e : Edit}
    (h : (edits ts).find? key s = some e) :
    .edit e ∈ ts ∧ Text.lower e.sectionName = key ∧ e.setting = s := by
  rw [edits_eq_gather] at h
  obtain ⟨x, hx, hkey, hs, rfl⟩ := exists_of_find?_gather h
  obtain ⟨e, he, rfl⟩ := List.mem_map.mp hx
  obtain ⟨t, ht, hte⟩ := List.mem_filterMap.mp he
  cases t with
  | disable => cases hte
  | edit =>
    cases hte
    exact ⟨ht, hkey, hs⟩

/-- A disabled setting that is found is disabled by the list. -/
theorem exists_of_find?_disabled {ts : List Tweak} {key s : String}
    (h : ((disabled ts).find? key s).isSome = true) :
    ∃ sectionName, Text.lower sectionName = key ∧ .disable sectionName s ∈ ts := by
  obtain ⟨u, hu⟩ := Option.isSome_iff_exists.mp h
  rw [disabled_eq_gather] at hu
  obtain ⟨x, hx, hkey, rfl, -⟩ := exists_of_find?_gather hu
  obtain ⟨d, hd, rfl⟩ := List.mem_map.mp hx
  obtain ⟨t, ht, htd⟩ := List.mem_filterMap.mp hd
  cases t with
  | edit => cases htd
  | disable =>
    cases htd
    exact ⟨_, hkey, ht⟩

/-- An edit that is found stands under its own section and setting. -/
theorem of_find?_edits {ts : List Tweak} (h : ∀ t ∈ ts, t.isCommand = true) {key s : String}
    {e : Edit} (he : (edits ts).find? key s = some e) :
    e ∈ ts.filterMap edit? ∧ Text.lower e.sectionName = key ∧ e.setting = s ∧
      ∃ k : Keyword, key = k.key := by
  obtain ⟨ht, hkey, hs⟩ := mem_of_find?_edits he
  obtain ⟨k, hk⟩ := exists_lower_eq_of_isCommand (h _ ht)
  exact ⟨List.mem_filterMap.mpr ⟨_, ht, rfl⟩, hkey, hs, k, hkey.symm.trans hk⟩

end Tweak.Merge

end ModWizard
