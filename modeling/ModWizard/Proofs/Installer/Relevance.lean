import ModWizard.Proofs.Installer.Recall

/-!
# Which settings count

The answers that are remembered when a mod is announced are read from its settings.  A setting
counts if its key begins with a key under which answers are kept, and then it counts as if it had
just that key (`ofSettings?_eq`).  So the settings with other keys can be added and removed at will,
and the settings that count cannot (`dependsOnly_iff`): each of their keys makes a difference to
some settings (`exists_remembered?_ne`).

A key that goes on behind one of the installer's own is not its own, and yet it counts (`Stray`).
-/

namespace ModWizard.Installer

/-- That a key is of those under which answers are kept. -/
def Own (k : String) : Prop := Key.IsSpelling k.toList

instance : DecidablePred Own := fun k => inferInstanceAs (Decidable (Key.IsSpelling k.toList))

/-- That a key begins with one of those. -/
def Counts (k : String) : Prop := ∃ o, Key.IsSpelling o ∧ o <+: k.toList

instance : DecidablePred Counts := fun k =>
  decidable_of_iff ((Key.ofString? k).isSome = true)
    (Option.isSome_iff_exists.trans Key.exists_ofString?_iff)

/-- That a key begins with one of those and goes on behind it. -/
def Stray (k : String) : Prop := Counts k ∧ ¬ Own k

instance : DecidablePred Stray := fun k => inferInstanceAs (Decidable (Counts k ∧ ¬ Own k))

/-- The texts of the settings that count, each with the longest key with which its own begins. -/
def counted (s : Settings) : List (List Char × String) :=
  s.entries.filterMap fun e => (Key.leading? e.1).map fun o => (o, e.2.toText)

/-- That the answers remembered when a mod is announced depend only on the settings whose keys pass
a test, whatever others there are and wherever they stand. -/
def DependsOnly (i : Installer) (p : String → Bool) : Prop :=
  ∀ m m' : Mod, m.settings.filterKeys p = m'.settings.filterKeys p →
    (i.start (some m)).2.1.memory = (i.start (some m')).2.1.memory

/-- That two mods are announced with the same outcome, and leave the installer the same. -/
def AnnouncedAlike (i : Installer) (m m' : Mod) : Prop :=
  (i.start (some m)).1 = (i.start (some m')).1 ∧ (i.start (some m)).2.1 = (i.start (some m')).2.1

/-! ## What settings say -/

theorem Found.note?_of_leading?_none {k : String} (h : Key.leading? k = none) (f : Found)
    (v : Scalar) : f.note? k v = some f := by
  rw [Key.leading?_eq, Option.map_eq_none_iff] at h
  rw [Found.note?, h]

/-- A setting says what it would say with the longest key with which its own begins. -/
theorem Found.note?_of_leading?_some {k : String} {o : List Char} (h : Key.leading? k = some o)
    (f : Found) (v : Scalar) : f.note? k v = f.note? (String.ofList o) (.text v.toText) := by
  rw [Key.leading?_eq, Option.map_eq_some_iff] at h
  obtain ⟨q, hread, rfl⟩ := h
  have hq := (Key.numbered_of_ofString? hread).1
  rw [Found.note?, Found.note?, hread, Key.ofString?_ofList_chars hq]
  rfl

/-- Settings say what those of them say that count. -/
theorem ofSettings?_eq (s : Settings) :
    Found.ofSettings? s =
      (counted s).foldlM (fun f x => f.note? (String.ofList x.1) (.text x.2)) ⟨∅, ∅⟩ := by
  rw [Found.ofSettings?, counted]
  generalize (⟨∅, ∅⟩ : Found) = f
  induction s.entries generalizing f with
  | nil => rfl
  | cons e es ih =>
    rw [List.foldlM_cons]
    cases h : Key.leading? e.1 with
    | none =>
      rw [Found.note?_of_leading?_none h, List.filterMap_cons_none (by rw [h]; rfl), ← ih]
      rfl
    | some o =>
      rw [Found.note?_of_leading?_some h, List.filterMap_cons_some (by rw [h]; rfl),
        List.foldlM_cons]
      exact bind_congr ih

theorem remembered?_congr {s t : Settings} (h : counted s = counted t) :
    remembered? s = remembered? t := by
  rw [remembered?, remembered?, ofSettings?_eq, ofSettings?_eq, h]

/-- The settings that count are there if only keys are dropped that do not. -/
theorem counted_filterKeys {s : Settings} {p : String → Bool}
    (h : ∀ k ∈ s.keys, Counts k → p k = true) : counted (s.filterKeys p) = counted s := by
  rw [counted, counted, Table.filterKeys, List.filterMap_filter]
  refine List.filterMap_congr fun e he => ?_
  cases hk : Key.ofString? e.1 with
  | none => simp [Key.leading?_eq, hk]
  | some q =>
    have hp : p e.1 = true :=
      h e.1 (List.mem_map_of_mem he) (Key.exists_ofString?_iff.mp ⟨q, hk⟩)
    rw [if_pos hp]

/-! ## Keys that make a difference -/

/-- A setting with a new key is read last. -/
theorem ofSettings?_insert {s : Settings} {k : String} (h : k ∉ s.keys) (v : Scalar) :
    Found.ofSettings? (s.insert k v) = (Found.ofSettings? s).bind (·.note? k v) := by
  rw [Found.ofSettings?, Table.entries_insert_of_notMem v h, List.foldlM_append]
  exact Option.bind_congr fun f _ => by rw [List.foldlM_cons]; exact bind_pure _

/-- Settings with nothing but a question. -/
def asking (k : String) : Settings := (∅ : Settings).insert k (.text "Which?")

theorem mem_keys_asking {k l : String} : l ∈ (asking k).keys ↔ l = k := by
  rw [asking, Table.mem_keys_insert, Table.keys_empty]
  simp

section Asking

variable {k l : String} {ds es : List Char} {n m : Nat}

theorem ofSettings?_asking (hk : Key.ofString? k = some (.description ds))
    (hn : Text.number? ds = some n) :
    Found.ofSettings? (asking k) = some ((⟨∅, ∅⟩ : Found).enter "Which?" (.description n)) := by
  rw [asking, ofSettings?_insert (by simp)]
  simp only [Found.ofSettings?, Table.entries_empty, List.foldlM_nil, Option.pure_def,
    Option.bind_some, Found.note?, hk, Key.numbers?, hn, Option.map_some, Scalar.toText]

theorem remembered?_asking (hk : Key.ofString? k = some (.description ds))
    (hn : Text.number? ds = some n) :
    remembered? (asking k) = some (.ofList [("Which?", [])]) := by
  rw [remembered?, ofSettings?_asking hk hn]
  rfl

/-- The question is remembered with the answer that is given to it. -/
theorem remembered?_asking_insert (hk : Key.ofString? k = some (.description ds))
    (hl : Key.ofString? l = some (.answer ds es)) (hn : Text.number? ds = some n)
    (hm : Text.number? es = some m) :
    remembered? ((asking k).insert l (.text "This.")) = some (.ofList [("Which?", ["This."])]) := by
  have hnew : l ∉ (asking k).keys := by
    rw [mem_keys_asking]
    rintro rfl
    cases hk.symm.trans hl
  have hanswers : (((⟨∅, ∅⟩ : Found).enter "Which?" (.description n)).enter "This."
      (.answer n m)).answersOf n = ["This."] := by
    rw [Found.answersOf_eq,
      Found.answersAt_enter_answer _ _ (by simp [Found.answersAt, Found.enter])]
    simp [Found.answersAt, Found.enter]
  rw [remembered?, ofSettings?_insert hnew, ofSettings?_asking hk hn]
  simp only [Option.bind_some, Found.note?, hl, Key.numbers?, hn, hm, Option.map_some,
    Scalar.toText,
    Found.toAnswers]
  rw [← hanswers]
  rfl

end Asking

/-- Settings with a number that has too many digits are not read. -/
theorem remembered?_insert_of_numbers?_none {s : Settings} {k : String} {q : Key (List Char)}
    (hk : Key.ofString? k = some q) (hq : q.numbers? = none) (h : k ∉ s.keys) (v : Scalar) :
    remembered? (s.insert k v) = none := by
  rw [remembered?, ofSettings?_insert h]
  simp only [Found.note?, hk, hq, Option.map_none]
  rw [Option.bind_fun_none, Option.map_none]

/-- Every key that counts makes a difference to some settings. -/
theorem exists_remembered?_ne {k : String} (h : Counts k) :
    ∃ (s : Settings) (v : Scalar),
      (remembered? (s.insert k v)).getD ∅ ≠ (remembered? s).getD ∅ := by
  obtain ⟨q, hread⟩ := Key.exists_ofString?_iff.mpr h
  cases hq : q.numbers? with
  | none =>
    -- The number is too long: the question that is there is not remembered any more.
    have hzero := Key.ofString?_ofList_chars (k := .description ['0']) ⟨by decide, by decide⟩
    refine ⟨asking (String.ofList (Key.description ['0']).chars), .absent, ?_⟩
    rw [remembered?_insert_of_numbers?_none hread hq, remembered?_asking hzero rfl]
    · decide
    · rw [mem_keys_asking]
      rintro rfl
      cases hread.symm.trans hzero
      cases hq
  | some r =>
    cases q with
    | description ds =>
      -- A question is new where there is none.
      obtain ⟨n, hn, -⟩ := Option.map_eq_some_iff.mp hq
      refine ⟨∅, .text "Which?", ?_⟩
      rw [← asking, remembered?_asking hread hn]
      decide
    | answer ds es =>
      -- An answer is not seen without its question, so the question has to be there.
      obtain ⟨n, hn, hq⟩ := Option.bind_eq_some_iff.mp hq
      obtain ⟨m, hm, -⟩ := Option.map_eq_some_iff.mp hq
      have hask := Key.ofString?_ofList_chars (k := .description ds)
        (Key.numbered_of_ofString? hread).1.1
      refine ⟨asking (String.ofList (Key.description ds).chars), .text "This.", ?_⟩
      rw [remembered?_asking_insert hask hread hn hm, remembered?_asking hask hn]
      decide

/-! ## What the answers depend on -/

theorem memory_start (i : Installer) (m : Mod) :
    (i.start (some m)).2.1.memory = some ⟨false, (remembered? m.settings).getD ∅⟩ := by
  simp only [start, Mod.read]
  cases remembered? m.settings with
  | none => rfl
  | some a => rfl

/-- Mods whose settings say the same are announced alike. -/
theorem announcedAlike_of_counted (i : Installer) {m m' : Mod}
    (h : counted m.settings = counted m'.settings) : AnnouncedAlike i m m' := by
  simp only [AnnouncedAlike, start, Mod.read, remembered?_congr h]
  cases remembered? m'.settings with
  | none => exact ⟨rfl, rfl⟩
  | some a => exact ⟨rfl, rfl⟩

/-- The answers depend on the settings that count, and on each of them. -/
theorem dependsOnly_iff {i : Installer} {p : String → Bool} :
    DependsOnly i p ↔ ∀ k, Counts k → p k = true := by
  constructor
  · intro h k hk
    by_contra hp
    -- A key that fails the test may be added to the settings to which it makes a difference.
    obtain ⟨s, v, hne⟩ := exists_remembered?_ne hk
    have hs := h (.ofSettings (s.insert k v)) (.ofSettings s)
      (Table.filterKeys_insert_of_eq_false (Bool.eq_false_iff.mpr hp) v s)
    rw [memory_start, memory_start] at hs
    exact hne (Memory.mk.inj (Option.some.inj hs)).2
  · intro h m m' hm
    have hcounted : counted m.settings = counted m'.settings := by
      rw [← counted_filterKeys fun k _ => h k, hm, counted_filterKeys fun k _ => h k]
    rw [(announcedAlike_of_counted i hcounted).2]

/-- Mods without stray keys are announced alike if their settings with the installer's own keys are
the same. -/
theorem announcedAlike_of_own (i : Installer) {m m' : Mod}
    (hm : ∀ k ∈ m.settings.keys, ¬ Stray k) (hm' : ∀ k ∈ m'.settings.keys, ¬ Stray k)
    (h : m.settings.filterKeys (fun k => Own k) = m'.settings.filterKeys fun k => Own k) :
    AnnouncedAlike i m m' := by
  have hown : ∀ {k}, ¬ Stray k → Counts k → decide (Own k) = true := by
    intro k hk hc
    by_contra ho
    exact hk ⟨hc, of_decide_eq_false (Bool.eq_false_iff.mpr ho)⟩
  refine announcedAlike_of_counted i ?_
  rw [← counted_filterKeys fun k hk => hown (hm k hk), h,
    counted_filterKeys fun k hk => hown (hm' k hk)]

namespace Strays

def installer : Installer where
  organizer := ⟨.plain 9, "Game", "1.0", "1.0", none, none, [], [], ∅, ∅⟩
  memory := none
  disk := .bare

/-- A mod with an answer, as it is kept. -/
def kept : Mod := .ofSettings (.ofList
  [("select0-description", .text "Which maps?"), ("select0-option0", .text "large")])

/-- The mod with keys among its own that do not count. -/
def mixed : Mod := .ofSettings (.ofList
  [("version", .int 3), ("select0-description", .text "Which maps?"),
    ("select0-option", .text "small"), ("Select0-option0", .text "small"),
    ("select0-option0", .text "large"), ("old-select0-option0", .bool true)])

/-- The mod with a key that goes on behind one of its own. -/
def stray : Mod := .ofSettings (.ofList
  [("select0-description", .text "Which maps?"), ("select0-option0", .text "large"),
    ("select0-option0-old", .text "small")])

end Strays

/-- A mod is announced by those of its settings that count, each of them by the longest key with
which its own begins.  The answers that are remembered depend only on the settings whose keys pass a
test exactly if all keys that count pass it.  So they depend only on the installer's own settings in
mods where no other key begins with one of its own. -/
theorem answers_depend_iff (i : Installer) :
    (∀ m m' : Mod, counted m.settings = counted m'.settings → AnnouncedAlike i m m') ∧
    (∀ p, DependsOnly i p ↔ ∀ k, Counts k → p k = true) ∧
    ∀ m m' : Mod, (∀ k ∈ m.settings.keys, ¬ Stray k) → (∀ k ∈ m'.settings.keys, ¬ Stray k) →
      m.settings.filterKeys (fun k => Own k) = m'.settings.filterKeys (fun k => Own k) →
      AnnouncedAlike i m m' :=
  ⟨fun _ _ h => announcedAlike_of_counted i h, fun _ => dependsOnly_iff,
    fun _ _ hm hm' h => announcedAlike_of_own i hm hm' h⟩

open Strays in
/-- Keys that only end with one of the installer's own, or lack a number, or differ in a capital,
can stand anywhere. -/
theorem answers_depend_mixed :
    (∀ k ∈ kept.settings.keys, ¬ Stray k) ∧ (∀ k ∈ mixed.settings.keys, ¬ Stray k) ∧
      kept.settings.filterKeys (fun k => Own k) = mixed.settings.filterKeys (fun k => Own k) ∧
      AnnouncedAlike installer kept mixed := by
  have hkept : ∀ k ∈ kept.settings.keys, ¬ Stray k := by decide +kernel
  have hmixed : ∀ k ∈ mixed.settings.keys, ¬ Stray k := by decide +kernel
  have hown : kept.settings.filterKeys (fun k => Own k) =
      mixed.settings.filterKeys fun k => Own k := by
    decide +kernel
  exact ⟨hkept, hmixed, hown, (answers_depend_iff installer).2.2 kept mixed hkept hmixed hown⟩

open Strays in
/-- A key that goes on behind one of the installer's own takes its place. -/
theorem not_dependsOnly_own :
    kept.settings.filterKeys (fun k => Own k) = stray.settings.filterKeys (fun k => Own k) ∧
      (installer.start (some kept)).2.1.memory =
        some ⟨false, .ofList [("Which maps?", ["large"])]⟩ ∧
      (installer.start (some stray)).2.1.memory =
        some ⟨false, .ofList [("Which maps?", ["small"])]⟩ ∧
      ¬ DependsOnly installer fun k => Own k := by
  have hown : kept.settings.filterKeys (fun k => Own k) =
      stray.settings.filterKeys fun k => Own k := by
    decide +kernel
  have hkept : (installer.start (some kept)).2.1.memory =
      some ⟨false, .ofList [("Which maps?", ["large"])]⟩ := by
    decide +kernel
  have hstray : (installer.start (some stray)).2.1.memory =
      some ⟨false, .ofList [("Which maps?", ["small"])]⟩ := by
    decide +kernel
  refine ⟨hown, hkept, hstray, fun h => ?_⟩
  have hsame := h kept stray hown
  rw [hkept, hstray] at hsame
  revert hsame
  decide

end ModWizard.Installer
