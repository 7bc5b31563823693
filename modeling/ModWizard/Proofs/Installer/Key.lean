import Mathlib.Data.List.Infix
import Mathlib.Data.List.TakeWhile
import ModWizard.Installer.Memory

/-!
# The keys of the settings

A key is spelled by words and by rows of digits (`chars`).  Reading a text gives the longest key
with which it begins (`ofString?_eq_some_iff`).  So a key that is spelled out is read back
(`ofString?_ofList_chars`), a text that begins with no key is not read (`exists_ofString?_iff`), and
what follows the key is lost (`leading?_eq`).
-/

namespace ModWizard.Installer.Key

/-! ## Spelling -/

/-- A row of digits, at least one. -/
def Numeral (ds : List Char) : Prop := ds ≠ [] ∧ ds.all Char.isDigit = true

/-- How a key is spelled. -/
def chars : Key (List Char) → List Char
  | description i => "select".toList ++ (i ++ "-description".toList)
  | answer i j => "select".toList ++ (i ++ ("-option".toList ++ j))

theorem chars_description (i : List Char) :
    (description i).chars = "select".toList ++ (i ++ "-description".toList) := rfl

theorem chars_answer (i j : List Char) :
    (answer i j).chars = "select".toList ++ (i ++ ("-option".toList ++ j)) := rfl

/-- That the numbers of a key are rows of digits. -/
def Numbered : Key (List Char) → Prop
  | description i => Numeral i
  | answer i j => Numeral i ∧ Numeral j

/-- That a text is the spelling of a key. -/
def IsSpelling (cs : List Char) : Prop := ∃ k : Key (List Char), k.Numbered ∧ k.chars = cs

/-! ## Words and digits -/

/-- A text that begins with a word is that word and what follows it. -/
theorem after?_eq_some_iff {w cs rest : List Char} : after? w cs = some rest ↔ cs = w ++ rest := by
  fun_induction after? w cs with
  | case1 cs => simp
  | case2 w ws => simp
  | case3 ws c cs ih => simp [ih]
  | case4 w ws c cs hne => simp [Ne.symm hne]

theorem after?_append (w cs : List Char) : after? w (w ++ cs) = some cs :=
  after?_eq_some_iff.mpr rfl

/-- The digits at the start of a text end before what is no digit. -/
theorem isDigit_head?_dropWhile (cs : List Char) :
    ∀ c ∈ (cs.dropWhile Char.isDigit).head?, c.isDigit = false := by
  intro c hc
  have hstop := List.head?_dropWhile_not Char.isDigit cs
  rwa [Option.mem_def.mp hc] at hstop

/-- Digits are read up to what is no digit. -/
theorem digits?_eq_some_iff {cs ds rest : List Char} :
    digits? cs = some (ds, rest) ↔
      Numeral ds ∧ cs = ds ++ rest ∧ ∀ c ∈ rest.head?, c.isDigit = false := by
  constructor
  · intro h
    have hds : cs.takeWhile Char.isDigit = ds ∧ ds ≠ [] ∧ cs.dropWhile Char.isDigit = rest := by
      unfold digits? at h
      split at h
      · cases h
      · rename_i hne
        cases h
        exact ⟨rfl, hne, rfl⟩
    obtain ⟨rfl, hne, rfl⟩ := hds
    exact ⟨⟨hne, List.all_takeWhile⟩, List.takeWhile_append_dropWhile.symm,
      isDigit_head?_dropWhile cs⟩
  · rintro ⟨⟨hne, hd⟩, rfl, hrest⟩
    have hd : ∀ c ∈ ds, c.isDigit = true := List.all_eq_true.mp hd
    have hstop : rest.takeWhile Char.isDigit = [] ∧ rest.dropWhile Char.isDigit = rest := by
      cases rest with
      | nil => exact ⟨rfl, rfl⟩
      | cons c cs => simp [hrest c rfl]
    rw [digits?, List.takeWhile_append_of_pos hd, List.dropWhile_append_of_pos hd, hstop.1,
      hstop.2, List.append_nil]
    split
    · contradiction
    · rfl

/-- A row of digits is read together with the digits that follow it. -/
theorem exists_digits?_append {ds : List Char} (h : Numeral ds) (rest : List Char) :
    ∃ more rest', digits? (ds ++ rest) = some (ds ++ more, rest') := by
  have hmore : Numeral (ds ++ rest.takeWhile Char.isDigit) := by
    refine ⟨by simp [h.1], ?_⟩
    rw [List.all_append, h.2, List.all_takeWhile]
    rfl
  refine ⟨_, _, digits?_eq_some_iff.mpr ⟨hmore, ?_, isDigit_head?_dropWhile rest⟩⟩
  rw [List.append_assoc, List.takeWhile_append_dropWhile]

/-! ## Reading -/

theorem ofString?_of_description {s : String} {i rest : List Char} (hi : Numeral i)
    (hs : s.toList = "select".toList ++ (i ++ ("-description".toList ++ rest))) :
    ofString? s = some (description i) := by
  have hd := digits?_eq_some_iff.mpr
    ⟨hi, rfl, show ∀ c ∈ ("-description".toList ++ rest).head?, c.isDigit = false by simp⟩
  rw [ofString?, hs, after?_append, Option.bind_some, hd, Option.bind_some]
  simp only [after?_append, Option.map_some, Option.some_or]

theorem ofString?_of_answer {s : String} {i j cs rest : List Char} (hi : Numeral i)
    (hj : digits? cs = some (j, rest))
    (hs : s.toList = "select".toList ++ (i ++ ("-option".toList ++ cs))) :
    ofString? s = some (answer i j) := by
  have hd := digits?_eq_some_iff.mpr
    ⟨hi, rfl, show ∀ c ∈ ("-option".toList ++ cs).head?, c.isDigit = false by simp⟩
  have hne : after? "-description".toList ("-option".toList ++ cs) = none := by
    simp [after?]
  rw [ofString?, hs, after?_append, Option.bind_some, hd, Option.bind_some]
  simp only [hne, after?_append, Option.map_none, Option.none_or, Option.bind_some, hj,
    Option.map_some]

/-- The key that is read stands at the start of the text. -/
theorem numbered_of_ofString? {s : String} {k : Key (List Char)} (h : ofString? s = some k) :
    k.Numbered ∧ k.chars <+: s.toList := by
  obtain ⟨⟨i, rest⟩, hread, h⟩ := Option.bind_eq_some_iff.mp h
  obtain ⟨cs, hs, hread⟩ := Option.bind_eq_some_iff.mp hread
  rw [after?_eq_some_iff] at hs
  obtain ⟨hi, rfl, -⟩ := digits?_eq_some_iff.mp hread
  obtain h | ⟨-, h⟩ := Option.or_eq_some_iff.mp h
  · obtain ⟨more, hmore, rfl⟩ := Option.map_eq_some_iff.mp h
    rw [after?_eq_some_iff] at hmore
    refine ⟨hi, more, ?_⟩
    rw [hs, hmore]
    simp only [chars_description, List.append_assoc]
  · obtain ⟨⟨j, more⟩, hread, rfl⟩ := Option.map_eq_some_iff.mp h
    obtain ⟨cs, hcs, hread⟩ := Option.bind_eq_some_iff.mp hread
    rw [after?_eq_some_iff] at hcs
    obtain ⟨hj, rfl, -⟩ := digits?_eq_some_iff.mp hread
    refine ⟨⟨hi, hj⟩, more, ?_⟩
    rw [hs, hcs]
    simp only [chars_answer, List.append_assoc]

/-- A text that begins with a key is read, as this key or as a longer one. -/
theorem exists_ofString? {s : String} {k : Key (List Char)} (hk : k.Numbered)
    (h : k.chars <+: s.toList) : ∃ l, ofString? s = some l ∧ k.chars <+: l.chars := by
  obtain ⟨rest, hs⟩ := h
  cases k with
  | description i =>
    simp only [chars_description, List.append_assoc] at hs
    exact ⟨_, ofString?_of_description hk hs.symm, List.prefix_rfl⟩
  | answer i j =>
    simp only [chars_answer, List.append_assoc] at hs
    obtain ⟨more, rest', hread⟩ := exists_digits?_append hk.2 rest
    refine ⟨_, ofString?_of_answer hk.1 hread hs.symm, more, ?_⟩
    simp only [chars_answer, List.append_assoc]

/-- A key is read back as it is spelled. -/
theorem ofString?_ofList_chars {k : Key (List Char)} (hk : k.Numbered) :
    ofString? (String.ofList k.chars) = some k := by
  cases k with
  | description i =>
    have hs : (String.ofList (description i).chars).toList =
        "select".toList ++ (i ++ ("-description".toList ++ [])) := by
      rw [String.toList_ofList, List.append_nil, chars_description]
    exact ofString?_of_description hk hs
  | answer i j =>
    have hj : digits? j = some (j, []) := digits?_eq_some_iff.mpr ⟨hk.2, by simp, by simp⟩
    exact ofString?_of_answer hk.1 hj (by rw [String.toList_ofList, chars_answer])

/-- Different keys are spelled differently. -/
theorem chars_inj {k l : Key (List Char)} (hk : k.Numbered) (hl : l.Numbered)
    (h : k.chars = l.chars) : k = l :=
  Option.some.inj (by rw [← ofString?_ofList_chars hk, h, ofString?_ofList_chars hl])

/-- The key that is read is the longest one with which the text begins. -/
theorem ofString?_eq_some_iff {s : String} {k : Key (List Char)} :
    ofString? s = some k ↔ k.Numbered ∧ k.chars <+: s.toList ∧
      ∀ l : Key (List Char), l.Numbered → l.chars <+: s.toList → l.chars <+: k.chars := by
  constructor
  · intro h
    obtain ⟨hk, hs⟩ := numbered_of_ofString? h
    refine ⟨hk, hs, fun l hl hls => ?_⟩
    obtain ⟨k', hk', hlk⟩ := exists_ofString? hl hls
    cases h.symm.trans hk'
    exact hlk
  · rintro ⟨hk, hs, hmax⟩
    -- What is read begins with `k`, and `k` with what is read.
    obtain ⟨l, hread, hkl⟩ := exists_ofString? hk hs
    obtain ⟨hl, hls⟩ := numbered_of_ofString? hread
    have hlk : l.chars <+: k.chars := hmax l hl hls
    rw [hread, chars_inj hl hk (hlk.eq_of_length_le hkl.length_le)]

/-- A text is read exactly if it begins with a key. -/
theorem exists_ofString?_iff {s : String} :
    (∃ k, ofString? s = some k) ↔ ∃ o, IsSpelling o ∧ o <+: s.toList := by
  constructor
  · rintro ⟨k, hread⟩
    obtain ⟨hk, hs⟩ := numbered_of_ofString? hread
    exact ⟨_, ⟨k, hk, rfl⟩, hs⟩
  · rintro ⟨_, ⟨k, hk, rfl⟩, hs⟩
    obtain ⟨l, hl, -⟩ := exists_ofString? hk hs
    exact ⟨l, hl⟩

/-! ## The key at the start of a text -/

theorem isSpelling_iff {cs : List Char} :
    IsSpelling cs ↔ ((ofString? (String.ofList cs)).any fun k => k.chars = cs) = true := by
  rw [Option.any_eq_true]
  constructor
  · rintro ⟨k, hk, rfl⟩
    exact ⟨k, ofString?_ofList_chars hk, by simp⟩
  · rintro ⟨k, hread, hk⟩
    exact ⟨k, (numbered_of_ofString? hread).1, of_decide_eq_true hk⟩

instance : DecidablePred IsSpelling := fun _ => decidable_of_iff _ isSpelling_iff.symm

/-- The longest key with which a text begins. -/
def leading? (s : String) : Option (List Char) :=
  (s.toList.inits.filter fun cs => IsSpelling cs).getLast?

/-- Of the starts of a list, each begins with those before it. -/
theorem pairwise_inits {α : Type} (l : List α) : l.inits.Pairwise (· <+: ·) := by
  induction l with
  | nil => simp
  | cons a l ih =>
    rw [List.inits_cons, List.pairwise_cons, List.pairwise_map]
    exact ⟨fun _ _ => List.nil_prefix, ih.imp fun h => (List.prefix_cons_inj a).mpr h⟩

/-- The last start of a list that passes a test is the longest one. -/
theorem getLast?_filter_inits {α : Type} {p : List α → Bool} {l o : List α} (ho : p o = true)
    (hol : o <+: l) (hmax : ∀ o', p o' = true → o' <+: l → o' <+: o) :
    (l.inits.filter p).getLast? = some o := by
  have hmem : o ∈ l.inits.filter p := by simp [ho, hol]
  obtain hnil | ⟨os, o', hos⟩ := List.eq_nil_or_concat' (l.inits.filter p)
  · rw [hnil] at hmem
    cases hmem
  · have hle : o' <+: o := by
      have ho' : o' ∈ l.inits.filter p := by simp [hos]
      rw [List.mem_filter, List.mem_inits] at ho'
      exact hmax o' ho'.2 ho'.1
    have hge : o <+: o' := by
      have hpair := (pairwise_inits l).filter p
      rw [hos, List.pairwise_append] at hpair
      rw [hos, List.mem_append, List.mem_singleton] at hmem
      obtain hmem | rfl := hmem
      · exact hpair.2.2 o hmem o' (by simp)
      · exact List.prefix_rfl
    rw [hos, List.getLast?_concat, hle.eq_of_length_le hge.length_le]

/-- What is read of a text is the longest key with which it begins. -/
theorem leading?_eq (s : String) : leading? s = (ofString? s).map chars := by
  cases h : ofString? s with
  | none =>
    rw [leading?, Option.map_none, List.getLast?_eq_none_iff, List.filter_eq_nil_iff]
    intro cs hcs hspelled
    obtain ⟨k, hk⟩ := exists_ofString?_iff.mpr
      ⟨cs, of_decide_eq_true hspelled, (List.mem_inits _ _).mp hcs⟩
    rw [h] at hk
    cases hk
  | some k =>
    obtain ⟨hk, hs, hmax⟩ := ofString?_eq_some_iff.mp h
    refine getLast?_filter_inits (decide_eq_true ⟨k, hk, rfl⟩) hs fun cs hspelled hcs => ?_
    obtain ⟨l, hl, rfl⟩ := of_decide_eq_true hspelled
    exact hmax l hl hcs

end ModWizard.Installer.Key
