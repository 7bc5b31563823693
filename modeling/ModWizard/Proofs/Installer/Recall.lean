import Mathlib.Algebra.Group.Nat.Defs
import Mathlib.Data.List.Induction
import Mathlib.Data.List.Nodup
import Mathlib.Data.List.Perm.Basic
import ModWizard.Installer.Session
import ModWizard.Proofs.Host
import ModWizard.Proofs.Installer.Key
import ModWizard.Proofs.Table

/-!
# Recalling the answers

The answers kept in the settings of a mod are those that are read from them again, in the order
in which they were given; and if the settings come back in another order, in some other order.

The settings are a list of numbered texts (`toSettings`).  A key is read back as it was written
(`ofString?_text`), so reading the settings enters the numbered texts again, and what has been
entered does not depend on the order (`descriptions_entered`, `answersAt_entered`).  Numbers of too
many digits are neither written nor read, so answers that cannot be read cannot be kept
(`keep_eq_ok_iff`).
-/

namespace ModWizard.Installer

/-! ## Keys -/

namespace Key

/-- A key with its numbers put into another form. -/
def map {α β : Type} (f : α → β) : Key α → Key β
  | description i => description (f i)
  | answer i j => answer (f i) (f j)

theorem numeral_toDigits (n : Nat) : Numeral (Nat.toDigits 10 n) :=
  ⟨Nat.toDigits_ne_nil, List.all_eq_true.mpr fun _ hc =>
    Nat.isDigit_of_mem_toDigits (by decide) (by decide) hc⟩

theorem numbered_map_toDigits (k : Key Nat) : (k.map (Nat.toDigits 10)).Numbered := by
  cases k with
  | description i => exact numeral_toDigits i
  | answer i j => exact ⟨numeral_toDigits i, numeral_toDigits j⟩

/-- A key is written as it is spelled with its numbers in decimal. -/
theorem text_eq (k : Key Nat) : k.text = String.ofList (k.map (Nat.toDigits 10)).chars := by
  rw [← String.toList_inj]
  cases k with
  | description i => simp [text, digits, map, chars_description]
  | answer i j => simp [text, digits, map, chars_answer]

/-- A key is read back as it was written. -/
theorem ofString?_text (k : Key Nat) : ofString? k.text = some (k.map (Nat.toDigits 10)) := by
  rw [text_eq, ofString?_ofList_chars (numbered_map_toDigits k)]

/-- Different numbers have different digits. -/
theorem toDigits_injective {m n : Nat} (h : Nat.toDigits 10 m = Nat.toDigits 10 n) : m = n := by
  rw [← Nat.ofDigitChars_ten_toDigits (n := m), h, Nat.ofDigitChars_ten_toDigits]

/-- Different keys are written differently. -/
theorem text_injective : Function.Injective text := by
  intro k l h
  have hd : k.map (Nat.toDigits 10) = l.map (Nat.toDigits 10) :=
    Option.some.inj (by rw [← ofString?_text, h, ofString?_text])
  cases k with
  | description i =>
    cases l with
    | description i' => rw [toDigits_injective (Key.description.inj hd)]
    | answer i' j' => cases hd
  | answer i j =>
    cases l with
    | description i' => cases hd
    | answer i' j' =>
      obtain ⟨hi, hj⟩ := Key.answer.inj hd
      rw [toDigits_injective hi, toDigits_injective hj]

/-- A number can be written if it is small enough. -/
theorem isWritable_iff {n : Nat} : Text.isWritable n = true ↔ n < 10 ^ Text.maxDigits := by
  rw [Text.isWritable, decide_eq_true_iff]
  exact Nat.length_toDigits_le_iff (by decide) (by decide)

theorem isWritable_description {i : Nat} :
    (description i).isWritable = true ↔ i < 10 ^ Text.maxDigits :=
  isWritable_iff

theorem isWritable_answer {i j : Nat} :
    (answer i j).isWritable = true ↔ i < 10 ^ Text.maxDigits ∧ j < 10 ^ Text.maxDigits := by
  rw [isWritable, Bool.and_eq_true, isWritable_iff, isWritable_iff]

/-- A number that can be written is read back as it was written. -/
theorem number?_toDigits {n : Nat} (h : Text.isWritable n = true) :
    Text.number? (Nat.toDigits 10 n) = some n := by
  rw [Text.isWritable, decide_eq_true_iff] at h
  rw [Text.number?_of_length_le h]
  exact congrArg some Nat.ofDigitChars_ten_toDigits

theorem numbers?_map_toDigits {k : Key Nat} (h : k.isWritable = true) :
    (k.map (Nat.toDigits 10)).numbers? = some k := by
  cases k with
  | description i => simp [map, numbers?, number?_toDigits h]
  | answer i j =>
    obtain ⟨hi, hj⟩ := Bool.and_eq_true_iff.mp h
    simp [map, numbers?, number?_toDigits hi, number?_toDigits hj]

end Key

/-! ## Numbered texts -/

/-- The places of a list are all different. -/
theorem pairwise_zipIdx {α : Type} (l : List α) :
    l.zipIdx.Pairwise fun x y => x.2 ≠ y.2 := by
  have h : (l.zipIdx.map Prod.snd).Nodup := by
    rw [List.zipIdx_map_snd]
    exact List.nodup_range'
  exact List.pairwise_map.mp h

/-- No key is given twice. -/
theorem nodup_toSettings (a : Answers) : ((toSettings a).map Prod.fst).Nodup := by
  rw [toSettings, List.map_flatMap, List.nodup_flatMap]
  constructor
  · rintro ⟨⟨s, ns⟩, i⟩ _
    simp only [List.map_cons, List.map_map, List.nodup_cons, List.mem_map]
    refine ⟨by simp, List.pairwise_map.mpr ?_⟩
    refine (pairwise_zipIdx ns).imp fun hne he => hne ?_
    exact (Key.answer.inj he).2
  · refine (pairwise_zipIdx a.entries).imp fun {x y} hne k hx hy => ?_
    have hx' : k = .description x.2 ∨ ∃ j, k = .answer x.2 j := by
      simp only [List.map_cons, List.map_map, List.mem_cons, List.mem_map] at hx
      obtain h | ⟨z, _, h⟩ := hx
      · exact .inl h
      · exact .inr ⟨_, h.symm⟩
    have hy' : k = .description y.2 ∨ ∃ j, k = .answer y.2 j := by
      simp only [List.map_cons, List.map_map, List.mem_cons, List.mem_map] at hy
      obtain h | ⟨z, _, h⟩ := hy
      · exact .inl h
      · exact .inr ⟨_, h.symm⟩
    obtain rfl | ⟨j, rfl⟩ := hx'
    · obtain h | ⟨_, h⟩ := hy'
      · exact hne (Key.description.inj h)
      · cases h
    · obtain h | ⟨_, h⟩ := hy'
      · cases h
      · exact hne (Key.answer.inj h).1

/-! ## Writing -/

/-- Texts are written under their keys one after the other as long as the keys can be written. -/
theorem writeAll_of_isWritable {L : List (Key Nat × String)}
    (h : ∀ x ∈ L, x.1.isWritable = true) (m : Mod) :
    m.writeAll L = (.ok (), L.foldl (fun m x => m.write x.1.text x.2) m) := by
  induction L generalizing m with
  | nil => rfl
  | cons x L ih =>
    rw [List.forall_mem_cons] at h
    rw [Mod.writeAll, if_pos h.1, ih h.2]
    rfl

/-- All texts are written if all keys can be. -/
theorem writeAll_eq_ok_iff {L : List (Key Nat × String)} {m : Mod} :
    (m.writeAll L).1 = .ok () ↔ ∀ x ∈ L, x.1.isWritable = true := by
  constructor
  · intro h
    induction L generalizing m with
    | nil => exact List.forall_mem_nil _
    | cons x L ih =>
      rw [Mod.writeAll] at h
      split at h
      next hx => exact List.forall_mem_cons.mpr ⟨hx, ih h⟩
      next => cases h
  · intro h
    rw [writeAll_of_isWritable h]

/-- That the questions, and the answers to each, are few enough to be numbered with no more digits
than can be written and read.  Without this the answers cannot be kept (`keep_eq_ok_iff`). -/
def Numberable (a : Answers) : Prop :=
  a.entries.length ≤ 10 ^ Text.maxDigits ∧ ∀ e ∈ a.entries, e.2.length ≤ 10 ^ Text.maxDigits

theorem numberable_iff {a : Answers} :
    Numberable a ↔ ∀ x ∈ toSettings a, x.1.isWritable = true := by
  constructor
  · intro h x hx
    obtain ⟨⟨e, i⟩, he, hx⟩ := List.mem_flatMap.mp hx
    have hi : i < 10 ^ Text.maxDigits := by
      have hlt := (List.mem_zipIdx he).2.1
      have hle := h.1
      omega
    obtain rfl | hx := List.mem_cons.mp hx
    · exact Key.isWritable_description.mpr hi
    · obtain ⟨⟨s, j⟩, hj, rfl⟩ := List.mem_map.mp hx
      have hlt := (List.mem_zipIdx hj).2.1
      have hle := h.2 e (List.mem_of_getElem? (List.mem_zipIdx_iff_getElem?.mp he))
      refine Key.isWritable_answer.mpr ⟨hi, ?_⟩
      simp only at hlt hle ⊢
      omega
  · intro h
    have hmem : ∀ x ∈ a.entries.zipIdx, ∀ y ∈ (Key.description x.2, x.1.1) ::
        x.1.2.zipIdx.map (fun y => (Key.answer x.2 y.2, y.1)), y.1.isWritable = true :=
      fun x hx y hy => h y (List.mem_flatMap.mpr ⟨x, hx, hy⟩)
    constructor
    · -- otherwise the first number with too many digits is that of a question
      refine Nat.le_of_not_lt fun hlt => Nat.lt_irrefl (10 ^ Text.maxDigits) ?_
      have hx := List.mk_mem_zipIdx_iff_getElem?.mpr (List.getElem?_eq_getElem hlt)
      have hkey := hmem _ hx _ List.mem_cons_self
      exact Key.isWritable_description.mp hkey
    · intro e he
      obtain ⟨i, hi⟩ := List.mem_iff_getElem?.mp he
      refine Nat.le_of_not_lt fun hlt => Nat.lt_irrefl (10 ^ Text.maxDigits) ?_
      have hy := List.mk_mem_zipIdx_iff_getElem?.mpr (List.getElem?_eq_getElem hlt)
      have hkey := hmem _ (List.mk_mem_zipIdx_iff_getElem?.mpr hi) _
        (List.mem_cons_of_mem _ (List.mem_map_of_mem hy))
      exact (Key.isWritable_answer.mp hkey).2

/-- Answers can be kept exactly if no number has too many digits. -/
theorem keep_eq_ok_iff {a : Answers} {m : Mod} : (keep a m).1 = .ok () ↔ Numberable a := by
  rw [keep, writeAll_eq_ok_iff, numberable_iff]

/-- What is written to a mod without settings is all that is in them. -/
theorem entries_settings_foldl_write {L : List (Key Nat × String)} (h : (L.map Prod.fst).Nodup)
    (m : Mod) :
    (L.foldl (fun m x => m.write x.1.text x.2) m.clear).settings.entries =
      L.map fun x => (x.1.text, Scalar.text x.2) := by
  have hfold : ∀ (L : List (Key Nat × String)) (m : Mod),
      (L.foldl (fun m x => m.write x.1.text x.2) m).settings =
        (L.map fun x => (x.1.text, Scalar.text x.2)).foldl (fun t p => t.insert p.1 p.2)
          m.settings := by
    intro L
    induction L with
    | nil => exact fun _ => rfl
    | cons x L ih => exact fun m => ih _
  have hnodup : ((L.map fun x => (x.1.text, Scalar.text x.2)).map Prod.fst).Nodup := by
    rw [List.map_map]
    simpa [Function.comp_def] using h.map Key.text_injective
  rw [hfold]
  exact Table.entries_ofList hnodup

/-- The settings of a mod in which some answers are kept are those that remember them, and nothing
else. -/
theorem entries_settings_keep {a : Answers} (h : Numberable a) (m : Mod) :
    (keep a m).2.settings.entries =
      (toSettings a).map fun x => (x.1.text, Scalar.text x.2) := by
  rw [keep, writeAll_of_isWritable (numberable_iff.mp h)]
  exact entries_settings_foldl_write (nodup_toSettings a) m

/-! ## Entering numbered texts -/

/-- What is found when numbered texts are entered one after the other. -/
def entered (L : List (Key Nat × String)) : Found :=
  L.foldl (fun f x => f.enter x.2 x.1) ⟨∅, ∅⟩

theorem entered_snoc (L : List (Key Nat × String)) (x : Key Nat × String) :
    entered (L ++ [x]) = (entered L).enter x.2 x.1 := by
  simp [entered]

/-- The description that a numbered text is, with its number. -/
def descriptionOf? : Key Nat × String → Option (Nat × String)
  | (.description i, s) => some (i, s)
  | (.answer _ _, _) => none

/-- The answer to a question that a numbered text is, with its place. -/
def answerOf? (i : Nat) : Key Nat × String → Option (Nat × String)
  | (.description _, _) => none
  | (.answer i' j, s) => if i' = i then some (j, s) else none

/-- The answers found for a question, in the order in which they were found. -/
def Found.answersAt (f : Found) (i : Nat) : List (Nat × String) :=
  ((f.answers.get? i).map (·.entries)).getD []

theorem Found.answersOf_eq (f : Found) (i : Nat) :
    f.answersOf i = ((f.answersAt i).mergeSort fun a b => a.1 ≤ b.1).map (·.2) := by
  unfold Found.answersOf Found.answersAt
  cases f.answers.get? i with
  | none => simp
  | some t => rfl

/-- The descriptions found are those among the numbered texts, in their order. -/
theorem descriptions_entered {L : List (Key Nat × String)} (h : (L.map Prod.fst).Nodup) :
    (entered L).descriptions.entries = L.filterMap descriptionOf? := by
  induction L using List.reverseRecOn with
  | nil => rfl
  | append_singleton L x ih =>
    obtain ⟨k, s⟩ := x
    rw [List.map_append, List.nodup_append] at h
    obtain ⟨hL, -, hx⟩ := h
    rw [entered_snoc, List.filterMap_append]
    cases k with
    | description i =>
      have hi : i ∉ (entered L).descriptions.keys := by
        intro hm
        rw [Table.keys, ih hL] at hm
        obtain ⟨⟨_, t⟩, ht, rfl⟩ := List.mem_map.mp hm
        obtain ⟨⟨k', t'⟩, hmem, hk'⟩ := List.mem_filterMap.mp ht
        cases k' with
        | description i' =>
          cases hk'
          exact hx _ (List.mem_map.mpr ⟨_, hmem, rfl⟩) _ (by simp) rfl
        | answer i' j' => cases hk'
      simp only [Found.enter]
      rw [Table.entries_insert_of_notMem s hi, ih hL]
      rfl
    | answer i j =>
      simp only [Found.enter]
      rw [ih hL]
      simp [descriptionOf?]

/-- Entering an answer puts it behind those found for its question. -/
theorem Found.answersAt_enter_answer (f : Found) (s : String) {i j : Nat}
    (h : j ∉ (f.answersAt i).map Prod.fst) (i' : Nat) :
    (f.enter s (.answer i j)).answersAt i' =
      f.answersAt i' ++ if i = i' then [(j, s)] else [] := by
  simp only [Found.enter, Found.answersAt, Table.get?_insert] at h ⊢
  by_cases hi : i = i'
  · subst hi
    rw [if_pos rfl, if_pos rfl, Option.map_some, Option.getD_some]
    cases hg : f.answers.get? i with
    | none => rfl
    | some t =>
      rw [hg] at h
      exact Table.entries_insert_of_notMem s h
  · rw [if_neg hi, if_neg hi, List.append_nil]

/-- The answers found for a question are those among the numbered texts, in their order. -/
theorem answersAt_entered {L : List (Key Nat × String)} (h : (L.map Prod.fst).Nodup) (i : Nat) :
    (entered L).answersAt i = L.filterMap (answerOf? i) := by
  induction L using List.reverseRecOn generalizing i with
  | nil => rfl
  | append_singleton L x ih =>
    obtain ⟨k, s⟩ := x
    rw [List.map_append, List.nodup_append] at h
    obtain ⟨hL, -, hx⟩ := h
    rw [entered_snoc, List.filterMap_append]
    cases k with
    | description i' =>
      rw [← ih hL i]
      simp [Found.enter, Found.answersAt, answerOf?]
    | answer i' j =>
      have hj : j ∉ ((entered L).answersAt i').map Prod.fst := by
        intro hm
        rw [ih hL i'] at hm
        obtain ⟨⟨_, t⟩, ht, rfl⟩ := List.mem_map.mp hm
        obtain ⟨⟨k', t'⟩, hmem, hk'⟩ := List.mem_filterMap.mp ht
        cases k' with
        | description i₂ => cases hk'
        | answer i₂ j₂ =>
          simp only [answerOf?] at hk'
          split at hk'
          · rename_i he
            cases hk'
            subst he
            exact hx _ (List.mem_map.mpr ⟨_, hmem, rfl⟩) _ (by simp) rfl
          · cases hk'
      rw [Found.answersAt_enter_answer _ s hj i, ih hL i]
      congr 1
      by_cases hi : i' = i
      · simp [answerOf?, hi]
      · simp [answerOf?, hi]

/-! ## What the numbered texts say -/

theorem descriptionOf?_toSettings (a : Answers) :
    (toSettings a).filterMap descriptionOf? = a.entries.zipIdx.map fun x => (x.2, x.1.1) := by
  have hanswers : ∀ (i : Nat) (ns : List String),
      (ns.zipIdx.map fun y => (Key.answer i y.2, y.1)).filterMap descriptionOf? = [] := by
    intro i ns
    simp [List.filterMap_eq_nil_iff, descriptionOf?]
  rw [toSettings, List.filterMap_flatMap]
  simp only [List.filterMap_cons, descriptionOf?, hanswers]
  exact List.map_eq_flatMap.symm

/-- A list put together from what stands at one place of another is what is put there. -/
theorem flatMap_zipIdx_of_mem {α β : Type} {l : List α} {n i : Nat} {a : α} (g : α → List β)
    (h : (a, i) ∈ l.zipIdx n) :
    ((l.zipIdx n).flatMap fun x => if x.2 = i then g x.1 else []) = g a := by
  induction l generalizing n with
  | nil => cases h
  | cons b l ih =>
    rw [List.zipIdx_cons, List.mem_cons] at h
    rw [List.zipIdx_cons, List.flatMap_cons]
    obtain h | h := h
    · cases h
      have hrest : ((l.zipIdx (i + 1)).flatMap fun x => if x.2 = i then g x.1 else []) = [] := by
        rw [List.flatMap_eq_nil_iff]
        rintro ⟨c, j⟩ hc
        have hj : i + 1 ≤ j := (List.mem_zipIdx hc).1
        rw [if_neg (by simp only; omega)]
      rw [hrest, if_pos rfl, List.append_nil]
    · have hi : n + 1 ≤ i := (List.mem_zipIdx h).1
      rw [ih h, if_neg (by simp only; omega), List.nil_append]

theorem answerOf?_toSettings {a : Answers} {e : String × List String} {i : Nat}
    (h : (e, i) ∈ a.entries.zipIdx) :
    (toSettings a).filterMap (answerOf? i) = e.2.zipIdx.map fun y => (y.2, y.1) := by
  have hanswers : ∀ (i' : Nat) (ns : List String),
      (ns.zipIdx.map fun y => (Key.answer i' y.2, y.1)).filterMap (answerOf? i) =
        if i' = i then ns.zipIdx.map fun y => (y.2, y.1) else [] := by
    intro i' ns
    by_cases hi : i' = i
    · simp [List.filterMap_map, answerOf?, hi, Function.comp_def]
    · simp [List.filterMap_eq_nil_iff, answerOf?, hi]
  rw [toSettings, List.filterMap_flatMap]
  simp only [List.filterMap_cons, answerOf?, hanswers]
  exact flatMap_zipIdx_of_mem (fun e => e.2.zipIdx.map fun y => (y.2, y.1)) h

/-- Numbered entries in any order, sorted by their numbers, are in the order of their places. -/
theorem mergeSort_of_perm_zipIdx {α : Type} {l : List (Nat × α)} {as : List α}
    (h : l.Perm (as.zipIdx.map fun y => (y.2, y.1))) :
    (l.mergeSort fun a b => a.1 ≤ b.1).map (·.2) = as := by
  have hsorted : (as.zipIdx.map fun y => (y.2, y.1)).Pairwise fun a b => a.1 < b.1 := by
    have hlt : (as.zipIdx.map Prod.snd).Pairwise (· < ·) := by
      rw [List.zipIdx_map_snd]
      exact List.pairwise_lt_range'
    exact List.pairwise_map.mpr (List.pairwise_map.mp hlt)
  have heq : (l.mergeSort fun a b => a.1 ≤ b.1) = as.zipIdx.map fun y => (y.2, y.1) := by
    have hperm := (List.mergeSort_perm l fun a b => a.1 ≤ b.1).trans h
    have hle : (l.mergeSort fun a b => a.1 ≤ b.1).Pairwise fun a b => a.1 ≤ b.1 :=
      (List.pairwise_mergeSort (by simp only [decide_eq_true_eq]; omega)
        (by simp only [Bool.or_eq_true, decide_eq_true_eq]; omega) l).imp of_decide_eq_true
    refine List.Perm.eq_of_pairwise ?_ hle (hsorted.imp Nat.le_of_lt) hperm
    intro a b ha hb hab hba
    obtain ⟨⟨x, n⟩, hx, rfl⟩ := List.mem_map.mp (hperm.subset ha)
    obtain ⟨⟨y, m⟩, hy, rfl⟩ := List.mem_map.mp hb
    obtain rfl : n = m := Nat.le_antisymm hab hba
    rw [List.mem_zipIdx_iff_getElem?] at hx hy
    rw [Option.some.inj (hx.symm.trans hy)]
  rw [heq, List.map_map]
  exact List.zipIdx_map_fst 0 as

section Entered

variable {a : Answers} {L : List (Key Nat × String)} (hL : L.Perm (toSettings a))

include hL

theorem nodup_of_perm_toSettings : (L.map Prod.fst).Nodup :=
  (hL.map Prod.fst).nodup_iff.mpr (nodup_toSettings a)

/-- Each question has the answers that it was given, in whatever order the texts were entered. -/
theorem answersOf_entered {e : String × List String} {i : Nat} (h : (e, i) ∈ a.entries.zipIdx) :
    (entered L).answersOf i = e.2 := by
  rw [Found.answersOf_eq, answersAt_entered (nodup_of_perm_toSettings hL)]
  refine mergeSort_of_perm_zipIdx ?_
  rw [← answerOf?_toSettings h]
  exact hL.filterMap _

theorem map_answersOf_entered :
    ((toSettings a).filterMap descriptionOf?).map (fun d => (d.2, (entered L).answersOf d.1)) =
      a.entries := by
  rw [descriptionOf?_toSettings, List.map_map]
  calc a.entries.zipIdx.map _ = a.entries.zipIdx.map Prod.fst := by
        refine List.map_congr_left ?_
        rintro ⟨e, i⟩ h
        simp only [Function.comp_apply, answersOf_entered hL h]
    _ = a.entries := List.zipIdx_map_fst 0 _

/-- The answers that are read are those that were given, in the order in which the descriptions
were entered. -/
theorem entries_toAnswers_entered :
    (entered L).toAnswers.entries =
        (L.filterMap descriptionOf?).map (fun d => (d.2, (entered L).answersOf d.1)) ∧
      (entered L).toAnswers.entries.Perm a.entries := by
  have hperm : ((L.filterMap descriptionOf?).map
      fun d => (d.2, (entered L).answersOf d.1)).Perm a.entries := by
    rw [← map_answersOf_entered hL]
    exact (hL.filterMap _).map _
  have heq : (entered L).toAnswers.entries =
      (L.filterMap descriptionOf?).map fun d => (d.2, (entered L).answersOf d.1) := by
    rw [Found.toAnswers, descriptions_entered (nodup_of_perm_toSettings hL)]
    exact Table.entries_ofList ((hperm.map Prod.fst).nodup_iff.mpr a.nodup)
  exact ⟨heq, heq ▸ hperm⟩

end Entered

/-- Texts entered in the order in which they are written give the answers that were written. -/
theorem toAnswers_entered_toSettings (a : Answers) : (entered (toSettings a)).toAnswers = a :=
  Table.ext <|
    (entries_toAnswers_entered (.refl _)).1.trans (map_answersOf_entered (.refl _))

/-! ## Reading what was written -/

/-- A text is entered under the key under which it was written. -/
theorem note?_text (f : Found) {k : Key Nat} (h : k.isWritable = true) (s : String) :
    f.note? k.text (.text s) = some (f.enter s k) := by
  simp only [Found.note?, Key.ofString?_text, Key.numbers?_map_toDigits h]
  rfl

theorem ofSettings?_of_entries {s : Settings} {L : List (Key Nat × String)}
    (hs : s.entries = L.map fun x => (x.1.text, .text x.2)) (hL : ∀ x ∈ L, x.1.isWritable = true) :
    Found.ofSettings? s = some (entered L) := by
  have hfold : ∀ f : Found,
      (L.map fun x => (x.1.text, Scalar.text x.2)).foldlM (fun f e => f.note? e.1 e.2) f =
        some (L.foldl (fun f x => f.enter x.2 x.1) f) := by
    clear hs
    induction L with
    | nil => exact fun _ => rfl
    | cons x L ih =>
      intro f
      rw [List.map_cons, List.foldlM_cons, note?_text f (hL x (by simp))]
      exact ih (fun y hy => hL y (by simp [hy])) _
  rw [Found.ofSettings?, hs]
  exact hfold _

/-- The answers that were kept are remembered. -/
theorem remembered?_keep {a : Answers} (h : Numberable a) (m : Mod) :
    remembered? (keep a m).2.settings = some a := by
  rw [remembered?, ofSettings?_of_entries (entries_settings_keep h m) (numberable_iff.mp h),
    Option.map_some, toAnswers_entered_toSettings]

/-- The answers that were kept are remembered in some order if the settings come in another. -/
theorem remembered?_of_perm {a : Answers} (h : Numberable a) {m : Mod} {s : Settings}
    (hs : s.entries.Perm (keep a m).2.settings.entries) :
    ∃ b, remembered? s = some b ∧ b.entries.Perm a.entries := by
  rw [entries_settings_keep h] at hs
  obtain ⟨L, hL, hperm⟩ : Relation.Comp (· = List.map _ ·) List.Perm s.entries (toSettings a) := by
    rw [List.eq_map_comp_perm]
    exact hs
  have hwritable : ∀ x ∈ L, x.1.isWritable = true := fun x hx =>
    numberable_iff.mp h x (hperm.subset hx)
  refine ⟨(entered L).toAnswers, ?_, (entries_toAnswers_entered hperm).2⟩
  rw [remembered?, ofSettings?_of_entries hL hwritable]
  rfl

/-- The answers that were kept are there again when the mod is announced. -/
theorem start_keep {a : Answers} (h : Numberable a) (i : Installer) (m : Mod) :
    i.start (some (keep a m).2) =
      (.ok (), { i with memory := some ⟨false, a⟩ }, some (keep a m).2.read.2) := by
  simp only [start, Mod.read, remembered?_keep h]

theorem finishInstallation_of_memory {i : Installer} {a : Answers}
    (h : i.memory = some ⟨true, a⟩) (ha : Numberable a) (m : Mod) :
    i.finishInstallation .success (some m) = (.ok (), some (keep a m).2) := by
  simp [finishInstallation, h, keep_eq_ok_iff.mpr ha]

/-- The answers of an installation are there again, in their order, when the mod in which they
were kept is installed once more; and if its settings come back in another order, so may the
questions, but each has its answers in their order. -/
theorem start_after_finishInstallation {i : Installer} {a : Answers}
    (hi : i.memory = some ⟨true, a⟩) (ha : Numberable a) (m : Mod) :
    ∃ m', i.finishInstallation .success (some m) = (.ok (), some m') ∧
      (∀ j : Installer,
        j.start (some m') = (.ok (), { j with memory := some ⟨false, a⟩ }, some m'.read.2)) ∧
      ∀ (j : Installer) (s : Settings), s.entries.Perm m'.settings.entries →
        ∃ b : Answers, b.entries.Perm a.entries ∧
          j.start (some (.ofSettings s)) =
            (.ok (), { j with memory := some ⟨false, b⟩ }, some (Mod.ofSettings s).read.2) := by
  refine ⟨(keep a m).2, finishInstallation_of_memory hi ha m, ?_, ?_⟩
  · intro j
    exact start_keep ha j m
  · intro j s hs
    obtain ⟨b, hb, hperm⟩ := remembered?_of_perm ha hs
    refine ⟨b, hperm, ?_⟩
    simp only [start, Mod.read, Mod.ofSettings, hb]

namespace Eleven

/-- Two questions, one without answers and one with so many that their places have one digit or
two. -/
def answers : Answers :=
  ⟨[("Which music?", []),
    ("Which maps?", ["a", "b", "c", "d", "e", "f", "g", "h", "i", "j", "k"])], by decide⟩

def installer : Installer where
  organizer := ⟨.plain 9, "Game", "1.0", "1.0", none, none, [], [], ∅, ∅⟩
  memory := some ⟨true, answers⟩
  disk := .bare

/-- A mod in which another answer was kept. -/
def mod : Mod := .ofSettings (.ofList [("select7-description", .text "Which sky?")])

end Eleven

open Eleven in
theorem start_after_finishInstallation_eleven :
    installer.memory = some ⟨true, answers⟩ ∧ Numberable answers ∧
    ∃ m', installer.finishInstallation .success (some mod) = (.ok (), some m') ∧
      (∀ j : Installer,
        j.start (some m') =
          (.ok (), { j with memory := some ⟨false, answers⟩ }, some m'.read.2)) ∧
      ∀ (j : Installer) (s : Settings), s.entries.Perm m'.settings.entries →
        ∃ b : Answers, b.entries.Perm answers.entries ∧
          j.start (some (.ofSettings s)) =
            (.ok (), { j with memory := some ⟨false, b⟩ }, some (Mod.ofSettings s).read.2) := by
  have hn : Numberable answers := ⟨by decide +kernel, by decide +kernel⟩
  exact ⟨rfl, hn, start_after_finishInstallation rfl hn mod⟩

end ModWizard.Installer
