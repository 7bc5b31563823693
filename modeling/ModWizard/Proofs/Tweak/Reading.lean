import Mathlib.Data.List.Forall2
import ModWizard.Proofs.Text
import ModWizard.Tweak.Assignment

/-!
# Reading assignments

What is read from a line is in the line.  And a command is read as it was written: a keyword in any
letter case, a setting that nothing in it ends, and a value, with a comment behind them.
-/

namespace ModWizard

namespace Assignment

variable {α : Type}

/-! ### What is read -/

theorem suffix_of_afterWord {ws cs r : List Char} (h : afterWord ws cs = some r) : r <:+ cs := by
  fun_induction afterWord ws cs with
  | case1 cs =>
    cases h
    exact List.suffix_rfl
  | case2 => cases h
  | case3 w ws c cs _ ih => exact (ih h).trans (List.suffix_cons c cs)
  | case4 => cases h

theorem exists_of_afterBlanks {next : List Char → Option α} {cs : List Char} {a : α}
    (h : afterBlanks next cs = some a) : ∃ r, r <:+ cs ∧ next r = some a := by
  induction cs with
  | nil => cases h
  | cons c cs ih =>
    rw [afterBlanks] at h
    split at h
    · obtain h | ⟨-, h⟩ := Option.or_eq_some_iff.mp h
      · obtain ⟨r, hr, ha⟩ := ih h
        exact ⟨r, hr.trans (List.suffix_cons c cs), ha⟩
      · exact ⟨cs, List.suffix_cons c cs, h⟩
    · cases h

theorem exists_of_shortest {next : List Char → Option α} {cs p : List Char} {a : α}
    (h : shortest next cs = some (p, a)) : ∃ r, cs = p ++ r ∧ next r = some a := by
  induction cs generalizing p with
  | nil => cases h
  | cons c cs ih =>
    rw [shortest] at h
    split at h
    next b hb =>
      cases h
      exact ⟨cs, rfl, hb⟩
    next =>
      obtain ⟨q, hq, hp⟩ := Option.map_eq_some_iff.mp h
      obtain ⟨rfl, rfl⟩ := Prod.mk.inj hp
      obtain ⟨r, rfl, hr⟩ := ih hq
      exact ⟨r, rfl, hr⟩

theorem suffix_of_value? {cs v : List Char} (h : value? cs = some v) : v <:+ cs := by
  cases cs with
  | nil => cases h
  | cons c cs =>
    rw [value?] at h
    split at h
    · cases h
      exact (Text.isSuffix_trimStart cs).trans (List.suffix_cons c cs)
    · cases h

theorem suffix_of_separated? {k : Keyword} {cs v : List Char} (h : separated? k cs = some v) :
    v <:+ cs := by
  cases k with
  | set =>
    obtain ⟨r, hr, hv⟩ := exists_of_afterBlanks h
    obtain ⟨r', hr', hv⟩ := Option.bind_eq_some_iff.mp hv
    exact (suffix_of_value? hv).trans ((suffix_of_afterWord hr').trans hr)
  | setGS => exact suffix_of_value? h
  | setNumericGameSetting => exact suffix_of_value? h

theorem ne_nil_of_shortest {next : List Char → Option α} {cs p : List Char} {a : α}
    (h : shortest next cs = some (p, a)) : p ≠ [] := by
  cases cs with
  | nil => cases h
  | cons c cs =>
    rw [shortest] at h
    split at h
    next =>
      cases h
      exact List.cons_ne_nil c []
    next =>
      obtain ⟨q, -, hp⟩ := Option.map_eq_some_iff.mp h
      obtain ⟨rfl, -⟩ := Prod.mk.inj hp
      exact List.cons_ne_nil c q.1

/-- What is read is a setting, not empty, with what separates it from the value and the value. -/
theorem exists_of_ofChars? {cs : List Char} {a : Assignment} (h : ofChars? cs = some a) :
    ∃ r, a.setting.toList ≠ [] ∧ a.setting.toList ++ r <:+ cs ∧
      separated? a.keyword r = some a.value.toList := by
  obtain ⟨k, -, hk⟩ := List.exists_of_findSome?_eq_some h
  obtain ⟨⟨s, v⟩, hp, rfl⟩ := Option.map_eq_some_iff.mp hk
  obtain ⟨r, hr, hp⟩ := Option.bind_eq_some_iff.mp hp
  obtain ⟨r', hr', hp⟩ := exists_of_afterBlanks hp
  obtain ⟨r'', rfl, hv⟩ := exists_of_shortest hp
  refine ⟨r'', by simpa using ne_nil_of_shortest hp, ?_, by simpa using hv⟩
  simpa using hr'.trans ((suffix_of_afterWord hr).trans (Text.isSuffix_trimStart cs))

/-- The value that is read is a part of the text. -/
theorem value_subset_of_ofChars? {cs : List Char} {a : Assignment} (h : ofChars? cs = some a) :
    a.value.toList ⊆ cs := by
  obtain ⟨r, -, hsuffix, hv⟩ := exists_of_ofChars? h
  have hrest : r <:+ cs := (List.suffix_append _ r).trans hsuffix
  exact ((suffix_of_separated? hv).trans hrest).subset

/-- The setting that is read is a part of the text. -/
theorem setting_subset_of_ofChars? {cs : List Char} {a : Assignment} (h : ofChars? cs = some a) :
    a.setting.toList ⊆ cs := by
  obtain ⟨r, -, hsuffix, -⟩ := exists_of_ofChars? h
  exact fun c hc => hsuffix.subset (List.mem_append_left r hc)

/-! ### Reading what was written -/

/-- A text that can stand in a command: trimmed, without a comment and without a line end. -/
def Plain (cs : List Char) : Prop := Text.Trimmed cs ∧ ';' ∉ cs ∧ Text.Unbroken cs

instance (cs : List Char) : Decidable (Plain cs) := inferInstanceAs (Decidable (_ ∧ _))

theorem afterBlanks_cons {next : List Char → Option α} {b c : Char} {cs : List Char}
    (hb : Text.isBlank b = true) (hc : Text.isBlank c = false) :
    afterBlanks next (b :: c :: cs) = next (c :: cs) := by
  simp [afterBlanks, hb, hc]

/-- The rest can be read after a beginning, and after no shorter one. -/
theorem shortest_append {next : List Char → Option α} {p r : List Char} {a : α} (hp : p ≠ [])
    (hr : next r = some a)
    (h : ∀ i, 0 < i → i < p.length → next (p.drop i ++ r) = none) :
    shortest next (p ++ r) = some (p, a) := by
  induction p with
  | nil => exact absurd rfl hp
  | cons c p ih =>
    rw [List.cons_append, shortest]
    cases p with
    | nil => rw [List.nil_append, hr]
    | cons d p =>
      have hnone : next (d :: p ++ r) = none := h 1 (by omega) (by simp)
      have ih := ih (by simp) fun i hi hlt => h (i + 1) (by omega) (by simpa using hlt)
      rw [hnone, ih]
      rfl

end Assignment

namespace Keyword

open Assignment

/-- What is written between the setting and the value. -/
def gap : Keyword → List Char
  | set => [' ', 't', 'o', ' ']
  | setGS => [' ']
  | setNumericGameSetting => [' ']

/-- A setting that can be read back: nothing in it, with the blank behind it, is taken for its
end.  For most keywords that means that it is one word; after `set` it can have several, but `to`
can be the first of them only. -/
def Names (k : Keyword) (cs : List Char) : Prop :=
  Plain cs ∧ ∀ i < cs.length, 0 < i → separated? k (cs.drop i ++ [' ']) = none

instance (k : Keyword) (cs : List Char) : Decidable (k.Names cs) :=
  inferInstanceAs (Decidable (_ ∧ _))

/-- A keyword in any letter case. -/
def Spells (k : Keyword) (w : List Char) : Prop := List.Forall₂ Text.CaseOf k.key.toList w

theorem exists_gap (k : Keyword) : ∃ r, k.gap = ' ' :: r := by
  cases k <;> exact ⟨_, rfl⟩

theorem separated?_gap {k : Keyword} {v : List Char} (hv : Text.Trimmed v) :
    separated? k (k.gap ++ v) = some v := by
  obtain ⟨⟨c, hc, hb⟩, -⟩ := hv
  have hvalue : value? (' ' :: v) = some v := by
    rw [value?, if_pos (by decide), Text.trimStart_eq_self_of_head? hc hb]
  cases k with
  | set =>
    rw [gap, separated?]
    show afterBlanks _ (' ' :: 't' :: 'o' :: ' ' :: v) = some v
    rw [afterBlanks_cons (by decide) (by decide)]
    simpa [afterWord, matchesLetter] using hvalue
  | setGS => exact hvalue
  | setNumericGameSetting => exact hvalue

/-- One word can be read back as a setting. -/
theorem names_of_word (k : Keyword) {cs : List Char} (hne : cs ≠ [])
    (hword : ∀ c ∈ cs, Text.isBlank c = false) (hcomment : ';' ∉ cs) : k.Names cs := by
  refine ⟨⟨⟨⟨_, List.head?_eq_some_head hne, hword _ (List.head_mem hne)⟩,
    _, List.getLast?_eq_some_getLast hne, hword _ (List.getLast_mem hne)⟩, hcomment,
    Text.unbroken_of_not_blank hword⟩, ?_⟩
  -- what is left of the word begins with no blank, and a blank would have to end it
  intro i hi _
  rw [List.drop_eq_getElem_cons hi, List.cons_append]
  have hblank := hword _ (List.getElem_mem hi)
  cases k <;> simp [separated?, afterBlanks, value?, hblank]

/-- Whether a setting ends does not depend on what follows the blank behind it. -/
theorem separated?_append_eq_none {k : Keyword} {t : List Char}
    (ht : ∃ c ∈ t.getLast?, Text.isBlank c = false)
    (h : separated? k (t ++ [' ']) = none) (r : List Char) :
    separated? k (t ++ ' ' :: r) = none := by
  have hvalue : ∀ {t : List Char}, value? (t ++ [' ']) = none → value? (t ++ ' ' :: r) = none := by
    intro t h
    cases t with
    | nil => exact absurd h (by decide)
    | cons c t => grind [value?]
  cases k with
  | set =>
    have hto : ∀ {t : List Char}, ((afterWord ['t', 'o'] (t ++ [' '])).bind value?) = none →
        ((afterWord ['t', 'o'] (t ++ ' ' :: r)).bind value?) = none := by
      intro t h
      match t with
      | [] => simp [afterWord, matchesLetter]
      | [c] => simp [afterWord, matchesLetter]
      | c :: d :: t =>
        simp only [List.cons_append, afterWord] at h ⊢
        split
        next hc =>
          split
          next hd =>
            rw [if_pos hc, if_pos hd] at h
            exact hvalue h
          next => rfl
        next => rfl
    -- the blanks before a word `to` that ends the setting are in the text
    rw [separated?] at h ⊢
    induction t with
    | nil => simp at ht
    | cons c t ih =>
      rw [List.cons_append, afterBlanks] at h ⊢
      split
      next hc =>
        rw [if_pos hc, Option.or_eq_none_iff] at h
        have ht' : ∃ c ∈ t.getLast?, Text.isBlank c = false := by
          cases t with
          | nil => simp [hc] at ht
          | cons d t => simpa using ht
        rw [ih ht' h.1, hto h.2, Option.or_none]
      next => rfl
  | setGS => exact hvalue h
  | setNumericGameSetting => exact hvalue h

theorem spells_of_lower_eq {k : Keyword} {s : String} (h : Text.lower s = k.key) :
    k.Spells s.toList := by
  have hletters : k.key.toList.all
      (fun x => 0x61 ≤ x.toNat ∧ x.toNat ≤ 0x7a ∧ x.toNat ≠ 0x6b) = true := by
    cases k <;> decide
  have hlower : Text.lowerAfter [] s.toList = k.key.toList := by
    rw [← h, Text.lower, String.toList_ofList]
  refine Text.forall₂_caseOf_of_lowerAfter (fun x hx => ?_) hlower
  simpa using List.all_eq_true.mp hletters x hx

theorem spells_spelling (k : Keyword) : k.Spells k.spelling.toList :=
  spells_of_lower_eq (by cases k <;> decide +kernel)

/-- What matters of the letters of the keywords. -/
theorem letter_of_caseOf {k : Keyword} {x c : Char} (hx : x ∈ k.key.toList)
    (hc : Text.CaseOf x c) :
    matchesLetter x c = true ∧ Text.isBlank c = false ∧ c ≠ ';' ∧ c ≠ '\n' ∧ c ≠ '\r' := by
  have hletters : k.key.toList.all (fun x => [x, Char.ofNat (x.toNat - 0x20)].all fun c =>
      matchesLetter x c = true ∧ Text.isBlank c = false ∧ c ≠ ';' ∧ c ≠ '\n' ∧
        c ≠ '\r') = true := by
    cases k <;> decide +kernel
  have hcase := List.all_eq_true.mp (List.all_eq_true.mp hletters x hx) c
    (by simpa [Text.CaseOf] using hc)
  simpa using hcase

theorem afterWord_append {k : Keyword} {ws w : List Char} (hws : ws ⊆ k.key.toList)
    (h : List.Forall₂ Text.CaseOf ws w) (r : List Char) : afterWord ws (w ++ r) = some r := by
  induction h with
  | nil => rfl
  | cons hc _ ih =>
    rw [List.cons_subset] at hws
    rw [List.cons_append, afterWord, if_pos (letter_of_caseOf hws.1 hc).1, ih hws.2]

theorem toList_key_setNumericGameSetting : setNumericGameSetting.key.toList =
    's' :: 'e' :: 't' :: 'n' :: "umericgamesetting".toList := by
  decide

/-- The other keywords go on after `set`. -/
theorem exists_key_of_ne_set {k : Keyword} (h : k ≠ set) :
    ∃ x xs, k.key.toList = 's' :: 'e' :: 't' :: x :: xs := by
  cases k with
  | set => exact absurd rfl h
  | setGS => exact ⟨'g', ['s'], by decide⟩
  | setNumericGameSetting => exact ⟨'n', _, toList_key_setNumericGameSetting⟩

namespace Spells

variable {k : Keyword} {w : List Char}

theorem letter (h : k.Spells w) {c : Char} (hc : c ∈ w) :
    Text.isBlank c = false ∧ c ≠ ';' ∧ c ≠ '\n' ∧ c ≠ '\r' := by
  obtain ⟨i, hi, rfl⟩ := List.getElem_of_mem hc
  have hi' : i < k.key.toList.length := (List.Forall₂.length_eq h).symm ▸ hi
  exact (letter_of_caseOf (List.getElem_mem hi') (List.Forall₂.get h hi' hi)).2

theorem ne_nil (h : k.Spells w) : w ≠ [] := by
  rintro rfl
  cases k <;> cases h

theorem trimStart_append (h : k.Spells w) (r : List Char) : Text.trimStart (w ++ r) = w ++ r := by
  obtain ⟨c, w', rfl⟩ := List.exists_cons_of_ne_nil h.ne_nil
  exact Text.trimStart_eq_self_of_head? rfl (h.letter List.mem_cons_self).1

/-- After a keyword and a blank, a setting and a value are read. -/
theorem command? (h : k.Spells w) {s v : List Char} (hs : k.Names s) (hv : Text.Trimmed v) :
    command? k (w ++ ' ' :: (s ++ (k.gap ++ v))) =
      some ⟨k, String.ofList s, String.ofList v⟩ := by
  obtain ⟨⟨⟨⟨d, hd, hblank⟩, hlast⟩, -⟩, hwhole⟩ := hs
  obtain ⟨s', rfl⟩ := List.head?_eq_some_iff.mp hd
  have hsetting : shortest (separated? k) (d :: s' ++ (k.gap ++ v)) = some (d :: s', v) := by
    refine shortest_append (by simp) (separated?_gap hv) fun i hi hlt => ?_
    obtain ⟨r, hr⟩ := k.exists_gap
    rw [hr]
    refine separated?_append_eq_none ?_ (hwhole i hlt hi) _
    rw [List.getLast?_drop, if_neg (by omega)]
    exact hlast
  rw [Assignment.command?, h.trimStart_append, afterWord_append (List.Subset.refl _) h,
    Option.bind_some, List.cons_append, afterBlanks_cons (by decide) hblank, ← List.cons_append,
    hsetting]
  rfl

/-- A longer keyword is not read as `set`. -/
theorem command?_set (hk : k ≠ set) (h : k.Spells w) (r : List Char) :
    Assignment.command? .set (w ++ r) = none := by
  obtain ⟨x, xs, hkey⟩ := exists_key_of_ne_set hk
  have htrim := h.trimStart_append r
  have hletter := fun c => h.letter (c := c)
  rw [Spells, hkey] at h
  obtain ⟨⟩ | ⟨h₁, ⟨⟩ | ⟨h₂, ⟨⟩ | ⟨h₃, ⟨⟩ | ⟨-, -⟩⟩⟩⟩ := h
  rename_i c₁ c₂ c₃ c₄ w'
  have hset : set.key.toList = ['s', 'e', 't'] := by decide
  have hword : afterWord set.key.toList ([c₁, c₂, c₃] ++ c₄ :: (w' ++ r)) =
      some (c₄ :: (w' ++ r)) := by
    refine afterWord_append (k := set) (List.Subset.refl _) ?_ _
    rw [hset]
    exact .cons h₁ (.cons h₂ (.cons h₃ .nil))
  have hblank : Text.isBlank c₄ = false := (hletter c₄ (by simp)).1
  rw [Assignment.command?, htrim]
  show Option.map _ ((afterWord set.key.toList ([c₁, c₂, c₃] ++ c₄ :: (w' ++ r))).bind _) = none
  rw [hword, Option.bind_some, afterBlanks, if_neg (by simp [hblank])]
  rfl

/-- The longest keyword is not read as the one that has another fourth letter. -/
theorem command?_setGS (h : setNumericGameSetting.Spells w) (r : List Char) :
    Assignment.command? .setGS (w ++ r) = none := by
  have htrim := h.trimStart_append r
  rw [Spells, toList_key_setNumericGameSetting] at h
  obtain ⟨⟩ | ⟨-, ⟨⟩ | ⟨-, ⟨⟩ | ⟨-, ⟨⟩ | ⟨h₄, -⟩⟩⟩⟩ := h
  rename_i c₄ w'
  have hg : matchesLetter 'g' c₄ = false := by
    obtain rfl | rfl := h₄ <;> decide
  have hkey : setGS.key.toList = ['s', 'e', 't', 'g', 's'] := by decide
  rw [Assignment.command?, htrim, hkey]
  simp [afterWord, hg]

/-- A command is read with its own keyword, though other keywords begin as it does. -/
theorem ofChars? (h : k.Spells w) {s v : List Char} (hs : k.Names s) (hv : Text.Trimmed v) :
    ofChars? (w ++ ' ' :: (s ++ (k.gap ++ v))) = some ⟨k, String.ofList s, String.ofList v⟩ := by
  have hcommand := h.command? hs hv
  rw [Assignment.ofChars?, all, List.findSome?_cons]
  cases k with
  | set => rw [hcommand]
  | setGS => rw [h.command?_set (by decide), List.findSome?_cons, hcommand]
  | setNumericGameSetting =>
    rw [h.command?_set (by decide), List.findSome?_cons, h.command?_setGS, List.findSome?_cons,
      hcommand]

/-- A command has no comment and no line end in it. -/
theorem plain_command (h : k.Spells w) {s v : List Char} (hs : k.Names s) (hv : Plain v) :
    Plain (w ++ ' ' :: (s ++ (k.gap ++ v))) := by
  obtain ⟨⟨-, hs', hs''⟩, -⟩ := hs
  obtain ⟨⟨-, c, hc, hblank⟩, hv', hv''⟩ := hv
  have hgap : ';' ∉ k.gap ∧ Text.Unbroken k.gap := by cases k <;> decide
  refine ⟨⟨?_, c, ?_, hblank⟩, ?_, ?_⟩
  · obtain ⟨d, w', rfl⟩ := List.exists_cons_of_ne_nil h.ne_nil
    exact ⟨d, rfl, (h.letter List.mem_cons_self).1⟩
  · rw [← List.append_assoc, ← List.cons_append, ← List.append_assoc, List.getLast?_append, hc]
    rfl
  · have hw : ';' ∉ w := fun hm => (h.letter hm).2.1 rfl
    simp [hw, hs', hgap.1, hv']
  · have hw : Text.Unbroken w := fun d hd => (h.letter hd).2.2
    have hblank : Text.Unbroken [' '] := by decide
    exact hw.append (hblank.append (hs''.append (hgap.2.append hv'')))

end Spells

end Keyword

namespace Line

open Assignment

/-- The text of a line is read as that line. -/
@[simp] theorem ofChars_toList_text (cs : List Char) :
    ofChars (ofChars cs).text.toList = ofChars cs := by
  simp [ofChars, Text.trimEnd_trimEnd]

theorem subset_of_disabled? {cs r : List Char} (h : disabled? cs = some r) : r ⊆ cs := by
  unfold disabled? at h
  split at h
  next c cs =>
    split at h
    · cases h
      exact fun x hx => List.mem_cons_of_mem _ (List.mem_cons_of_mem _ hx)
    · cases h
  next => cases h

theorem text_subset (cs : List Char) : (ofChars cs).text.toList ⊆ cs := by
  simpa [ofChars] using (Text.isPrefix_trimEnd cs).subset

/-- The setting that a line assigns is not empty, and there is no comment in it. -/
theorem setting_ne_nil {cs : List Char} {a : Assignment} (h : (ofChars cs).assignment = some a) :
    a.setting.toList ≠ [] ∧ ';' ∉ a.setting.toList := by
  obtain ⟨r, hne, -⟩ := exists_of_ofChars? h
  refine ⟨hne, fun hmem => ?_⟩
  have hbare := Text.subset_of_trim _ (setting_subset_of_ofChars? h hmem)
  simpa using List.mem_takeWhile_imp hbare

/-- The value that a line assigns is in the line. -/
theorem value_subset {cs : List Char} {a : Assignment} (h : (ofChars cs).assignment = some a) :
    a.value.toList ⊆ cs := by
  have hsource : (disabled? (Text.trimEnd cs)).getD (Text.trimEnd cs) ⊆ Text.trimEnd cs := by
    cases hd : disabled? (Text.trimEnd cs) with
    | none => exact List.Subset.refl _
    | some r => exact subset_of_disabled? hd
  intro c hc
  have hbare := Text.subset_of_trim _ (value_subset_of_ofChars? h hc)
  exact (Text.isPrefix_trimEnd cs).subset (hsource ((List.takeWhile_sublist _).subset hbare))

/-- A text that can stand in a command is no disabled command. -/
theorem disabled?_append {cs : List Char} (hcs : Plain cs) (r : List Char) :
    disabled? (cs ++ r) = none := by
  obtain ⟨⟨⟨c, hc, -⟩, -⟩, hsemicolon, -⟩ := hcs
  obtain ⟨cs', rfl⟩ := List.head?_eq_some_iff.mp hc
  have hne : c ≠ ';' := fun he => hsemicolon (by simp [he])
  simp [disabled?, hne]

/-- Of a text without a comment, only blanks at its end are not read. -/
theorem bare_append {cs bs r : List Char} (hcs : Plain cs) (hbs : ∀ b ∈ bs, Text.isBlank b = true)
    (hr : ∀ c ∈ r.head?, c = ';') : bare (cs ++ bs ++ r) = cs := by
  obtain ⟨⟨⟨c, hc, hblank⟩, d, hd, hblank'⟩, hsemicolon, -⟩ := hcs
  have htake : (cs ++ bs ++ r).takeWhile (· ≠ ';') = cs ++ bs := by
    have hmem : ∀ c ∈ cs ++ bs, decide (c ≠ ';') = true := by
      intro c hm
      have hne : c ≠ ';' := by
        rintro rfl
        obtain hm | hm := List.mem_append.mp hm
        · exact hsemicolon hm
        · exact absurd (hbs _ hm) (by decide)
      simpa using hne
    rw [List.takeWhile_append_of_pos hmem]
    cases r with
    | nil => simp
    | cons x r => simp [hr x rfl]
  have hstart : Text.trimStart (cs ++ bs) = cs ++ bs := by
    obtain ⟨cs', rfl⟩ := List.head?_eq_some_iff.mp hc
    exact Text.trimStart_eq_self_of_head? rfl hblank
  rw [bare, htake, Text.trim, hstart, Text.trimEnd_append_of_blank cs hbs,
    Text.trimEnd_eq_self_of_getLast? hd hblank']

/-- A text that can stand in a command is read as it is. -/
theorem ofChars_of_plain {cs : List Char} (hcs : Plain cs) :
    ofChars cs = ⟨String.ofList cs, false, ofChars? cs⟩ := by
  obtain ⟨⟨-, d, hd, hblank⟩, -⟩ := id hcs
  have hdisabled := disabled?_append hcs []
  have hbare : bare (cs ++ [] ++ []) = cs := bare_append hcs (by simp) (by simp)
  simp only [List.append_nil] at hdisabled hbare
  simp only [ofChars, Text.trimEnd_eq_self_of_getLast? hd hblank, hdisabled, Option.getD_none,
    Option.isSome_none, hbare]

/-- The comment behind a text is not read. -/
theorem ofChars_append_comment {cs bs : List Char} (hcs : Plain cs)
    (hbs : ∀ b ∈ bs, Text.isBlank b = true) (r : List Char) :
    ofChars (cs ++ bs ++ ';' :: r) =
      ⟨String.ofList (cs ++ bs ++ ';' :: Text.trimEnd r), false, ofChars? cs⟩ := by
  have hdisabled : disabled? (cs ++ bs ++ ';' :: Text.trimEnd r) = none := by
    rw [List.append_assoc]
    exact disabled?_append hcs _
  have hbare : bare (cs ++ bs ++ ';' :: Text.trimEnd r) = cs := bare_append hcs hbs (by simp)
  simp only [ofChars, Text.trimEnd_append_cons _ (by decide : Text.isBlank ';' = false), hdisabled,
    Option.getD_none, Option.isSome_none, hbare]

/-- A line that begins with a semicolon assigns nothing, or is disabled. -/
theorem disabled_or_assignment_eq_none (cs : List Char) :
    (ofChars (';' :: cs)).disabled = true ∨ (ofChars (';' :: cs)).assignment = none := by
  obtain ⟨t, ht⟩ : ∃ t, Text.trimEnd (';' :: cs) = ';' :: t := by
    have hne : Text.trimEnd (';' :: cs) ≠ [] := fun h =>
      absurd (List.rdropWhile_eq_nil_iff.mp h ';' List.mem_cons_self) (by decide)
    obtain ⟨c, t, ht⟩ := List.exists_cons_of_ne_nil hne
    obtain ⟨r, hr⟩ := Text.isPrefix_trimEnd (';' :: cs)
    rw [ht] at hr ⊢
    cases hr
    exact ⟨t, rfl⟩
  have hbare : bare (';' :: t) = [] := by simp [bare, Text.trim]
  have hnone : ofChars? [] = none := by decide
  rw [ofChars]
  simp only [ht]
  cases disabled? (';' :: t) with
  | none => exact .inr (by rw [Option.getD_none, hbare, hnone])
  | some r => exact .inl rfl

end Line

end ModWizard
