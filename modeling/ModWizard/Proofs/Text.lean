import Mathlib.Data.List.DropRight
import Mathlib.Data.List.Induction
import ModWizard.Text.Blank
import ModWizard.Text.Lines
import ModWizard.Text.Lowercase

/-!
# Lemmas about texts

Trimming, the lines of a text, and the capitals of a small letter.  Joined lines are read as those
lines again, so long as no line end is in any of them.
-/

namespace ModWizard.Text

/-! ### Blanks -/

/-- A text that is not empty and has no blank at either end. -/
def Trimmed (cs : List Char) : Prop :=
  (∃ c ∈ cs.head?, isBlank c = false) ∧ ∃ c ∈ cs.getLast?, isBlank c = false

instance (cs : List Char) : Decidable (Trimmed cs) :=
  decidable_of_iff
    (cs.head?.any (!isBlank ·) = true ∧ cs.getLast?.any (!isBlank ·) = true)
    (by simp [Trimmed, Option.any_eq_true])

theorem trimStart_eq_self_of_head? {cs : List Char} {c : Char} (h : cs.head? = some c)
    (hc : isBlank c = false) : trimStart cs = cs := by
  obtain ⟨r, rfl⟩ := List.head?_eq_some_iff.mp h
  rw [trimStart_cons, if_neg (by simp [hc])]

theorem trimEnd_concat (cs : List Char) (c : Char) :
    trimEnd (cs ++ [c]) = if isBlank c then trimEnd cs else cs ++ [c] :=
  List.rdropWhile_concat isBlank cs c

theorem trimEnd_eq_self_of_getLast? {cs : List Char} {c : Char} (h : cs.getLast? = some c)
    (hc : isBlank c = false) : trimEnd cs = cs := by
  obtain ⟨r, rfl⟩ := List.getLast?_eq_some_iff.mp h
  rw [trimEnd_concat, if_neg (by simp [hc])]

theorem trimEnd_trimEnd (cs : List Char) : trimEnd (trimEnd cs) = trimEnd cs :=
  List.rdropWhile_idempotent isBlank cs

/-- Blanks at the end do not count. -/
theorem trimEnd_append_of_blank (cs : List Char) {bs : List Char}
    (h : ∀ b ∈ bs, isBlank b = true) : trimEnd (cs ++ bs) = trimEnd cs := by
  rw [trimEnd, List.reverse_append, List.dropWhile_append_of_pos (by simpa using h), trimEnd]

/-- Nothing is lost before a character that is not blank. -/
theorem trimEnd_append_cons (cs : List Char) {c : Char} (h : isBlank c = false) (ds : List Char) :
    trimEnd (cs ++ c :: ds) = cs ++ c :: trimEnd ds := by
  induction ds using List.reverseRecOn with
  | nil => rw [trimEnd_concat, if_neg (by simp [h]), trimEnd_nil]
  | append_singleton ds d ih =>
    have hassoc : cs ++ c :: (ds ++ [d]) = (cs ++ c :: ds) ++ [d] := by simp
    rw [hassoc, trimEnd_concat, trimEnd_concat]
    split
    · exact ih
    · simp

theorem isPrefix_trimEnd (cs : List Char) : trimEnd cs <+: cs :=
  List.rdropWhile_prefix isBlank cs

/-- Two texts without blanks at their ends make one. -/
theorem trimEnd_append_eq_self {cs ds : List Char} (hc : trimEnd cs = cs) (hd : trimEnd ds = ds) :
    trimEnd (cs ++ ds) = cs ++ ds := by
  obtain rfl | ⟨es, c, rfl⟩ := List.eq_nil_or_concat ds
  · rw [List.append_nil, hc]
  · rw [List.concat_eq_append, trimEnd_concat] at hd
    rw [List.concat_eq_append, ← List.append_assoc, trimEnd_concat]
    split at hd
    next hblank =>
      have hle := (isPrefix_trimEnd es).length_le
      rw [hd, List.length_append, List.length_singleton] at hle
      omega
    next hblank => rw [if_neg hblank]

theorem isSuffix_trimStart (cs : List Char) : trimStart cs <:+ cs :=
  List.dropWhile_suffix isBlank

theorem subset_of_trim (cs : List Char) : trim cs ⊆ cs := fun _ h =>
  (isSuffix_trimStart cs).subset ((isPrefix_trimEnd (trimStart cs)).subset h)

/-! ### Lines -/

/-- A text without a line end. -/
def Unbroken (cs : List Char) : Prop := ∀ c ∈ cs, c ≠ '\n' ∧ c ≠ '\r'

instance (cs : List Char) : Decidable (Unbroken cs) :=
  List.decidableBAll (fun c => c ≠ '\n' ∧ c ≠ '\r') cs

theorem Unbroken.append {cs ds : List Char} (hc : Unbroken cs) (hd : Unbroken ds) :
    Unbroken (cs ++ ds) := fun c h =>
  (List.mem_append.mp h).elim (hc c) (hd c)

theorem Unbroken.subset {cs ds : List Char} (hd : Unbroken ds) (h : cs ⊆ ds) : Unbroken cs :=
  fun c hc => hd c (h hc)

theorem isBlank_space : isBlank ' ' = true := by decide

/-- A line end is a blank. -/
theorem unbroken_of_not_blank {cs : List Char} (h : ∀ c ∈ cs, isBlank c = false) : Unbroken cs := by
  have hends : isBlank '\n' = true ∧ isBlank '\r' = true := by decide
  refine fun c hc => ⟨?_, ?_⟩
  · rintro rfl
    exact absurd (hends.1.symm.trans (h _ hc)) (by decide)
  · rintro rfl
    exact absurd (hends.2.symm.trans (h _ hc)) (by decide)

theorem unifyNewlines_eq_self {cs : List Char} (h : '\r' ∉ cs) : unifyNewlines cs = cs := by
  fun_induction unifyNewlines cs with
  | case1 => rfl
  | case2 => simp at h
  | case3 => simp at h
  | case4 c cs _ _ ih => rw [ih fun hm => h (List.mem_cons_of_mem c hm)]

theorem notMem_unifyNewlines (cs : List Char) : '\r' ∉ unifyNewlines cs := by
  fun_induction unifyNewlines cs with
  | case1 => simp
  | case2 cs ih => simpa using ih
  | case3 cs _ ih => simpa using ih
  | case4 c cs _ hc ih => simpa using ⟨fun h => hc h.symm, ih⟩

theorem splitAt_eq_singleton {divides : Char → Bool} {p : List Char}
    (h : ∀ c ∈ p, divides c = false) : splitAt divides p = [p] := by
  induction p with
  | nil => rfl
  | cons c p ih =>
    rw [List.forall_mem_cons] at h
    rw [splitAt, if_neg (by simp [h.1]), ih h.2]

/-- Only the characters of the text matter. -/
theorem splitAt_congr {divides divides' : Char → Bool} {cs : List Char}
    (h : ∀ c ∈ cs, divides c = divides' c) : splitAt divides cs = splitAt divides' cs := by
  induction cs with
  | nil => rfl
  | cons c cs ih =>
    rw [splitAt, splitAt, h c List.mem_cons_self, ih fun d hd => h d (List.mem_cons_of_mem c hd)]

/-- The pieces of a text with a divider in it are those before and those behind it. -/
theorem splitAt_append_cons {divides : Char → Bool} {d : Char} (hd : divides d = true)
    (cs ds : List Char) :
    splitAt divides (cs ++ d :: ds) = splitAt divides cs ++ splitAt divides ds := by
  induction cs with
  | nil => simp [splitAt, hd]
  | cons c cs ih =>
    rw [List.cons_append, splitAt, splitAt]
    split
    next => rw [ih, List.cons_append]
    next =>
      obtain ⟨p, ps, hp⟩ := List.exists_cons_of_ne_nil (splitAt_ne_nil divides cs)
      rw [ih, hp]
      rfl

theorem splitAt_append_of_not {divides : Char → Bool} {p : List Char}
    (h : ∀ c ∈ p, divides c = false) {d : Char} (hd : divides d = true) (cs : List Char) :
    splitAt divides (p ++ d :: cs) = p :: splitAt divides cs := by
  rw [splitAt_append_cons hd, splitAt_eq_singleton h, List.singleton_append]

/-- The characters of a piece are those of the text that do not divide it. -/
theorem mem_of_mem_splitAt {divides : Char → Bool} {cs p : List Char}
    (hp : p ∈ splitAt divides cs) {c : Char} (hc : c ∈ p) : c ∈ cs ∧ divides c = false := by
  induction cs generalizing p with
  | nil =>
    rw [splitAt_nil, List.mem_singleton] at hp
    simp [hp] at hc
  | cons x cs ih =>
    rw [splitAt] at hp
    by_cases hx : divides x = true
    · rw [if_pos hx, List.mem_cons] at hp
      obtain rfl | hp := hp
      · cases hc
      · exact (ih hp hc).imp_left (List.mem_cons_of_mem x)
    · obtain ⟨q, qs, hq⟩ := List.exists_cons_of_ne_nil (splitAt_ne_nil divides cs)
      simp only [if_neg hx, hq] at hp ih
      obtain rfl | hp := List.mem_cons.mp hp
      · obtain rfl | hc := List.mem_cons.mp hc
        · exact ⟨List.mem_cons_self, by simpa using hx⟩
        · exact (ih List.mem_cons_self hc).imp_left (List.mem_cons_of_mem x)
      · exact (ih (List.mem_cons_of_mem q hp) hc).imp_left (List.mem_cons_of_mem x)

theorem subset_dropEmptyLast (ps : List (List Char)) : dropEmptyLast ps ⊆ ps := by
  rw [dropEmptyLast]
  split
  · exact List.dropLast_subset ps
  · exact fun _ h => h

/-- No line end is in a line. -/
theorem unbroken_of_mem_lines {s : String} {l : List Char} (h : l ∈ lines s) : Unbroken l := by
  intro c hc
  obtain ⟨hm, hd⟩ := mem_of_mem_splitAt (subset_dropEmptyLast _ h) hc
  exact ⟨by simpa using hd, fun he => notMem_unifyNewlines _ (he ▸ hm)⟩

theorem splitAt_intercalate {ps : List (List Char)} (hne : ps ≠ [])
    (h : ∀ p ∈ ps, Unbroken p) : splitAt (· == '\n') (['\n'].intercalate ps) = ps := by
  have hdiv : ∀ p ∈ ps, ∀ c ∈ p, (c == '\n') = false := fun p hp c hc => by
    simpa using (h p hp c hc).1
  induction ps with
  | nil => exact absurd rfl hne
  | cons p ps ih =>
    rw [List.forall_mem_cons] at h hdiv
    cases ps with
    | nil => simpa using splitAt_eq_singleton hdiv.1
    | cons q qs =>
      rw [List.intercalate_cons_cons, List.append_assoc, List.singleton_append,
        splitAt_append_of_not hdiv.1 (by simp), ih (by simp) h.2 hdiv.2]

theorem notMem_intercalate {sep : List Char} {c : Char} (hs : c ∉ sep) {ps : List (List Char)}
    (h : ∀ p ∈ ps, c ∉ p) : c ∉ sep.intercalate ps := by
  induction ps with
  | nil => simp
  | cons p ps ih =>
    rw [List.forall_mem_cons] at h
    cases ps with
    | nil => simpa using h.1
    | cons q qs =>
      rw [List.intercalate_cons_cons, List.mem_append, List.mem_append]
      rintro ((hm | hm) | hm)
      · exact h.1 hm
      · exact hs hm
      · exact ih h.2 hm

/-- Joined lines are read as those lines, except that an empty last line is not one. -/
theorem lines_joinLines {ls : List String} (h : ∀ l ∈ ls, Unbroken l.toList) :
    lines (joinLines ls) = dropEmptyLast (ls.map String.toList) := by
  have hps : ∀ p ∈ ls.map String.toList, Unbroken p := by simpa using h
  have hchars : (joinLines ls).toList = ['\n'].intercalate (ls.map String.toList) := by
    rw [joinLines, String.toList_intercalate]
    rfl
  have hr : '\r' ∉ ['\n'].intercalate (ls.map String.toList) :=
    notMem_intercalate (by decide) fun p hp hm => (hps p hp _ hm).2 rfl
  rw [lines, hchars, unifyNewlines_eq_self hr]
  cases ls with
  | nil => rfl
  | cons l ls => rw [splitAt_intercalate (by simp) hps]

theorem joinLines_concat_empty {ls : List String} (h : ls ≠ []) :
    joinLines (ls ++ [""]) = joinLines ls ++ "\n" := by
  induction ls with
  | nil => exact absurd rfl h
  | cons l ls ih =>
    cases ls with
    | nil => simp [joinLines, String.intercalate_cons_cons]
    | cons m ls =>
      have ih := ih (by simp)
      simp only [joinLines, List.cons_append, String.intercalate_cons_cons] at ih ⊢
      simp only [ih, String.append_assoc]

/-- The lines of joined lines are those, or those without the last, which is empty. -/
theorem exists_lines_joinLines {ls : List String} (h : ∀ l ∈ ls, Unbroken l.toList) :
    ∃ ms : List String, lines (joinLines ls) = ms.map String.toList ∧
      (ls = ms ∨ ls = ms ++ [""]) := by
  rw [lines_joinLines h, dropEmptyLast]
  split
  next hlast =>
    obtain ⟨ms, rfl⟩ : ∃ ms, ls = ms ++ [""] := by
      rw [List.getLast?_map, Option.map_eq_some_iff] at hlast
      obtain ⟨l, hl, hempty⟩ := hlast
      obtain ⟨ms, rfl⟩ := List.getLast?_eq_some_iff.mp hl
      exact ⟨ms, by rw [String.toList_eq_nil_iff.mp hempty]⟩
    exact ⟨ms, by simp, .inr rfl⟩
  next => exact ⟨ls, rfl, .inl rfl⟩

/-- An empty line at the end is at most one more line end. -/
theorem joinLines_eq_or {ls ms : List String} (h : ls = ms ∨ ls = ms ++ [""]) :
    joinLines ls = joinLines ms ∨ joinLines ls = joinLines ms ++ "\n" := by
  obtain rfl | rfl := h
  · exact .inl rfl
  · cases ms with
    | nil => exact .inl rfl
    | cons m ms => exact .inr (joinLines_concat_empty (by simp))

/-! ### Small letters -/

/-- Whether a character is a small letter of the alphabet or its capital. -/
def CaseOf (small c : Char) : Prop := c = small ∨ c = Char.ofNat (small.toNat - 0x20)

theorem smallLetter_eq_or_exists (n : Nat) (rs : List CaseRun) :
    smallLetter n rs = n ∨
      ∃ r ∈ rs, r.first ≤ n ∧ n ≤ r.last ∧ smallLetter n rs = r.image + (n - r.first) := by
  induction rs with
  | nil => exact .inl rfl
  | cons r rs ih =>
    rw [smallLetter]
    split
    next => exact .inl rfl
    next hfirst =>
      split
      next hrun =>
        rw [Bool.and_eq_true, decide_eq_true_iff] at hrun
        exact .inr ⟨r, List.mem_cons_self, by omega, hrun.1, rfl⟩
      next => exact ih.imp_right fun ⟨r', hr', h⟩ => ⟨r', List.mem_cons_of_mem r hr', h⟩

/-- Only the first run gives letters of the alphabet, but for the Kelvin sign. -/
theorem image_of_mem_caseRuns : ∀ r ∈ caseRuns,
    r.first = 0x41 ∧ r.image = 0x61 ∨ 0x7a < r.image ∨ r.first = r.last ∧ r.image = 0x6b := by
  decide +kernel

theorem eq_or_add_eq_of_smallLetter {n m : Nat} (h : smallLetter n caseRuns = m) (hm : m ≤ 0x7a)
    (hk : m ≠ 0x6b) : n = m ∨ n + 0x20 = m := by
  obtain hn | ⟨r, hr, hfirst, hlast, hn⟩ := smallLetter_eq_or_exists n caseRuns
  · exact .inl (hn.symm.trans h)
  · have := image_of_mem_caseRuns r hr
    omega

theorem toNat_ofNat_of_pos {n : Nat} (h : 0 < (Char.ofNat n).toNat) : (Char.ofNat n).toNat = n := by
  by_cases hv : n.isValidChar
  · rw [Char.ofNat, dif_pos hv]
    rfl
  · have hzero : (Char.ofNat n).toNat = 0 := by
      rw [Char.ofNat, dif_neg hv]
      rfl
    omega

/-- The small letters of a character hold no sign that comes before all small letters, unless it is
that sign. -/
theorem eq_of_mem_lowerChar {c d : Char} (hpos : 0 < c.toNat) (hlt : c.toNat < 0x61)
    (h : c ∈ lowerChar d) : c = d := by
  rw [lowerChar] at h
  split at h
  next =>
    simp only [List.mem_cons, List.not_mem_nil, or_false] at h
    obtain rfl | rfl := h <;> exact absurd hlt (by decide)
  next =>
    obtain rfl := List.mem_singleton.mp h
    have hn := toNat_ofNat_of_pos hpos
    obtain hsame | ⟨r, hr, -, -, hrun⟩ := smallLetter_eq_or_exists d.toNat caseRuns
    · rw [hsame, Char.ofNat_toNat]
    · have himage := image_of_mem_caseRuns r hr
      omega

/-- A sign that comes before all small letters and is no capital stands in a text exactly if it
stands there in small letters. -/
theorem mem_lower_iff {c : Char} (hpos : 0 < c.toNat) (hlt : c.toNat < 0x61)
    (hself : lowerChar c = [c]) {s : String} : c ∈ (lower s).toList ↔ c ∈ s.toList := by
  have hafter : ∀ before ds, c ∈ lowerAfter before ds ↔ c ∈ ds := by
    intro before ds
    induction ds generalizing before with
    | nil => simp [lowerAfter]
    | cons d ds ih =>
      rw [lowerAfter, List.mem_append, ih, List.mem_cons]
      refine or_congr_left ?_
      split
      next hd =>
        -- the sigma and its small forms come after the small letters
        have hsigma : lowerSigma before ds = 'ς' ∨ lowerSigma before ds = 'σ' := by
          unfold lowerSigma
          split <;> simp
        constructor
        · intro h
          rw [List.mem_singleton.mp h] at hlt
          obtain h | h := hsigma <;> rw [h] at hlt <;> exact absurd hlt (by decide)
        · rintro rfl
          exact absurd hlt (by rw [hd]; decide)
      next =>
        refine ⟨eq_of_mem_lowerChar hpos hlt, ?_⟩
        rintro rfl
        simp [hself]
  rw [lower, String.toList_ofList, hafter]

theorem lower_eq_empty_iff {s : String} : lower s = "" ↔ s = "" := by
  refine ⟨fun h => ?_, fun h => by rw [h]; rfl⟩
  have hnil : lowerAfter [] s.toList = [] := by
    have hlist := congrArg String.toList h
    rwa [lower, String.toList_ofList] at hlist
  cases hs : s.toList with
  | nil => exact String.toList_eq_nil_iff.mp hs
  | cons c cs =>
    rw [hs, lowerAfter, List.append_eq_nil_iff] at hnil
    have hone := hnil.1
    split at hone
    · cases hone
    · rw [lowerChar] at hone
      split at hone <;> cases hone

/-- What is written in small letters of the alphabet, without a `k`, is written in those letters
and their capitals. -/
theorem forall₂_caseOf_of_lowerAfter {before cs ws : List Char}
    (hw : ∀ x ∈ ws, 0x61 ≤ x.toNat ∧ x.toNat ≤ 0x7a ∧ x.toNat ≠ 0x6b)
    (h : lowerAfter before cs = ws) : List.Forall₂ CaseOf ws cs := by
  induction cs generalizing before ws with
  | nil =>
    cases h
    exact .nil
  | cons c cs ih =>
    rw [lowerAfter] at h
    split at h
    · -- the small forms of the capital sigma are no letters of the alphabet
      subst h
      have hs := (hw (lowerSigma before cs) (by simp)).2.1
      rw [lowerSigma] at hs
      split at hs <;> exact absurd hs (by decide)
    · rw [lowerChar] at h
      split at h
      · subst h
        exact absurd (hw (Char.ofNat 0x307) (by simp)).2.1 (by decide)
      · subst h
        simp only [List.singleton_append, List.forall_mem_cons] at hw ⊢
        refine .cons ?_ (ih hw.2 rfl)
        have hx := toNat_ofNat_of_pos (n := smallLetter c.toNat caseRuns) (by omega)
        obtain hc | hc := eq_or_add_eq_of_smallLetter hx.symm hw.1.2.1 hw.1.2.2
        · exact .inl (by simpa using congrArg Char.ofNat hc)
        · right
          rw [← hc, Nat.add_sub_cancel, Char.ofNat_toNat]

/-! ### Small letters name by name -/

theorem meetsCased_append_slash (cs ds : List Char) :
    meetsCased (cs ++ '/' :: ds) = meetsCased cs := by
  induction cs with
  | nil =>
    have hslash : isCaseIgnorable '/' = false ∧ isCased '/' = false := by decide
    simp [meetsCased, hslash]
  | cons c cs ih => simp [meetsCased, ih]

/-- What stands before a slash has no part in the small letters behind it. -/
theorem lowerAfter_append_slash (before ds cs : List Char) :
    lowerAfter (before ++ '/' :: ds) cs = lowerAfter before cs := by
  induction cs generalizing before with
  | nil => rfl
  | cons c cs ih =>
    have hsigma : lowerSigma (before ++ '/' :: ds) cs = lowerSigma before cs := by
      rw [lowerSigma, lowerSigma, meetsCased_append_slash]
    rw [lowerAfter, lowerAfter, hsigma, ← List.cons_append, ih]

/-- What stands behind a slash has no part in the small letters before it. -/
theorem lowerAfter_slash (before cs ds : List Char) :
    lowerAfter before (cs ++ '/' :: ds) = lowerAfter before cs ++ '/' :: lowerAfter [] ds := by
  induction cs generalizing before with
  | nil =>
    have hslash : lowerChar '/' = ['/'] := by decide
    have hbefore : lowerAfter ('/' :: before) ds = lowerAfter [] ds :=
      lowerAfter_append_slash [] before ds
    simp [lowerAfter, hslash, hbefore]
  | cons c cs ih =>
    have hsigma : lowerSigma before (cs ++ '/' :: ds) = lowerSigma before cs := by
      rw [lowerSigma, lowerSigma, meetsCased_append_slash]
    rw [List.cons_append, lowerAfter, lowerAfter, hsigma, ih, List.append_assoc]

theorem lower_append_slash (s t : String) : lower (s ++ "/" ++ t) = lower s ++ "/" ++ lower t := by
  have hslash : "/".toList = ['/'] := by decide
  rw [← String.toList_inj]
  simp only [lower, String.toList_append, String.toList_ofList, hslash, List.append_assoc,
    List.singleton_append]
  exact lowerAfter_slash [] s.toList t.toList

theorem lower_intercalate (ns : List String) :
    lower ("/".intercalate ns) = "/".intercalate (ns.map lower) := by
  induction ns with
  | nil => rfl
  | cons n ns ih =>
    cases ns with
    | nil => simp
    | cons m ns =>
      rw [List.map_cons] at ih ⊢
      rw [List.map_cons, String.intercalate_cons_cons, String.intercalate_cons_cons,
        lower_append_slash, ih]

end ModWizard.Text
