import ModWizard.Proofs.Tweak.Effect

/-!
# What becomes of a line

A merge writes one line for each line of the file.  A line that is no command stays.  A command
stays too, or it gets the mark of a disabled command, or it gives way to an edit of its setting; of
the commands for one setting only the first can do that.  Which of the three it is follows from the
tweaks that are kept for the setting.
-/

namespace ModWizard.Tweak.Merge

/-- Whether none of some lines is a command for the setting of an assignment. -/
def Unassigned (ls : List Line) (a : Assignment) : Prop :=
  ∀ l ∈ ls, ¬ l.Assigns a.keyword.key a.setting

instance (ls : List Line) (a : Assignment) : Decidable (Unassigned ls a) :=
  inferInstanceAs (Decidable (∀ l ∈ ls, ¬ l.Assigns a.keyword.key a.setting))

/-- That a text is the line of an edit in place of an assignment: the command for the same setting
with the value of the edit, and a note that quotes the former value.  It is read as that command,
unless the edit itself cannot be. -/
structure Rewrites (a : Assignment) (e : Edit) (t : String) : Prop where
  text : t = a.keyword.spelling ++ " " ++ a.setting ++ String.ofList a.keyword.gap ++
    e.value.toText ++ "  ; " ++ (e.remark.map (· ++ " ")).getD "" ++
    "(set by MO2 via Wizard, was " ++ a.value ++ ")"
  read : e.Legible → readLine t = ⟨t, false, some ⟨a.keyword, a.setting, e.value.toText⟩⟩

theorem rewrites_replacement {a : Assignment} {e : Edit}
    (hk : Text.lower e.sectionName = a.keyword.key) (hs : e.setting = a.setting) :
    Rewrites a e (replacement a e) where
  text := by
    rw [replacement, command_eq]
    cases e.remark <;> rfl
  read h := ofChars_replacement h hk hs

/-- What may be written for a line that follows some others. -/
inductive Becomes (ts : List Tweak) (earlier : List Line) (l : Line) : String → Prop
  /-- the line itself -/
  | same : Becomes ts earlier l l.text
  /-- the line with a mark: it has none yet, and its setting is disabled -/
  | marked (a : Assignment) (sectionName : String) (assigns : l.assignment = some a)
      (unmarked : ¬ [';', '-'] <+: l.text.toList)
      (named : Text.lower sectionName = a.keyword.key)
      (listed : .disable sectionName a.setting ∈ ts) : Becomes ts earlier l (";-" ++ l.text)
  /-- the line of an edit of its setting, if it is the first command for that -/
  | replaced (a : Assignment) (e : Edit) (t : String) (assigns : l.assignment = some a)
      (named : Text.lower e.sectionName = a.keyword.key) (setting : e.setting = a.setting)
      (listed : .edit e ∈ ts) (first : Unassigned earlier a) (rewrites : Rewrites a e t) :
      Becomes ts earlier l t

variable {ts : List Tweak} {earlier : List Line} {l : Line} {a : Assignment}

/-- A line that is rewritten is the first command for its setting. -/
theorem Becomes.unassigned {t : String} (h : Becomes ts earlier l t) (hsame : t ≠ l.text)
    (hmark : t ≠ ";-" ++ l.text) (ha : l.assignment = some a) : Unassigned earlier a := by
  cases h with
  | same => exact absurd rfl hsame
  | marked => exact absurd rfl hmark
  | replaced a' e t assigns named setting listed first rewrites =>
    obtain rfl : a' = a := Option.some.inj (assigns.symm.trans ha)
    exact first

/-! ### Line by line -/

/-- An edit is left after some lines if none of them is a command for its setting. -/
theorem find?_left_assignment (ts : List Tweak) (earlier : List Line) (a : Assignment) :
    (left ts earlier).find? a.keyword.key a.setting =
      if Unassigned earlier a then (edits ts).find? a.keyword.key a.setting else none := by
  rw [find?_left]
  by_cases h : Unassigned earlier a
  · rw [if_pos h, if_neg fun ⟨m, hm, hassigns⟩ => h m hm hassigns]
  · rw [if_neg h, if_pos (by simpa [Unassigned] using h)]

/-- Each line is merged with the edits that the lines before it have left. -/
theorem getElem?_mergeLines {off : Index Unit} {waiting : Index Edit} (ls : List Line) (i : Nat) :
    (mergeLines off waiting ls).1[i]? =
      ls[i]?.map fun l => (mergeLine off (mergeLines off waiting (ls.take i)).2 l).1 := by
  induction ls generalizing waiting i with
  | nil => rfl
  | cons l ls ih =>
    cases i with
    | zero => rfl
    | succ i =>
      rw [mergeLines, List.getElem?_cons_succ, List.getElem?_cons_succ, ih]
      rfl

theorem getElem?_above (ts : List Tweak) (ls : List Line) (i : Nat) :
    (above ts ls)[i]? =
      ls[i]?.map fun l => (mergeLine (disabled ts) (left ts (ls.take i)) l).1 :=
  getElem?_mergeLines ls i

/-- A command that is not disabled does not begin with a semicolon. -/
theorem head?_text_ne_semicolon (hl : readLine l.text = l) (hactive : l.disabled = false)
    (ha : l.assignment = some a) : l.text.toList.head? ≠ some ';' := by
  intro hhead
  obtain ⟨cs, hcs⟩ := List.head?_eq_some_iff.mp hhead
  rw [readLine, hcs] at hl
  obtain hdisabled | hnone := Line.disabled_or_assignment_eq_none cs
  · rw [hl, hactive] at hdisabled
    cases hdisabled
  · rw [hl, ha] at hnone
    cases hnone

/-- One line after some others becomes what it may become. -/
theorem becomes_mergeLine (ts : List Tweak) (earlier : List Line) (hl : readLine l.text = l) :
    Becomes ts earlier l (mergeLine (disabled ts) (left ts earlier) l).1 := by
  obtain ⟨a, e, ha, he, hline⟩ | ⟨a, ha, -, hactive, hoff, hline⟩ | ⟨-, hline⟩ :=
    mergeLine_cases (disabled ts) (left ts earlier) l
  · rw [find?_left_assignment] at he
    split at he
    next hfirst =>
      obtain ⟨hlisted, hnamed, hsetting⟩ := mem_of_find?_edits he
      rw [hline]
      exact .replaced a e _ ha hnamed hsetting hlisted hfirst
        (rewrites_replacement hnamed hsetting)
    next => cases he
  · obtain ⟨sectionName, hnamed, hlisted⟩ := exists_of_find?_disabled hoff
    rw [hline]
    refine .marked a sectionName ha ?_ hnamed hlisted
    rintro ⟨cs, hcs⟩
    exact head?_text_ne_semicolon hl hactive ha (by rw [← hcs]; rfl)
  · rw [hline]
    exact .same

/-! ### Lists for console commands -/

/-- Whether a setting is given a value by a list of tweaks: one does so, and none after the last
such begins its section anew. -/
def Edits (ts : List Tweak) (k : Keyword) (s : String) : Prop :=
  (last? (editEntries ts) k s).isSome = true ∧ Kept (editEntries ts) k s

instance (ts : List Tweak) (k : Keyword) (s : String) : Decidable (Edits ts k s) :=
  inferInstanceAs (Decidable (_ ∧ _))

/-- The ways in which a line can be treated. -/
inductive Treatment
  | replaced
  | marked
  | unchanged
  deriving DecidableEq

/-- How a line that follows some others is treated. -/
def treatment (ts : List Tweak) (earlier : List Line) (l : Line) : Treatment :=
  match l.assignment with
  | none => .unchanged
  | some a =>
    if Edits ts a.keyword a.setting ∧ Unassigned earlier a then .replaced
    else if l.disabled = false ∧ Disables ts a.keyword a.setting then .marked
    else .unchanged

/-- The line of the last edit of the setting that a line assigns. -/
def rewriting? (ts : List Tweak) (l : Line) : Option String :=
  l.assignment.bind fun a => (last? (editEntries ts) a.keyword a.setting).map (replacement a)

/-- What is written for a line that is treated in some way. -/
def written (ts : List Tweak) (l : Line) : Treatment → String
  | .replaced => (rewriting? ts l).getD l.text
  | .marked => ";-" ++ l.text
  | .unchanged => l.text

@[simp] theorem written_marked (ts : List Tweak) (l : Line) :
    written ts l .marked = ";-" ++ l.text := rfl

@[simp] theorem written_unchanged (ts : List Tweak) (l : Line) :
    written ts l .unchanged = l.text := rfl

theorem find?_edits_keyword (hc : ∀ t ∈ ts, t.isCommand = true) (k : Keyword) (s : String) :
    (edits ts).find? k.key s = if Edits ts k s then last? (editEntries ts) k s else none := by
  rw [edits_eq_gather, find?_gather (ofKeywords_editEntries hc)]
  by_cases hkept : Kept (editEntries ts) k s
  · rw [if_pos hkept]
    cases hlast : last? (editEntries ts) k s <;> simp [Edits, hlast, hkept]
  · rw [if_neg hkept, if_neg fun h => hkept h.2]

/-- How a line is treated says what is written for it. -/
theorem mergeLine_eq_written (hc : ∀ t ∈ ts, t.isCommand = true) (earlier : List Line) (l : Line) :
    (mergeLine (disabled ts) (left ts earlier) l).1 = written ts l (treatment ts earlier l) := by
  unfold treatment mergeLine
  cases ha : l.assignment with
  | none => rfl
  | some a =>
    have hleft : (left ts earlier).find? a.keyword.key a.setting =
        if Edits ts a.keyword a.setting ∧ Unassigned earlier a then
          last? (editEntries ts) a.keyword a.setting else none := by
      rw [find?_left_assignment, find?_edits_keyword hc]
      by_cases hfirst : Unassigned earlier a <;> simp [hfirst]
    simp only [hleft]
    by_cases hedits : Edits ts a.keyword a.setting ∧ Unassigned earlier a
    · obtain ⟨e, he⟩ := Option.isSome_iff_exists.mp hedits.1.1
      simp [hedits, he, written, rewriting?, ha]
    · simp only [if_neg hedits, Bool.and_eq_true, Bool.not_eq_true', isSome_find?_disabled_iff hc]
      split <;> rfl

/-! ### The whole merge -/

/-- What a merge into a file that can be read does to the lines of the file.  Each becomes what it
may become, and one that is rewritten is the first command for its setting.  If the tweaks are for
console commands, each line is treated as its setting is. -/
theorem render_becomes (ts : List Tweak) {disk : Disk} {file : Path} {content : String}
    (hr : readText disk file = .ok content) :
    ∃ above below, mergeInto ts (fileLines content) = .ok (above ++ below) ∧
      render ts disk file = .ok (Text.joinLines (above ++ below)) ∧
      above.length = (fileLines content).length ∧
      ∀ i l, (fileLines content)[i]? = some l → ∃ t, above[i]? = some t ∧
        Becomes ts ((fileLines content).take i) l t ∧
        (t ≠ l.text → t ≠ ";-" ++ l.text →
          ∀ a ∈ l.assignment, Unassigned ((fileLines content).take i) a) ∧
        (areCommands ts = true →
          t = written ts l (treatment ts ((fileLines content).take i) l)) := by
  obtain ⟨below, -, -, hinto⟩ := exists_mergeInto ts (fileLines content)
  refine ⟨_, below, hinto, render_of_mergeInto hr hinto, length_mergeLines _, fun i l hl => ?_⟩
  have hbecomes := becomes_mergeLine ts ((fileLines content).take i)
    (readLine_text_of_mem (List.mem_of_getElem? hl))
  refine ⟨_, by rw [getElem?_above, hl]; rfl, hbecomes, ?_, fun hc => ?_⟩
  · exact fun hsame hmark a ha => hbecomes.unassigned hsame hmark ha
  · exact mergeLine_eq_written (List.all_eq_true.mp hc) _ l

namespace Sample

/-- A note, two commands for a setting, and two for a disabled one, one of which has its mark. -/
def crowded : String := "; set a to 0\nset a to 1\nset a to 2\n  SETgs b 3 ; why\n;-setGS b 4\n"

/-- An edit more, with a line for it. -/
def widening : List Tweak := mixed ++ [give "SetGS" "c" 7]

def widened : String := crowded ++ "\tsetgs c 8 ; once\n"

end Sample

open Sample in
/-- The note stays, the first command is replaced, the second not, and only one gets a mark.  A
command of another kind is replaced too. -/
theorem render_becomes_crowded :
    readText (disk widened) file = .ok widened ∧
    ∃ above below, render widening (disk widened) file =
        .ok (Text.joinLines (above ++ below)) ∧
      above.length = 6 ∧
      above[0]? = some "; set a to 0" ∧
      above[1]? = some "set a to 5  ; by hand (set by MO2 via Wizard, was 1)" ∧
      above[2]? = some "set a to 2" ∧
      above[3]? = some ";-  SETgs b 3 ; why" ∧
      above[4]? = some ";-setGS b 4" ∧
      above[5]? = some "setGS c 7  ; by hand (set by MO2 via Wizard, was 8)" := by
  have hc : areCommands widening = true := by decide +kernel
  obtain ⟨above, below, -, hrender, hlength, hline⟩ :=
    render_becomes widening (readText_disk widened)
  have hat : ∀ i t, ((fileLines widened)[i]?.map fun l =>
      written widening l (treatment widening ((fileLines widened).take i) l)) = some t →
      above[i]? = some t := by
    intro i t h
    obtain ⟨l, hl, rfl⟩ := Option.map_eq_some_iff.mp h
    obtain ⟨t, ht, -, -, heq⟩ := hline i l hl
    rw [ht, heq hc]
  exact ⟨readText_disk widened, above, below, hrender, hlength.trans (by decide +kernel),
    hat 0 _ (by decide +kernel), hat 1 _ (by decide +kernel), hat 2 _ (by decide +kernel),
    hat 3 _ (by decide +kernel), hat 4 _ (by decide +kernel), hat 5 _ (by decide +kernel)⟩

end ModWizard.Tweak.Merge
