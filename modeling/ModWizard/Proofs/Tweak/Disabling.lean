import ModWizard.Proofs.Tweak.Treatment

/-!
# Disabling settings

Tweaks that only disable settings put a mark before some lines of the file and write nothing below.
A line with a mark is read as a disabled command or, if no word follows the mark, as a comment.
So the lines that were written are left as they are when the same tweaks are merged once more, and
no line gets a second mark.
-/

namespace ModWizard.Tweak.Merge

/-- Whether a line is a command, itself not disabled, for a setting that a list of tweaks
disables. -/
def Revoked (ts : List Tweak) (l : Line) : Prop :=
  l.disabled = false ∧
    ∃ a ∈ l.assignment, ((disabled ts).find? a.keyword.key a.setting).isSome = true

instance (ts : List Tweak) (l : Line) : Decidable (Revoked ts l) :=
  inferInstanceAs (Decidable (_ ∧ _))

/-- What is written for a line when nothing is edited. -/
def disabling (ts : List Tweak) (l : Line) : String :=
  if Revoked ts l then ";-" ++ l.text else l.text

variable {ts : List Tweak} {l : Line}

/-! ### The first merge -/

theorem mergeLine_empty (ts : List Tweak) (l : Line) :
    mergeLine (disabled ts) ∅ l = (disabling ts l, ∅) := by
  have hnone : ∀ key s, (∅ : Index Edit).find? key s = none := fun _ _ => rfl
  obtain ⟨text, inactive, assignment⟩ := l
  cases assignment with
  | none => simp [mergeLine, disabling, Revoked]
  | some a =>
    cases inactive <;> cases ho : (disabled ts).find? a.keyword.key a.setting <;>
      simp [mergeLine, disabling, Revoked, hnone, ho]

theorem mergeLines_empty (ts : List Tweak) (ls : List Line) :
    mergeLines (disabled ts) ∅ ls = (ls.map (disabling ts), ∅) := by
  induction ls with
  | nil => rfl
  | cons l ls ih => simp only [mergeLines, mergeLine_empty, ih, List.map_cons]

theorem edits_eq_empty (h : ∀ t ∈ ts, t.edit? = none) : edits ts = ∅ := by
  rw [edits, List.filterMap_eq_nil_iff.mpr h]
  rfl

theorem mergeInto_of_disabling (h : ∀ t ∈ ts, t.edit? = none) (ls : List Line) :
    mergeInto ts ls = .ok (ls.map (disabling ts)) := by
  rw [mergeInto, edits_eq_empty h, mergeLines_empty]
  exact congrArg Except.ok (List.append_nil _)

/-- A line that is written has no line end in it. -/
theorem unbroken_disabling {content : String} (ts : List Tweak) (hl : l ∈ fileLines content) :
    Text.Unbroken (disabling ts l).toList := by
  have hfiled : Filed (∅ : Index Edit) := fun _ _ _ he => by cases he
  have hline : Text.Unbroken (mergeLine (disabled ts) ∅ l).1.toList := unbroken_mergeLine hfiled hl
  rwa [mergeLine_empty] at hline

/-- A line with two marks had them before: a command that gets one begins with no semicolon. -/
theorem disabling_eq_text_of_isPrefix (hl : readLine l.text = l)
    (h : [';', '-', ';', '-'] <+: (disabling ts l).toList) : disabling ts l = l.text := by
  refine if_neg fun hrevoked => ?_
  rw [disabling, if_pos hrevoked] at h
  obtain ⟨hactive, a, ha, -⟩ := hrevoked
  obtain ⟨cs, hcs⟩ := h
  have htext : ';' :: '-' :: cs = l.text.toList := by simpa [toList_marked] using hcs
  exact head?_text_ne_semicolon hl hactive ha (by rw [← htext]; rfl)

/-! ### The second merge -/

theorem trimEnd_text (hl : readLine l.text = l) : Text.trimEnd l.text.toList = l.text.toList := by
  have htext := congrArg (·.text.toList) hl
  simpa [readLine, Line.ofChars] using htext

/-- A line with a mark is not marked again. -/
theorem disabling_mark (ts : List Tweak) {t : String} (ht : Text.trimEnd t.toList = t.toList) :
    disabling ts (readLine (";-" ++ t)) = ";-" ++ t := by
  have htrim : Text.trimEnd (";-" ++ t).toList = (";-" ++ t).toList := by
    rw [String.toList_append]
    exact Text.trimEnd_append_eq_self (by decide) ht
  have htext : (readLine (";-" ++ t)).text = ";-" ++ t := by
    rw [readLine, Line.ofChars, htrim, String.ofList_toList]
  have hnot : ¬ Revoked ts (readLine (";-" ++ t)) := by
    rintro ⟨hactive, a, ha, -⟩
    rw [readLine, toList_marked] at hactive ha
    obtain h | h := Line.disabled_or_assignment_eq_none ('-' :: t.toList)
    · exact absurd (hactive.symm.trans h) (by decide)
    · exact absurd (h.symm.trans ha) (by simp)
  rw [disabling, if_neg hnot, htext]

/-- What was written for a line is left as it is. -/
theorem disabling_readLine_disabling (hl : readLine l.text = l) :
    disabling ts (readLine (disabling ts l)) = disabling ts l := by
  by_cases h : Revoked ts l
  · have hmarked : disabling ts l = ";-" ++ l.text := if_pos h
    rw [hmarked]
    exact disabling_mark ts (trimEnd_text hl)
  · have hsame : disabling ts l = l.text := if_neg h
    rw [hsame, hl, hsame]

/-- The lines that were written are, once they are read again, written as they are.  Only an empty
line at the end is not read. -/
theorem map_disabling_saved (ts : List Tweak) {content saved : String}
    (h : Text.lines saved = Text.lines (Text.joinLines ((fileLines content).map (disabling ts)))) :
    (fileLines content).map (disabling ts) = (fileLines saved).map (disabling ts) ∨
      (fileLines content).map (disabling ts) = (fileLines saved).map (disabling ts) ++ [""] := by
  have hunbroken : ∀ t ∈ (fileLines content).map (disabling ts), Text.Unbroken t.toList := by
    intro t ht
    obtain ⟨l, hl, rfl⟩ := List.mem_map.mp ht
    exact unbroken_disabling ts hl
  obtain ⟨ms, hms, hlines⟩ := Text.exists_lines_joinLines hunbroken
  have hsubset : ms ⊆ (fileLines content).map (disabling ts) := by
    obtain hlines | hlines := hlines <;> simp [hlines]
  have hsaved : (fileLines saved).map (disabling ts) = ms := by
    rw [fileLines, h, hms, List.map_map, List.map_map]
    refine (List.map_congr_left fun t ht => ?_).trans (List.map_id ms)
    obtain ⟨l, hl, rfl⟩ := List.mem_map.mp (hsubset ht)
    exact disabling_readLine_disabling (readLine_text_of_mem hl)
  rw [hsaved]
  exact hlines

/-- Tweaks that only disable settings mark lines of a file that can be read, none of them twice.
Merged once more into a file with the lines of the result, whatever the line ends, they change
nothing except that an empty line at the end is lost. -/
theorem render_disabling_twice (h : ∀ t ∈ ts, t.edit? = none) {disk : Disk} {file : Path}
    {content : String} (hr : readText disk file = .ok content) :
    ∃ lines text, mergeInto ts (fileLines content) = .ok lines ∧
      render ts disk file = .ok text ∧ text = Text.joinLines lines ∧
      lines = (fileLines content).map (disabling ts) ∧
      (∀ t ∈ lines, [';', '-', ';', '-'] <+: t.toList → t ∈ (fileLines content).map Line.text) ∧
      ∀ (disk' : Disk) (file' : Path) (saved : String), readText disk' file' = .ok saved →
        Text.lines saved = Text.lines text →
        ∃ lines' text', mergeInto ts (fileLines saved) = .ok lines' ∧
          render ts disk' file' = .ok text' ∧ text' = Text.joinLines lines' ∧
          (lines = lines' ∨ lines = lines' ++ [""]) ∧ (text = text' ∨ text = text' ++ "\n") := by
  have hinto := mergeInto_of_disabling h
  refine ⟨_, _, hinto _, render_of_mergeInto hr (hinto _), rfl, rfl, ?_, ?_⟩
  · intro t ht hprefix
    obtain ⟨l, hl, rfl⟩ := List.mem_map.mp ht
    rw [disabling_eq_text_of_isPrefix (readLine_text_of_mem hl) hprefix]
    exact List.mem_map_of_mem hl
  · intro disk' file' saved hr' hsaved
    have hlines := map_disabling_saved ts hsaved
    exact ⟨_, _, hinto _, render_of_mergeInto hr' (hinto _), rfl, hlines,
      Text.joinLines_eq_or hlines⟩

namespace Sample

def forbidding : List Tweak := [.disable "set" "a", .disable "SetGS" "b"]

/-- Commands in several forms, some of them disabled, and an empty line at the end. -/
def scattered : String :=
  "  set a to 1 ; one\nSETGS b 2\n;-setGS b 3\n;- set a to 4\nset c to 5\n\n"

/-- The same after the merge. -/
def forbidden : String :=
  ";-  set a to 1 ; one\n;-SETGS b 2\n;-setGS b 3\n;- set a to 4\nset c to 5\n"

/-- The same with other line ends. -/
def resaved : String :=
  ";-  set a to 1 ; one\r\n;-SETGS b 2\r\n;-setGS b 3\r\n;- set a to 4\r\nset c to 5\r\n"

end Sample

open Sample in
/-- The first merge disables two lines, the second none. -/
theorem render_disabling_twice_scattered :
    (∀ t ∈ forbidding, t.edit? = none) ∧ readText (disk scattered) file = .ok scattered ∧
    render forbidding (disk scattered) file = .ok forbidden ∧
    Text.lines resaved = Text.lines forbidden ∧
    ∃ text', render forbidding (disk resaved) file = .ok text' ∧
      (forbidden = text' ∨ forbidden = text' ++ "\n") := by
  have h : ∀ t ∈ forbidding, t.edit? = none := by decide
  have htext : Text.joinLines ((fileLines scattered).map (disabling forbidding)) = forbidden := by
    decide +kernel
  have hlines : Text.lines resaved = Text.lines forbidden := by decide +kernel
  obtain ⟨lines, text, -, hrender, rfl, rfl, -, hagain⟩ :=
    render_disabling_twice h (readText_disk scattered)
  rw [htext] at hrender hagain
  obtain ⟨lines', text', -, hrender', -, -, hsame⟩ :=
    hagain (disk resaved) file resaved (readText_disk resaved) hlines
  exact ⟨h, readText_disk scattered, hrender, hlines, text', hrender', hsame⟩

end ModWizard.Tweak.Merge
