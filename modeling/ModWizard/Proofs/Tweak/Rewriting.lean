import ModWizard.Proofs.Tweak.Treatment

/-!
# Rewriting a line again

An edit that is merged alone takes the place of the first command for its setting; the lines before
that command stay.  What is written there is read as a command for the same setting, with the value
of the edit.  So a second edit finds it in the same place, and notes that value as the former one.
-/

namespace ModWizard

/-- Whether an edit is for the setting that an assignment is for. -/
def Edit.Concerns (e : Edit) (a : Assignment) : Prop :=
  Text.lower e.sectionName = a.keyword.key ∧ e.setting = a.setting

instance (e : Edit) (a : Assignment) : Decidable (e.Concerns a) :=
  inferInstanceAs (Decidable (_ ∧ _))

namespace Tweak.Merge

variable {e : Edit} {a : Assignment} {l : Line} {ls : List Line} {i : Nat}

/-! ### One edit -/

theorem isCommand_of_concerns (h : e.Concerns a) : ∀ t ∈ [Tweak.edit e], t.isCommand = true := by
  intro t ht
  obtain rfl := List.mem_singleton.mp ht
  have hmatch : (a.keyword.key == Text.lower e.sectionName) = true := beq_iff_eq.mpr h.1.symm
  exact List.find?_isSome.mpr ⟨a.keyword, a.keyword.mem_all, hmatch⟩

theorem find?_edits_singleton (h : e.Concerns a) :
    (edits [.edit e]).find? a.keyword.key a.setting = some e := by
  have hadd : edits [.edit e] = (∅ : Index Edit).add e.sectionName e.setting e := rfl
  rw [hadd, Index.find?_add (by simp [Table.contains]), if_pos h.1, if_pos h.2]

/-- A line that is no command for the setting of the edit stays. -/
theorem mergeLine_of_not_assigns (earlier : List Line)
    (h : ¬ l.Assigns (Text.lower e.sectionName) e.setting) :
    (mergeLine (disabled [.edit e]) (left [.edit e] earlier) l).1 = l.text := by
  obtain ⟨a, e', ha, he, -⟩ | ⟨a, -, -, -, hoff, -⟩ | ⟨-, hline⟩ :=
    mergeLine_cases (disabled [.edit e]) (left [.edit e] earlier) l
  · rw [find?_left_assignment] at he
    split at he
    next =>
      obtain ⟨hlisted, hk, hs⟩ := mem_of_find?_edits he
      obtain rfl : e' = e := by simpa using hlisted
      exact absurd ⟨a, ha, hk.symm, hs.symm⟩ h
    next => cases he
  · cases hoff
  · exact hline

/-- The lines before the first command for the setting stay. -/
theorem take_above_singleton (h : e.Concerns a) (hfirst : Unassigned (ls.take i) a) :
    (above [.edit e] ls).take i = (ls.take i).map Line.text := by
  refine List.ext_getElem? fun j => ?_
  rw [List.getElem?_map, List.getElem?_take, List.getElem?_take]
  split
  next hj =>
    rw [getElem?_above]
    refine Option.map_congr fun l hl => mergeLine_of_not_assigns _ ?_
    rw [h.1, h.2]
    exact hfirst l (List.mem_of_getElem? ((List.getElem?_take_of_lt hj).trans hl))
  next => rfl

/-- The first command for the setting is replaced. -/
theorem getElem?_above_singleton (h : e.Concerns a) (hl : ls[i]? = some l)
    (ha : l.assignment = some a) (hfirst : Unassigned (ls.take i) a) :
    (above [.edit e] ls)[i]? = some (replacement a e) := by
  have hfind : (left [.edit e] (ls.take i)).find? a.keyword.key a.setting = some e := by
    rw [find?_left_assignment, if_pos hfirst, find?_edits_singleton h]
  rw [getElem?_above, hl, Option.map_some, mergeLine, ha]
  simp only [hfind]

/-! ### Reading the result -/

/-- An edit of a setting that a line assigns is legible if the setting is one word. -/
theorem legible_of_concerns (h : e.Concerns a) (hl : readLine l.text = l)
    (ha : l.assignment = some a) (hword : ∀ c ∈ a.setting.toList, Text.isBlank c = false)
    (hv : Assignment.Plain e.value.toText.toList) (hc : ∀ c ∈ e.comment, Text.Unbroken c.toList) :
    e.Legible := by
  obtain ⟨hne, hcomment⟩ := Line.setting_ne_nil (congrArg Line.assignment hl |>.trans ha)
  exact ⟨fun k _ _ => h.2 ▸ k.names_of_word hne hword hcomment, hv, hc⟩

/-- Up to a line that is not empty, the lines of a text are those that were joined. -/
theorem fileLines_of_lines_eq {ls : List String} (h : ∀ t ∈ ls, Text.Unbroken t.toList)
    {saved t : String} (hsaved : Text.lines saved = Text.lines (Text.joinLines ls))
    (ht : ls[i]? = some t) (hne : t ≠ "") :
    (fileLines saved)[i]? = some (readLine t) ∧
      (fileLines saved).take i = (ls.take i).map readLine := by
  obtain ⟨ms, hms, hlines⟩ := Text.exists_lines_joinLines h
  have hfile : fileLines saved = ms.map readLine := by
    rw [fileLines, hsaved, hms, List.map_map]
    rfl
  have hi : i < ms.length := by
    obtain ⟨hi, hget⟩ := List.getElem?_eq_some_iff.mp ht
    obtain rfl | rfl := hlines
    · exact hi
    · by_contra hlast
      rw [List.getElem_append_right (by omega), List.getElem_singleton] at hget
      exact hne hget.symm
  have hget : ms[i]? = some t ∧ ms.take i = ls.take i := by
    obtain rfl | rfl := hlines
    · exact ⟨ht, rfl⟩
    · exact ⟨(List.getElem?_append_left hi).symm.trans ht,
        (List.take_append_of_le_length hi.le).symm⟩
  rw [hfile, List.getElem?_map, hget.1, ← List.map_take, hget.2]
  exact ⟨rfl, rfl⟩

/-- The line that an edit has rewritten is read as a command for the same setting with the value of
the edit, and it is the first one in the text that was written. -/
theorem fileLines_rewritten {disk : Disk} {file : Path} {content : String}
    (hr : readText disk file = .ok content) (hl : (fileLines content)[i]? = some l)
    (ha : l.assignment = some a) (hfirst : Unassigned ((fileLines content).take i) a)
    (h : e.Concerns a) (hlegible : e.Legible) :
    ∃ lines, mergeInto [.edit e] (fileLines content) = .ok lines ∧
      render [.edit e] disk file = .ok (Text.joinLines lines) ∧
      lines[i]? = some (replacement a e) ∧
      ∀ saved, Text.lines saved = Text.lines (Text.joinLines lines) →
        (fileLines saved)[i]? =
            some ⟨replacement a e, false, some ⟨a.keyword, a.setting, e.value.toText⟩⟩ ∧
          (fileLines saved).take i = (fileLines content).take i := by
  have hc := isCommand_of_concerns h
  have hall : ∀ e' ∈ [Tweak.edit e].filterMap edit?, e'.Legible := by simpa [edit?] using hlegible
  obtain ⟨below, hbelow, -, hinto⟩ := exists_mergeInto [.edit e] (fileLines content)
  have hat := getElem?_above_singleton h hl ha hfirst
  have hlt : i < (above [.edit e] (fileLines content)).length :=
    (List.getElem?_eq_some_iff.mp hat).1
  have hline : (above [.edit e] (fileLines content) ++ below)[i]? = some (replacement a e) := by
    rw [List.getElem?_append_left hlt, hat]
  refine ⟨_, hinto, render_of_mergeInto hr hinto, hline, fun saved hsaved => ?_⟩
  have hne : replacement a e ≠ "" := by
    intro hempty
    have hnone : (Line.ofChars "".toList).assignment = none := by decide
    rw [← hempty, ofChars_replacement hlegible h.1 h.2] at hnone
    cases hnone
  obtain ⟨hget, htake⟩ := fileLines_of_lines_eq (fun t => unbroken_of_mem_merged hc hall hbelow)
    hsaved hline hne
  refine ⟨by rw [hget, readLine, ofChars_replacement hlegible h.1 h.2], ?_⟩
  rw [htake, List.take_append_of_le_length hlt.le, take_above_singleton h hfirst, List.map_map]
  refine (List.map_congr_left fun m hm => ?_).trans (List.map_id _)
  exact readLine_text_of_mem (List.mem_of_mem_take hm)

/-! ### Two edits -/

/-- A line that was rewritten can be rewritten again.  In a file that can be read, let a line be the
first command, disabled or not, for a setting of one word.  Merging an edit of that setting, whose
value can stand in a command, gives a text in which the line assigns that value to the same setting.
Merging a second edit into a file with the lines of that text, whatever the line ends, replaces the
same line once more, and the value of the first edit is noted as the former one. -/
theorem render_rewritten_twice {disk : Disk} {file : Path} {content : String} {e₁ e₂ : Edit}
    (hr : readText disk file = .ok content) (hl : (fileLines content)[i]? = some l)
    (ha : l.assignment = some a) (hfirst : Unassigned ((fileLines content).take i) a)
    (hword : ∀ c ∈ a.setting.toList, Text.isBlank c = false)
    (h₁ : e₁.Concerns a) (h₂ : e₂.Concerns a) (hv : Assignment.Plain e₁.value.toText.toList)
    (hc : ∀ c ∈ e₁.comment, Text.Unbroken c.toList) :
    ∃ lines text, mergeInto [.edit e₁] (fileLines content) = .ok lines ∧
      render [.edit e₁] disk file = .ok text ∧ text = Text.joinLines lines ∧
      lines[i]? = some (replacement a e₁) ∧
      (fileLines text)[i]? =
        some ⟨replacement a e₁, false, some ⟨a.keyword, a.setting, e₁.value.toText⟩⟩ ∧
      ∀ (disk' : Disk) (file' : Path) (saved : String), readText disk' file' = .ok saved →
        Text.lines saved = Text.lines text →
        ∃ lines', mergeInto [.edit e₂] (fileLines saved) = .ok lines' ∧
          render [.edit e₂] disk' file' = .ok (Text.joinLines lines') ∧
          lines'[i]? = some (command a.keyword a.setting e₂.value.toText ++ "  ; " ++
            (match e₂.remark with
              | some c => c ++ " "
              | none => "") ++
            "(set by MO2 via Wizard, was " ++ e₁.value.toText ++ ")") := by
  have hlegible := legible_of_concerns h₁ (readLine_text_of_mem (List.mem_of_getElem? hl)) ha hword
    hv hc
  obtain ⟨lines, hinto, hrender, hline, hread⟩ := fileLines_rewritten hr hl ha hfirst h₁ hlegible
  refine ⟨lines, _, hinto, hrender, rfl, hline, (hread _ rfl).1,
    fun disk' file' saved hr' hsaved => ?_⟩
  obtain ⟨hl', htake⟩ := hread saved hsaved
  -- the second edit meets the same lines before, and the first edit in the place of the former
  -- value
  obtain ⟨below', -, -, hinto'⟩ := exists_mergeInto [.edit e₂] (fileLines saved)
  have hat : (above [.edit e₂] (fileLines saved))[i]? =
      some (replacement ⟨a.keyword, a.setting, e₁.value.toText⟩ e₂) :=
    getElem?_above_singleton (a := ⟨a.keyword, a.setting, e₁.value.toText⟩) h₂ hl' rfl
      (by rw [htake]; exact hfirst)
  refine ⟨_, hinto', render_of_mergeInto hr' hinto', ?_⟩
  rw [List.getElem?_append_left (List.getElem?_eq_some_iff.mp hat).1, hat]
  rfl

namespace Sample

/-- A disabled command, the second for its keyword, the first for its setting. -/
def asleep : String := "SetGS y 1\n;-SETGS x  none ; off\nsetgs x 3\n"

/-- A value of several words, with the word that separates another command. -/
def worded : Edit := ⟨"SetGS", "x", .text "set y to 4", some "new"⟩

def numbered : Edit := ⟨"setgs", "x", .int (-7), none⟩

end Sample

open Sample in
/-- A disabled line is rewritten, and its new value is noted by the next edit. -/
theorem render_rewritten_twice_asleep :
    (∀ c ∈ "x".toList, Text.isBlank c = false) ∧
    Assignment.Plain worded.value.toText.toList ∧
    ∃ lines text, render [.edit worded] (disk asleep) file = .ok text ∧
      text = Text.joinLines lines ∧
      lines[1]? = some "setGS x set y to 4  ; new (set by MO2 via Wizard, was none)" ∧
      ∃ lines', render [.edit numbered] (disk text) file = .ok (Text.joinLines lines') ∧
        lines'[1]? = some "setGS x -7  ; (set by MO2 via Wizard, was set y to 4)" := by
  have hl : (fileLines asleep)[1]? =
      some ⟨";-SETGS x  none ; off", true, some ⟨.setGS, "x", "none"⟩⟩ := by decide +kernel
  have hword : ∀ c ∈ "x".toList, Text.isBlank c = false := by simp; decide
  have h₁ : worded.Concerns ⟨.setGS, "x", "none"⟩ := by decide +kernel
  have h₂ : numbered.Concerns ⟨.setGS, "x", "none"⟩ := by decide +kernel
  have hv : Assignment.Plain worded.value.toText.toList := by decide
  obtain ⟨lines, text, -, hrender, hjoin, hline, -, hagain⟩ :=
    render_rewritten_twice (readText_disk asleep) hl rfl (by decide +kernel) hword h₁ h₂ hv
      (by decide)
  obtain ⟨lines', -, hrender', hline'⟩ := hagain (disk text) file text (readText_disk text) rfl
  refine ⟨hword, hv, lines, text, hrender, hjoin, hline.trans ?_, lines', hrender',
    hline'.trans ?_⟩ <;>
    decide +kernel

end Tweak.Merge

end ModWizard
