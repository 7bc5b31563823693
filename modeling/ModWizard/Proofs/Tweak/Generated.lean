import ModWizard.Proofs.Tweak.Effect

/-!
# Reading generated files

A generated file of console commands has one form of line for all keywords, with the word `to`
before the value.  Only after `set` does that word separate; after the other keywords it is read as
the beginning of the value.  So a generated line is understood exactly if its keyword is `set` and
its setting is not empty.
-/

namespace ModWizard

/-- An edit with a setting without blanks and comments, a value that can stand in a command, and a
comment of one line. -/
structure Edit.Simple (e : Edit) : Prop where
  word : e.setting.toList.all (fun c => !Text.isBlank c && c != ';') = true
  value : Assignment.Plain e.value.toText.toList
  comment : ∀ c ∈ e.comment, Text.Unbroken c.toList

instance (e : Edit) : Decidable e.Simple :=
  decidable_of_iff
    (e.setting.toList.all (fun c => !Text.isBlank c && c != ';') = true ∧
      Assignment.Plain e.value.toText.toList ∧ ∀ c ∈ e.comment, Text.Unbroken c.toList)
    ⟨fun ⟨hs, hv, hc⟩ => ⟨hs, hv, hc⟩, fun ⟨hs, hv, hc⟩ => ⟨hs, hv, hc⟩⟩

theorem Edit.Simple.letter {e : Edit} (h : e.Simple) :
    ∀ c ∈ e.setting.toList, Text.isBlank c = false ∧ c ≠ ';' := by
  simpa using List.all_eq_true.mp h.word

theorem Edit.Simple.names {e : Edit} (h : e.Simple) (hne : e.setting ≠ "") (k : Keyword) :
    k.Names e.setting.toList :=
  k.names_of_word (by simpa using hne) (fun c hc => (h.letter c hc).1)
    fun hc => (h.letter ';' hc).2 rfl

namespace Keyword

/-- What is read as the value where `to` and a value are written behind a setting. -/
def heard : Keyword → String → String
  | set, v => v
  | _, v => "to " ++ v

theorem toList_to_append (v : String) : ("to " ++ v).toList = 't' :: 'o' :: ' ' :: v.toList := by
  rw [String.toList_append]
  rfl

theorem gap_append_heard (k : Keyword) (v : String) :
    k.gap ++ (k.heard v).toList = ' ' :: 't' :: 'o' :: ' ' :: v.toList := by
  cases k <;> simp [gap, heard]

theorem heard_eq_self_iff {k : Keyword} {v : String} : k.heard v = v ↔ k = set := by
  have hto : "to " ++ v ≠ v := by
    intro h
    have hlength := congrArg (·.toList.length) h
    simp only [toList_to_append, List.length_cons] at hlength
    omega
  cases k with
  | set => exact iff_of_true rfl rfl
  | setGS => exact iff_of_false hto (by decide)
  | setNumericGameSetting => exact iff_of_false hto (by decide)

theorem plain_heard (k : Keyword) {v : String} (h : Assignment.Plain v.toList) :
    Assignment.Plain (k.heard v).toList := by
  have hto : Assignment.Plain ("to " ++ v).toList := by
    obtain ⟨⟨-, c, hc, hblank⟩, hsemicolon, hbroken⟩ := h
    have hword : Text.Unbroken ['t', 'o', ' '] := by decide
    rw [toList_to_append]
    refine ⟨⟨⟨'t', rfl, by decide⟩, c, ?_, hblank⟩, by simpa using hsemicolon, hword.append hbroken⟩
    have happend : 't' :: 'o' :: ' ' :: v.toList = ['t', 'o', ' '] ++ v.toList := rfl
    rw [happend, List.getLast?_append, hc]
    rfl
  cases k with
  | set => exact h
  | setGS => exact hto
  | setNumericGameSetting => exact hto

end Keyword

namespace Tweak.Command

open Merge

variable {e : Edit} {k : Keyword} {ts : List Tweak}

/-! ### One line -/

/-- The command of an edit, without the comment. -/
def body (e : Edit) : List Char :=
  e.sectionName.toList ++
    ' ' :: (e.setting.toList ++ ' ' :: 't' :: 'o' :: ' ' :: e.value.toText.toList)

theorem toList_line (e : Edit) :
    (line e).toList = body e ∨
      ∃ c ∈ e.comment, (line e).toList = body e ++ [' '] ++ ';' :: ' ' :: c.toList := by
  have hto : " to ".toList = [' ', 't', 'o', ' '] := by decide
  have hmark : " ; ".toList = [' ', ';', ' '] := by decide
  unfold line body
  cases hr : e.remark with
  | none => simp [hto, toList_blank]
  | some c =>
    right
    exact ⟨c, (Option.filter_eq_some_iff.mp hr).1, by simp [hto, hmark, toList_blank]⟩

theorem body_eq (k : Keyword) (e : Edit) :
    body e = e.sectionName.toList ++
      ' ' :: (e.setting.toList ++ (k.gap ++ (k.heard e.value.toText).toList)) := by
  rw [k.gap_append_heard]
  rfl

/-- What a generated line is read as. -/
theorem readLine_line (h : e.Simple) (hk : Text.lower e.sectionName = k.key)
    (hne : e.setting ≠ "") :
    (readLine (line e)).disabled = false ∧
      (readLine (line e)).assignment = some ⟨k, e.setting, k.heard e.value.toText⟩ := by
  have hspells := Keyword.spells_of_lower_eq hk
  have hv := k.plain_heard h.value
  have hplain : Assignment.Plain (body e) := by
    rw [body_eq k]
    exact hspells.plain_command (h.names hne k) hv
  have hread : Assignment.ofChars? (body e) = some ⟨k, e.setting, k.heard e.value.toText⟩ := by
    rw [body_eq k, hspells.ofChars? (h.names hne k) hv.1, String.ofList_toList,
      String.ofList_toList]
  rw [readLine]
  obtain hline | ⟨c, -, hline⟩ := toList_line e
  · rw [hline, Line.ofChars_of_plain hplain, hread]
    exact ⟨rfl, rfl⟩
  · rw [hline, Line.ofChars_append_comment hplain (by simp [Text.isBlank_space]), hread]
    exact ⟨rfl, rfl⟩

/-- Whether the line of an edit is read as a command with the keyword of its section, its setting
and its value. -/
def Understood (e : Edit) : Prop :=
  ∃ k ∈ Keyword.all, Text.lower e.sectionName = k.key ∧ (readLine (line e)).disabled = false ∧
    (readLine (line e)).assignment = some ⟨k, e.setting, e.value.toText⟩

instance (e : Edit) : Decidable (Understood e) :=
  inferInstanceAs (Decidable (∃ k ∈ Keyword.all, _))

theorem understood_iff (h : e.Simple) (hk : Text.lower e.sectionName = k.key) :
    Understood e ↔ k = .set ∧ e.setting ≠ "" := by
  constructor
  · rintro ⟨k', -, hk', -, hread⟩
    obtain rfl := Keyword.key_injective (hk'.symm.trans hk)
    have hne : e.setting ≠ "" := fun hempty =>
      (Line.setting_ne_nil hread).1 (by simp [hempty])
    rw [(readLine_line h hk hne).2] at hread
    have hvalue : k'.heard e.value.toText = e.value.toText := by simpa using hread
    exact ⟨Keyword.heard_eq_self_iff.mp hvalue, hne⟩
  · rintro ⟨rfl, hne⟩
    obtain ⟨hactive, hread⟩ := readLine_line h hk hne
    exact ⟨.set, by decide, hk, hactive, hread⟩

/-! ### The whole file -/

theorem unbroken_line (h : e.Simple) (hk : Text.lower e.sectionName = k.key) :
    Text.Unbroken (line e).toList := by
  have hsection : Text.Unbroken e.sectionName.toList := fun c hc =>
    ((Keyword.spells_of_lower_eq hk).letter hc).2.2
  have hsetting := Text.unbroken_of_not_blank fun c hc => (h.letter c hc).1
  have hblank : Text.Unbroken [' '] := by decide
  have hto : Text.Unbroken [' ', 't', 'o', ' '] := by decide
  have hbody : Text.Unbroken (body e) :=
    hsection.append (hblank.append (hsetting.append (hto.append h.value.2.2)))
  obtain hline | ⟨c, hc, hline⟩ := toList_line e
  · rwa [hline]
  · have hmark : Text.Unbroken [';', ' '] := by decide
    rw [hline]
    exact (hbody.append hblank).append (hmark.append (h.comment c hc))

theorem line_ne_empty (e : Edit) : line e ≠ "" := by
  intro hempty
  obtain hline | ⟨c, -, hline⟩ := toList_line e <;> simp [hempty, body] at hline

/-- The lines of a generated file are those that were written. -/
theorem fileLines_render (h : ∀ e ∈ ts.filterMap edit?, Text.Unbroken (line e).toList) :
    fileLines (render ts) = readLine header :: (editLines ts).map readLine := by
  have hline : ∀ t ∈ editLines ts, ∃ e ∈ ts.filterMap edit?, line e = t := by
    simp [editLines]
  have hunbroken : ∀ t ∈ header :: editLines ts, Text.Unbroken t.toList := by
    rw [List.forall_mem_cons]
    refine ⟨by decide, fun t ht => ?_⟩
    obtain ⟨e, he, rfl⟩ := hline t ht
    exact h e he
  have hlast : "" ∉ header :: editLines ts := by
    rw [List.mem_cons, not_or]
    refine ⟨by decide, fun ht => ?_⟩
    obtain ⟨e, -, hempty⟩ := hline "" ht
    exact line_ne_empty e hempty
  obtain ⟨ms, hms, hlines | hlines⟩ := Text.exists_lines_joinLines hunbroken
  · rw [fileLines, render, hms, ← hlines, List.map_map]
    rfl
  · exact absurd (by simp [hlines]) hlast

/-- What is read from a generated file: a header that is no command, and the lines of the edits in
some order.  Each is a command for the setting of its edit, with the value behind the word `to`,
which belongs to the value unless the keyword is `set`.  So the edit is understood exactly if the
keyword is `set` and the setting is not empty. -/
theorem render_understood_iff (hc : areCommands ts = true)
    (h : ∀ e ∈ ts.filterMap edit?, e.Simple) :
    ∃ lines, fileLines (render ts) = readLine header :: lines ∧
      (readLine header).assignment = none ∧
      lines.Perm ((ts.filterMap edit?).map fun e => readLine (line e)) ∧
      ∀ e ∈ ts.filterMap edit?, ∃ k : Keyword, Text.lower e.sectionName = k.key ∧
        (e.setting ≠ "" → (readLine (line e)).disabled = false ∧
          (readLine (line e)).assignment =
            some ⟨k, e.setting, if k = .set then e.value.toText else "to " ++ e.value.toText⟩) ∧
        (Understood e ↔ k = .set ∧ e.setting ≠ "") := by
  have hkeyword : ∀ e ∈ ts.filterMap edit?, ∃ k : Keyword, Text.lower e.sectionName = k.key := by
    intro e he
    obtain ⟨t, ht, hte⟩ := List.mem_filterMap.mp he
    obtain ⟨k, hk⟩ := exists_lower_eq_of_isCommand (List.all_eq_true.mp hc t ht)
    cases t with
    | disable => cases hte
    | edit =>
      cases hte
      exact ⟨k, hk⟩
  refine ⟨(editLines ts).map readLine, fileLines_render fun e he => ?_, by decide, ?_,
    fun e he => ?_⟩
  · obtain ⟨k, hk⟩ := hkeyword e he
    exact unbroken_line (h e he) hk
  · have hperm :=
      ((List.mergeSort_perm ((ts.filterMap edit?).map line) fun a b => a ≤ b).map readLine)
    rwa [List.map_map] at hperm
  · obtain ⟨k, hk⟩ := hkeyword e he
    refine ⟨k, hk, fun hne => ?_, understood_iff (h e he) hk⟩
    have hheard : k.heard e.value.toText =
        if k = .set then e.value.toText else "to " ++ e.value.toText := by
      cases k <;> rfl
    rw [← hheard]
    exact readLine_line (h e he) hk hne

namespace Sample

/-- Edits for two keywords, and a setting that is disabled. -/
def various : List Tweak :=
  [.edit ⟨"SetGS", "b", .int 6, none⟩, .disable "set" "c",
    .edit ⟨"Set", "a", .text "x to y", some "; odd"⟩]

end Sample

open Sample in
/-- The first edit is not understood, the other is. -/
theorem render_understood_various :
    areCommands various = true ∧ (∀ e ∈ various.filterMap edit?, e.Simple) ∧
    ¬ Understood ⟨"SetGS", "b", .int 6, none⟩ ∧
    Understood ⟨"Set", "a", .text "x to y", some "; odd"⟩ := by
  have hc : areCommands various = true := by decide +kernel
  have h : ∀ e ∈ various.filterMap edit?, e.Simple := by decide +kernel
  obtain ⟨lines, -, -, -, hedits⟩ := render_understood_iff hc h
  refine ⟨hc, h, ?_, ?_⟩
  · obtain ⟨k, hk, -, hiff⟩ := hedits ⟨"SetGS", "b", .int 6, none⟩ (by decide)
    rw [hiff]
    rintro ⟨rfl, -⟩
    exact absurd hk (by decide +kernel)
  · obtain ⟨k, hk, -, hiff⟩ := hedits ⟨"Set", "a", .text "x to y", some "; odd"⟩ (by decide)
    have hset : Text.lower "Set" = Keyword.set.key := by decide +kernel
    exact hiff.mpr ⟨Keyword.key_injective (hk.symm.trans hset), by decide⟩

/-- The value of a game setting is read with the word `to` before it, and a command without a
setting is not read as one. -/
theorem not_understood_generated :
    fileLines (render [.edit ⟨"setGS", "a", .int 5, none⟩]) =
      [⟨header, false, none⟩, ⟨"setGS a to 5", false, some ⟨.setGS, "a", "to 5"⟩⟩] ∧
    ¬ Understood ⟨"setGS", "a", .int 5, none⟩ ∧
    fileLines (render [.edit ⟨"set", "", .int 5, none⟩]) =
      [⟨header, false, none⟩, ⟨"set  to 5", false, none⟩] := by
  refine ⟨?_, ?_, ?_⟩ <;> decide +kernel

end Tweak.Command

end ModWizard
