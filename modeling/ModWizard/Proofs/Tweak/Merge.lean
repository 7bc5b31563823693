import ModWizard.Proofs.Tweak.Index
import ModWizard.Proofs.Tweak.Reading

/-!
# The lines of a merge

What the lines that a merge writes are read as, which edits still wait after some lines of the file,
and that there is always a line to write below them.
-/

namespace ModWizard

/-- Whether a line is a command for a setting, disabled or not. -/
def Line.Assigns (l : Line) (key s : String) : Prop :=
  ∃ a ∈ l.assignment, a.keyword.key = key ∧ a.setting = s

instance (l : Line) (key s : String) : Decidable (l.Assigns key s) :=
  inferInstanceAs (Decidable (∃ a ∈ l.assignment, a.keyword.key = key ∧ a.setting = s))

/-- An edit that is read back from its line. -/
structure Edit.Legible (e : Edit) : Prop where
  setting : ∀ k ∈ Keyword.all, Text.lower e.sectionName = k.key → k.Names e.setting.toList
  value : Assignment.Plain e.value.toText.toList
  comment : ∀ c ∈ e.comment, Text.Unbroken c.toList

instance (e : Edit) : Decidable e.Legible :=
  decidable_of_iff
    ((∀ k ∈ Keyword.all, Text.lower e.sectionName = k.key → k.Names e.setting.toList) ∧
      Assignment.Plain e.value.toText.toList ∧ ∀ c ∈ e.comment, Text.Unbroken c.toList)
    ⟨fun ⟨hs, hv, hc⟩ => ⟨hs, hv, hc⟩, fun ⟨hs, hv, hc⟩ => ⟨hs, hv, hc⟩⟩

theorem Keyword.mem_all (k : Keyword) : k ∈ all := by
  cases k <;> decide

theorem Edit.Legible.names {e : Edit} (h : e.Legible) {k : Keyword}
    (hk : Text.lower e.sectionName = k.key) : k.Names e.setting.toList :=
  h.setting k k.mem_all hk

theorem Edit.Legible.unbroken_remark {e : Edit} (h : e.Legible) {c : String}
    (hc : e.remark = some c) : Text.Unbroken c.toList :=
  h.comment c (Option.filter_eq_some_iff.mp hc).1

namespace Tweak.Merge

/-! ### Lines that are written -/

theorem toList_blank : " ".toList = [' '] := by decide

theorem toList_mark : "  ; ".toList = [' ', ' ', ';', ' '] := by decide

theorem toList_marked (t : String) : (";-" ++ t).toList = ';' :: '-' :: t.toList := by
  rw [String.toList_append]
  rfl

/-- A command is a keyword, a setting and a value. -/
theorem command_eq (k : Keyword) (s v : String) :
    command k s v = k.spelling ++ " " ++ s ++ String.ofList k.gap ++ v := by
  have hblank : " " = String.ofList [' '] := by decide
  cases k with
  | set =>
    have hword : "set " = "set" ++ " " := by decide
    have hgap : " to " = String.ofList [' ', 't', 'o', ' '] := by decide
    show "set " ++ s ++ " to " ++ v = "set" ++ " " ++ s ++ String.ofList [' ', 't', 'o', ' '] ++ v
    rw [hword, hgap]
  | setGS =>
    have hword : "setGS " = "setGS" ++ " " := by decide
    show "setGS " ++ s ++ " " ++ v = "setGS" ++ " " ++ s ++ String.ofList [' '] ++ v
    rw [hword, ← hblank]
  | setNumericGameSetting =>
    have hword : "SetNumericGameSetting " = "SetNumericGameSetting" ++ " " := by decide
    show "SetNumericGameSetting " ++ s ++ " " ++ v =
      "SetNumericGameSetting" ++ " " ++ s ++ String.ofList [' '] ++ v
    rw [hword, ← hblank]

theorem toList_command (k : Keyword) (s v : String) :
    (command k s v).toList = k.spelling.toList ++ ' ' :: (s.toList ++ (k.gap ++ v.toList)) := by
  simp only [command_eq, String.toList_append, String.toList_ofList, toList_blank,
    List.append_assoc, List.cons_append, List.nil_append]

/-- What the line that takes the place of an assignment says behind the command. -/
def replacementNote (a : Assignment) (e : Edit) : String :=
  (match e.remark with
    | some c => c ++ " "
    | none => "") ++
  "(set by MO2 via Wizard, was " ++ a.value ++ ")"

/-- What a new line says behind the command. -/
def newLineNote (e : Edit) : String :=
  match e.remark with
  | some c => c ++ " (set by MO2 via Wizard)"
  | none => "(set by MO2 via Wizard)"

theorem replacement_eq (a : Assignment) (e : Edit) :
    replacement a e =
      command a.keyword a.setting e.value.toText ++ "  ; " ++ replacementNote a e := by
  unfold replacement replacementNote
  cases e.remark <;> simp only [String.append_assoc]

theorem toList_replacement (a : Assignment) (e : Edit) :
    (replacement a e).toList =
      (a.keyword.spelling.toList ++
          ' ' :: (a.setting.toList ++ (a.keyword.gap ++ e.value.toText.toList))) ++
        ' ' :: ' ' :: ';' :: ' ' :: (replacementNote a e).toList := by
  simp only [replacement_eq, String.toList_append, toList_command, toList_mark, List.append_assoc,
    List.cons_append, List.nil_append]

theorem toList_newLine {k : Keyword} {e : Edit} (hk : Text.lower e.sectionName = k.key) :
    (newLine e).toList =
      (e.sectionName.toList ++
          ' ' :: (e.setting.toList ++ (k.gap ++ e.value.toText.toList))) ++
        ' ' :: ' ' :: ';' :: ' ' :: (newLineNote e).toList := by
  have hgap : (if Text.lower e.sectionName = "set" then " to " else " ").toList = k.gap := by
    rw [hk]
    cases k <;> decide
  have h : newLine e = e.sectionName ++ " " ++ e.setting ++
      (if Text.lower e.sectionName = "set" then " to " else " ") ++ e.value.toText ++ "  ; " ++
      newLineNote e := rfl
  simp only [h, String.toList_append, hgap, toList_blank, toList_mark, List.append_assoc,
    List.cons_append, List.nil_append]

theorem getLast?_replacementNote (a : Assignment) (e : Edit) :
    (' ' :: (replacementNote a e).toList).getLast? = some ')' := by
  have hlast : ")".toList = [')'] := by decide
  simp only [replacementNote, String.toList_append, hlast, ← List.cons_append,
    List.getLast?_concat]

theorem getLast?_newLineNote (e : Edit) :
    (' ' :: (newLineNote e).toList).getLast? = some ')' := by
  unfold newLineNote
  cases e.remark with
  | none => decide
  | some c =>
    have hlast : " (set by MO2 via Wizard)".toList.getLast? = some ')' := by decide
    simp only [String.toList_append, ← List.cons_append, List.getLast?_append, hlast,
      Option.some_or]

/-- A note behind a command is not read, and stays. -/
theorem ofChars_append_note {cs note : List Char} (hcs : Assignment.Plain cs)
    (hlast : (' ' :: note).getLast? = some ')') :
    Line.ofChars (cs ++ ' ' :: ' ' :: ';' :: ' ' :: note) =
      ⟨String.ofList (cs ++ ' ' :: ' ' :: ';' :: ' ' :: note), false, Assignment.ofChars? cs⟩ := by
  have hblank : ∀ b ∈ [' ', ' '], Text.isBlank b = true := by simp [Text.isBlank_space]
  have hcomment := Line.ofChars_append_comment hcs hblank (' ' :: note)
  rw [Text.trimEnd_eq_self_of_getLast? hlast (by decide)] at hcomment
  simpa using hcomment

/-- The line in place of an assignment assigns the value of the edit. -/
theorem ofChars_replacement {a : Assignment} {e : Edit} (h : e.Legible)
    (hk : Text.lower e.sectionName = a.keyword.key) (hs : e.setting = a.setting) :
    Line.ofChars (replacement a e).toList =
      ⟨replacement a e, false, some ⟨a.keyword, a.setting, e.value.toText⟩⟩ := by
  have hnames := hs ▸ h.names hk
  have hspells := a.keyword.spells_spelling
  rw [toList_replacement, ofChars_append_note (hspells.plain_command hnames h.value)
    (getLast?_replacementNote a e), hspells.ofChars? hnames h.value.1, ← toList_replacement]
  simp only [String.ofList_toList]

/-- A new line assigns the value of its edit. -/
theorem ofChars_newLine {k : Keyword} {e : Edit} (h : e.Legible)
    (hk : Text.lower e.sectionName = k.key) :
    Line.ofChars (newLine e).toList =
      ⟨newLine e, false, some ⟨k, e.setting, e.value.toText⟩⟩ := by
  have hnames := h.names hk
  have hspells := Keyword.spells_of_lower_eq hk
  rw [toList_newLine hk, ofChars_append_note (hspells.plain_command hnames h.value)
    (getLast?_newLineNote e), hspells.ofChars? hnames h.value.1, ← toList_newLine hk]
  simp only [String.ofList_toList]

theorem unbroken_replacement {a : Assignment} {e : Edit} (h : e.Legible)
    (hk : Text.lower e.sectionName = a.keyword.key) (hs : e.setting = a.setting)
    (ha : Text.Unbroken a.value.toList) : Text.Unbroken (replacement a e).toList := by
  have hcommand := a.keyword.spells_spelling.plain_command (hs ▸ h.names hk) h.value
  have hmark : Text.Unbroken [' ', ' ', ';', ' '] := by decide
  have hwas : Text.Unbroken "(set by MO2 via Wizard, was ".toList := by decide
  have hend : Text.Unbroken ")".toList := by decide
  have hremark : Text.Unbroken (match e.remark with
      | some c => c ++ " "
      | none => "").toList := by
    cases hr : e.remark with
    | none => simp [Text.Unbroken]
    | some c =>
      rw [String.toList_append]
      exact (h.unbroken_remark hr).append (by decide)
  rw [toList_replacement, replacementNote, String.toList_append, String.toList_append,
    String.toList_append]
  exact hcommand.2.2.append (hmark.append (((hremark.append hwas).append ha).append hend))

theorem unbroken_newLine {k : Keyword} {e : Edit} (h : e.Legible)
    (hk : Text.lower e.sectionName = k.key) : Text.Unbroken (newLine e).toList := by
  have hcommand := (Keyword.spells_of_lower_eq hk).plain_command (h.names hk) h.value
  have hmark : Text.Unbroken [' ', ' ', ';', ' '] := by decide
  have hnote : Text.Unbroken (newLineNote e).toList := by
    unfold newLineNote
    cases hr : e.remark with
    | none => decide
    | some c =>
      rw [String.toList_append]
      exact (h.unbroken_remark hr).append (by decide)
  rw [toList_newLine hk]
  exact hcommand.2.2.append (hmark.append hnote)

/-! ### The edits that wait -/

variable {off : Index Unit} {waiting : Index Edit}

/-- What is written for a line of the file: its edit, the line with a mark, or the line. -/
theorem mergeLine_cases (off : Index Unit) (waiting : Index Edit) (l : Line) :
    (∃ a e, l.assignment = some a ∧ waiting.find? a.keyword.key a.setting = some e ∧
      (mergeLine off waiting l).1 = replacement a e) ∨
    (∃ a, l.assignment = some a ∧ waiting.find? a.keyword.key a.setting = none ∧
      l.disabled = false ∧ (off.find? a.keyword.key a.setting).isSome = true ∧
      (mergeLine off waiting l).1 = ";-" ++ l.text) ∨
    (∀ a, l.assignment = some a → waiting.find? a.keyword.key a.setting = none ∧
      (l.disabled = true ∨ off.find? a.keyword.key a.setting = none)) ∧
      (mergeLine off waiting l).1 = l.text := by
  unfold mergeLine
  cases ha : l.assignment with
  | none => exact .inr (.inr ⟨by simp, rfl⟩)
  | some a =>
    cases he : waiting.find? a.keyword.key a.setting with
    | some e => exact .inl ⟨a, e, rfl, he, by simp only [he]⟩
    | none =>
      right
      cases l.disabled <;> cases ho : off.find? a.keyword.key a.setting <;> simp [he, ho]

/-- An edit waits no longer after a line that assigns its setting. -/
theorem find?_mergeLine (l : Line) (key s : String) :
    (mergeLine off waiting l).2.find? key s =
      if l.Assigns key s then none else waiting.find? key s := by
  unfold mergeLine
  cases ha : l.assignment with
  | none => simp [Line.Assigns, ha]
  | some a =>
    have hassigns : l.Assigns key s ↔ a.keyword.key = key ∧ a.setting = s := by
      simp [Line.Assigns, ha]
    simp only [hassigns]
    split
    next e he => exact Index.find?_drop _ _ _ _ _
    next hnone =>
      rw [apply_ite Prod.snd, ite_self]
      split
      next h => rw [← h.1, ← h.2, hnone]
      next => rfl

theorem keys_mergeLine (l : Line) : (mergeLine off waiting l).2.keys = waiting.keys := by
  unfold mergeLine
  split
  · rfl
  · split
    · exact Index.keys_drop _ _ _
    · split <;> rfl

/-- The edits that wait after some lines are those that none of the lines assigns. -/
theorem find?_mergeLines (ls : List Line) (key s : String) :
    (mergeLines off waiting ls).2.find? key s =
      if ∃ l ∈ ls, l.Assigns key s then none else waiting.find? key s := by
  induction ls generalizing waiting with
  | nil => simp [mergeLines]
  | cons l ls ih =>
    rw [mergeLines, ih, find?_mergeLine]
    simp only [List.exists_mem_cons_iff]
    by_cases hl : l.Assigns key s
    · rw [if_pos hl, ite_self, if_pos (.inl hl)]
    · simp only [hl, if_false, false_or]

theorem keys_mergeLines (ls : List Line) : (mergeLines off waiting ls).2.keys = waiting.keys := by
  induction ls generalizing waiting with
  | nil => rfl
  | cons l ls ih => rw [mergeLines, ih, keys_mergeLine]

theorem length_mergeLines (ls : List Line) : (mergeLines off waiting ls).1.length = ls.length := by
  induction ls generalizing waiting with
  | nil => rfl
  | cons l ls ih => simp [mergeLines, ih]

/-! ### The lines below -/

/-- There is a line for every section, so long as there is one to repeat or none is needed. -/
theorem exists_remaining {last : Option String} {ts : List (Table String Edit)}
    (h : last.isSome = true ∨ ∀ t ∈ ts, t.values ≠ []) :
    ∃ below, remaining last ts = .ok below ∧ below.length = ts.length := by
  induction ts generalizing last with
  | nil => exact ⟨[], rfl, rfl⟩
  | cons t ts ih =>
    have hl : ((t.values.getLast?.map newLine).or last).isSome = true := by
      cases ht : t.values.getLast? with
      | some e => rfl
      | none =>
        have hne := List.getLast?_eq_none_iff.mp ht
        exact h.resolve_right fun hall => hall t List.mem_cons_self hne
    obtain ⟨l, hl⟩ := Option.isSome_iff_exists.mp hl
    obtain ⟨below, hbelow, hlength⟩ := @ih (some l) (.inl rfl)
    exact ⟨l :: below, by simp [remaining, hl, hbelow, Except.map], by simp [hlength]⟩

/-- The line of a section is that of one of its edits, or the line before. -/
theorem remaining_cons {last : Option String} {t : Table String Edit}
    {ts : List (Table String Edit)} {below : List String}
    (h : remaining last (t :: ts) = .ok below) :
    ∃ l rest, below = l :: rest ∧ remaining (some l) ts = .ok rest ∧
      ((∃ e ∈ t.values.getLast?, l = newLine e) ∨ t.values = [] ∧ last = some l) := by
  rw [remaining] at h
  split at h
  next => cases h
  next l hl =>
    obtain ⟨rest, hrest, rfl⟩ : ∃ rest, remaining (some l) ts = .ok rest ∧ l :: rest = below := by
      cases hr : remaining (some l) ts with
      | error f =>
        rw [hr] at h
        cases h
      | ok rest =>
        rw [hr] at h
        cases h
        exact ⟨rest, rfl, rfl⟩
    refine ⟨l, rest, rfl, hrest, ?_⟩
    obtain hl | ⟨hnone, hlast⟩ := Option.or_eq_some_iff.mp hl
    · obtain ⟨e, he, rfl⟩ := Option.map_eq_some_iff.mp hl
      exact .inl ⟨e, he, rfl⟩
    · exact .inr ⟨by simpa using hnone, hlast⟩

/-- Below there are new lines and repetitions of the line before. -/
theorem mem_remaining {last : Option String} {ts : List (Table String Edit)} {below : List String}
    (h : remaining last ts = .ok below) {l : String} (hl : l ∈ below) :
    last = some l ∨ ∃ e ∈ ts.flatMap Table.values, l = newLine e := by
  induction ts generalizing last below with
  | nil =>
    cases h
    cases hl
  | cons t ts ih =>
    obtain ⟨m, rest, rfl, hrest, hm⟩ := remaining_cons h
    have hmem : last = some m ∨ ∃ e ∈ (t :: ts).flatMap Table.values, m = newLine e := by
      obtain ⟨e, he, rfl⟩ | ⟨-, hlast⟩ := hm
      · exact .inr ⟨e, List.mem_flatMap.mpr ⟨t, List.mem_cons_self, List.mem_of_getLast? he⟩, rfl⟩
      · exact .inl hlast
    obtain rfl | hl := List.mem_cons.mp hl
    · exact hmem
    · obtain hlast | ⟨e, he, rfl⟩ := ih hrest hl
      · cases hlast
        exact hmem
      · exact .inr ⟨e, by simp [he], rfl⟩

/-! ### The whole merge -/

/-- The lines written for the lines of the file. -/
def above (ts : List Tweak) (ls : List Line) : List String :=
  (mergeLines (disabled ts) (edits ts) ls).1

/-- The edits for which there is no line in the file. -/
def left (ts : List Tweak) (ls : List Line) : Index Edit :=
  (mergeLines (disabled ts) (edits ts) ls).2

theorem mergeInto_eq (ts : List Tweak) (ls : List Line) :
    mergeInto ts ls =
      (remaining (above ts ls).getLast? (left ts ls).values).map (above ts ls ++ ·) :=
  rfl

theorem find?_left (ts : List Tweak) (ls : List Line) (key s : String) :
    (left ts ls).find? key s =
      if ∃ l ∈ ls, l.Assigns key s then none else (edits ts).find? key s :=
  find?_mergeLines ls key s

theorem length_values_left (ts : List Tweak) (ls : List Line) :
    (left ts ls).values.length = (edits ts).keys.length := by
  have hkeys : (left ts ls).keys = (edits ts).keys := keys_mergeLines ls
  rw [← hkeys, Table.keys, Table.values, List.length_map, List.length_map]

/-- A merge always comes to an end: if there is no line to repeat, no line has taken an edit from
its section. -/
theorem exists_mergeInto (ts : List Tweak) (ls : List Line) :
    ∃ below, remaining (above ts ls).getLast? (left ts ls).values = .ok below ∧
      below.length = (edits ts).keys.length ∧
      mergeInto ts ls = .ok (above ts ls ++ below) := by
  have hline : (above ts ls).getLast?.isSome = true ∨ ∀ t ∈ (left ts ls).values, t.values ≠ [] := by
    cases ls with
    | nil =>
      right
      rw [left, mergeLines, edits_eq_gather]
      exact fun t ht => ne_nil_of_mem_values_gather ht
    | cons l ls => simp [above, mergeLines]
  obtain ⟨below, hbelow, hlength⟩ := exists_remaining hline
  exact ⟨below, hbelow, hlength.trans (length_values_left ts ls),
    by rw [mergeInto_eq, hbelow, Except.map]⟩

theorem render_of_readText (ts : List Tweak) {disk : Disk} {file : Path} {content : String}
    (h : readText disk file = .ok content) :
    render ts disk file = (mergeInto ts (fileLines content)).map Text.joinLines := by
  rw [render, h, Except.bind]

theorem render_of_mergeInto {ts : List Tweak} {disk : Disk} {file : Path} {content : String}
    {lines : List String} (h : readText disk file = .ok content)
    (hinto : mergeInto ts (fileLines content) = .ok lines) :
    render ts disk file = .ok (Text.joinLines lines) := by
  rw [render_of_readText ts h, hinto, Except.map]

/-- A merge into a file that can be read gives a text. -/
theorem exists_render (ts : List Tweak) {disk : Disk} {file : Path} {content : String}
    (h : readText disk file = .ok content) :
    ∃ below, remaining (above ts (fileLines content)).getLast?
        (left ts (fileLines content)).values = .ok below ∧
      below.length = (edits ts).keys.length ∧
      render ts disk file = .ok (Text.joinLines (above ts (fileLines content) ++ below)) := by
  obtain ⟨below, hbelow, hlength, hinto⟩ := exists_mergeInto ts (fileLines content)
  exact ⟨below, hbelow, hlength, render_of_mergeInto h hinto⟩

theorem readText_of_read {disk : Disk} {file : Path} {content : String}
    (h : disk.read file = .ok content.toByteArray) : readText disk file = .ok content := by
  have hvalid : String.fromUTF8? content.toByteArray = some content :=
    dif_pos content.isValidUTF8
  simp only [readText, h, hvalid]

end Tweak.Merge

end ModWizard
