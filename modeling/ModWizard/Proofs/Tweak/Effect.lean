import ModWizard.Proofs.Tweak.Merge
import ModWizard.Tweak.File

/-!
# The effect of a merge

The value that a setting has after a file of console commands is that of the last command for it
that is not disabled.  A merge gives a setting the value of its last edit, unless the edit is lost
when its section begins anew, or a later line of the file assigns the setting again: only the first
line that assigns it is replaced.
-/

namespace ModWizard

/-- The value that a line gives a setting. -/
def Line.value? (l : Line) (k : Keyword) (s : String) : Option String :=
  if l.disabled then none
  else l.assignment.bind fun a => if a.keyword = k ∧ a.setting = s then some a.value else none

theorem Line.value?_eq_none {l : Line} {k : Keyword} {s : String} (h : ¬ l.Assigns k.key s) :
    l.value? k s = none := by
  unfold value?
  split
  · rfl
  · cases ha : l.assignment with
    | none => rfl
    | some a =>
      have hne : ¬ (a.keyword = k ∧ a.setting = s) := fun he => h ⟨a, ha, by rw [he.1], he.2⟩
      rw [Option.bind_some, if_neg hne]

namespace Tweak.Merge

/-- The value that a setting has after some lines: the last that one of them gives it. -/
def effective (k : Keyword) (s : String) : List Line → Option String
  | [] => none
  | l :: ls => (effective k s ls).or (l.value? k s)

/-- The lines after the first that assigns a setting. -/
def afterFirst (k : Keyword) (s : String) (ls : List Line) : List Line :=
  (ls.dropWhile fun l => !decide (l.Assigns k.key s)).tail

theorem effective_append (k : Keyword) (s : String) (ls ms : List Line) :
    effective k s (ls ++ ms) = (effective k s ms).or (effective k s ls) := by
  induction ls with
  | nil => simp [effective]
  | cons l ls ih => rw [List.cons_append, effective, ih, effective, Option.or_assoc]

theorem effective_concat (k : Keyword) (s : String) (ls : List Line) (l : Line) :
    effective k s (ls ++ [l]) = (l.value? k s).or (effective k s ls) := by
  rw [effective_append]
  simp [effective]

theorem effective_eq_none_iff {k : Keyword} {s : String} {ls : List Line} :
    effective k s ls = none ↔ ∀ l ∈ ls, l.value? k s = none := by
  induction ls with
  | nil => simp [effective]
  | cons l ls ih => rw [effective, Option.or_eq_none_iff, ih, List.forall_mem_cons, and_comm]

/-- The line that a text is read as. -/
def readLine (t : String) : Line := Line.ofChars t.toList

/-- Written lines have the same effect when they are read from their text. -/
theorem effective_fileLines_joinLines {k : Keyword} {s : String} {ts : List String}
    (h : ∀ t ∈ ts, Text.Unbroken t.toList) :
    effective k s (fileLines (Text.joinLines ts)) = effective k s (ts.map readLine) := by
  have hmap : ts.map readLine = (ts.map String.toList).map Line.ofChars := by
    rw [List.map_map]
    rfl
  rw [fileLines, Text.lines_joinLines h, hmap, Text.dropEmptyLast]
  split
  next hlast =>
    -- the last line is empty and gives nothing
    obtain ⟨ps, hps⟩ := List.getLast?_eq_some_iff.mp hlast
    have hnone : (Line.ofChars []).value? k s = none := by
      have : (Line.ofChars []).assignment = none := by decide
      simp [Line.value?, this]
    rw [hps, List.dropLast_concat, List.map_append, List.map_singleton, effective_concat, hnone,
      Option.none_or]
  next => rfl

/-! ### Lines of the file -/

variable {off : Index Unit} {waiting : Index Edit} {k : Keyword} {s : String}

/-- Edits that are legible and kept under their own sections and settings. -/
def Filed (waiting : Index Edit) : Prop :=
  ∀ key s e, waiting.find? key s = some e →
    e.Legible ∧ Text.lower e.sectionName = key ∧ e.setting = s

theorem Filed.mergeLine (h : Filed waiting) (l : Line) : Filed (mergeLine off waiting l).2 := by
  intro key s e he
  rw [find?_mergeLine] at he
  split at he
  · cases he
  · exact h key s e he

theorem value?_readLine_mark (t : String) : (readLine (";-" ++ t)).value? k s = none := by
  rw [readLine, toList_marked]
  obtain h | h := Line.disabled_or_assignment_eq_none ('-' :: t.toList)
  · simp [Line.value?, h]
  · simp [Line.value?, h]

theorem value?_readLine_replacement {a : Assignment} {e : Edit} (h : e.Legible)
    (hk : Text.lower e.sectionName = a.keyword.key) (hs : e.setting = a.setting) :
    (readLine (replacement a e)).value? k s =
      if a.keyword = k ∧ a.setting = s then some e.value.toText else none := by
  simp [readLine, ofChars_replacement h hk hs, Line.value?]

/-- A line that does not assign a setting gives it nothing after the merge. -/
theorem value?_mergeLine_of_not_assigns (h : Filed waiting) {l : Line} (hl : readLine l.text = l)
    (hnot : ¬ l.Assigns k.key s) : (readLine (mergeLine off waiting l).1).value? k s = none := by
  obtain ⟨a, e, ha, he, hline⟩ | ⟨a, ha, -, -, -, hline⟩ | ⟨-, hline⟩ :=
    mergeLine_cases off waiting l
  · obtain ⟨hlegible, hk, hs⟩ := h _ _ e he
    rw [hline, value?_readLine_replacement hlegible hk hs]
    exact if_neg fun hks => hnot ⟨a, ha, by rw [hks.1], hks.2⟩
  · rw [hline, value?_readLine_mark]
  · rw [hline, hl, Line.value?_eq_none hnot]

/-- The first line that assigns a setting gives it the value of the edit that waits. -/
theorem value?_mergeLine_of_some (h : Filed waiting) {l : Line} {e : Edit}
    (he : waiting.find? k.key s = some e) (hassigns : l.Assigns k.key s) :
    (readLine (mergeLine off waiting l).1).value? k s = some e.value.toText := by
  obtain ⟨a, ha, hkey, rfl⟩ := hassigns
  obtain rfl := Keyword.key_injective hkey
  obtain ⟨a', e', ha', he', hline⟩ | ⟨a', ha', hnone, -⟩ | ⟨hnone, -⟩ :=
    mergeLine_cases off waiting l
  · obtain rfl : a' = a := Option.some.inj (ha'.symm.trans ha)
    obtain rfl : e' = e := Option.some.inj (he'.symm.trans he)
    obtain ⟨hlegible, hk, hs⟩ := h _ _ e' he
    rw [hline, value?_readLine_replacement hlegible hk hs, if_pos ⟨rfl, rfl⟩]
  · obtain rfl : a' = a := Option.some.inj (ha'.symm.trans ha)
    rw [he] at hnone
    cases hnone
  · rw [(hnone a ha).1] at he
    cases he

/-- Where no edit waits, a line gives what it gave, or nothing if the setting is disabled. -/
theorem value?_mergeLine_of_none (h : Filed waiting) {l : Line} (hl : readLine l.text = l)
    (hnone : waiting.find? k.key s = none) :
    (readLine (mergeLine off waiting l).1).value? k s =
      if (off.find? k.key s).isSome then none else l.value? k s := by
  by_cases hassigns : l.Assigns k.key s
  · obtain ⟨a, ha, hkey, rfl⟩ := hassigns
    obtain rfl := Keyword.key_injective hkey
    obtain ⟨a', e, ha', he, -⟩ | ⟨a', ha', -, -, hoff, hline⟩ | ⟨hrest, hline⟩ :=
      mergeLine_cases off waiting l
    · obtain rfl : a' = a := Option.some.inj (ha'.symm.trans ha)
      rw [hnone] at he
      cases he
    · obtain rfl : a' = a := Option.some.inj (ha'.symm.trans ha)
      rw [hline, value?_readLine_mark, if_pos hoff]
    · rw [hline, hl]
      obtain hdisabled | hoff := (hrest a ha).2
      · simp [Line.value?, hdisabled]
      · simp [hoff]
  · rw [value?_mergeLine_of_not_assigns h hl hassigns, Line.value?_eq_none hassigns, ite_self]

/-- Where no edit waits, a setting keeps its value, or loses it if it is disabled. -/
theorem effective_mergeLines_of_none (h : Filed waiting) {ls : List Line}
    (hls : ∀ l ∈ ls, readLine l.text = l) (hnone : waiting.find? k.key s = none) :
    effective k s ((mergeLines off waiting ls).1.map readLine) =
      if (off.find? k.key s).isSome then none else effective k s ls := by
  induction ls generalizing waiting with
  | nil => simp [mergeLines, effective]
  | cons l ls ih =>
    rw [List.forall_mem_cons] at hls
    have hnone' : (mergeLine off waiting l).2.find? k.key s = none := by
      rw [find?_mergeLine, hnone, ite_self]
    simp only [mergeLines, List.map_cons, effective]
    rw [ih (h.mergeLine l) hls.2 hnone', value?_mergeLine_of_none h hls.1 hnone]
    split <;> rfl

/-- Where an edit waits, the first line that assigns its setting gives it the value of the edit,
and the lines after it give what they gave. -/
theorem effective_mergeLines_of_some (h : Filed waiting) {ls : List Line}
    (hls : ∀ l ∈ ls, readLine l.text = l) {e : Edit} (he : waiting.find? k.key s = some e)
    (hassigns : ∃ l ∈ ls, l.Assigns k.key s) :
    effective k s ((mergeLines off waiting ls).1.map readLine) =
      (if (off.find? k.key s).isSome then none else effective k s (afterFirst k s ls)).or
        (some e.value.toText) := by
  induction ls generalizing waiting with
  | nil => simp at hassigns
  | cons l ls ih =>
    rw [List.forall_mem_cons] at hls
    simp only [mergeLines, List.map_cons, effective]
    by_cases hl : l.Assigns k.key s
    · have hnone : (mergeLine off waiting l).2.find? k.key s = none := by
        rw [find?_mergeLine, if_pos hl]
      have hafter : afterFirst k s (l :: ls) = ls := by simp [afterFirst, hl]
      rw [effective_mergeLines_of_none (h.mergeLine l) hls.2 hnone,
        value?_mergeLine_of_some h he hl, hafter]
    · have he' : (mergeLine off waiting l).2.find? k.key s = some e := by
        rw [find?_mergeLine, if_neg hl, he]
      have hafter : afterFirst k s (l :: ls) = afterFirst k s ls := by simp [afterFirst, hl]
      have hrest : ∃ l ∈ ls, l.Assigns k.key s := by simpa [hl] using hassigns
      rw [ih (h.mergeLine l) hls.2 he' hrest, value?_mergeLine_of_not_assigns h hls.1 hl,
        Option.or_none, hafter]

/-! ### Lines below -/

/-- The lines below change nothing for a setting that no edit among them is about. -/
theorem effective_remaining {above : List String} {ts : List (Table String Edit)}
    {below : List String} (h : remaining above.getLast? ts = .ok below)
    (hnew : ∀ e ∈ ts.flatMap Table.values, (readLine (newLine e)).value? k s = none) :
    effective k s ((above ++ below).map readLine) = effective k s (above.map readLine) := by
  induction ts generalizing above below with
  | nil =>
    cases h
    rw [List.append_nil]
  | cons t ts ih =>
    obtain ⟨l, rest, rfl, hrest, hl⟩ := remaining_cons h
    rw [List.flatMap_cons, List.forall_mem_append] at hnew
    have hcons : above ++ l :: rest = above ++ [l] ++ rest := by simp
    rw [hcons, ih (by rwa [List.getLast?_concat]) hnew.2, List.map_append, List.map_singleton,
      effective_concat]
    obtain ⟨e, he, rfl⟩ | ⟨-, hlast⟩ := hl
    · rw [hnew.1 e (List.mem_of_getLast? he), Option.none_or]
    · -- the line before is there once more
      obtain ⟨ls, rfl⟩ := List.getLast?_eq_some_iff.mp hlast
      rw [List.map_append, List.map_singleton, effective_concat, ← Option.or_assoc, Option.or_self]

/-! ### The whole text -/

variable {ts : List Tweak} {content : String}

theorem readLine_text_of_mem {l : Line} (h : l ∈ fileLines content) : readLine l.text = l := by
  obtain ⟨cs, -, rfl⟩ := List.mem_map.mp h
  exact Line.ofChars_toList_text cs

theorem filed_edits (hc : ∀ t ∈ ts, t.isCommand = true)
    (hl : ∀ e ∈ ts.filterMap edit?, e.Legible) : Filed (edits ts) := by
  intro key s e he
  obtain ⟨hmem, hkey, hs, -⟩ := of_find?_edits hc he
  exact ⟨hl e hmem, hkey, hs⟩

/-- A line written for a line of the file has no line end in it. -/
theorem unbroken_mergeLine (h : Filed waiting) {l : Line} (hl : l ∈ fileLines content) :
    Text.Unbroken (mergeLine off waiting l).1.toList := by
  obtain ⟨cs, hcs, rfl⟩ := List.mem_map.mp hl
  have hcs := Text.unbroken_of_mem_lines hcs
  have htext := hcs.subset (Line.text_subset cs)
  obtain ⟨a, e, ha, he, hline⟩ | ⟨a, ha, -, -, -, hline⟩ | ⟨-, hline⟩ :=
    mergeLine_cases off waiting (Line.ofChars cs)
  · obtain ⟨hlegible, hk, hs⟩ := h _ _ e he
    rw [hline]
    exact unbroken_replacement hlegible hk hs (hcs.subset (Line.value_subset ha))
  · rw [hline, String.toList_append]
    have hmark : Text.Unbroken ";-".toList := by decide
    exact hmark.append htext
  · rw [hline]
    exact htext

theorem unbroken_of_mem_mergeLines (h : Filed waiting) {ls : List Line}
    (hls : ls ⊆ fileLines content) {t : String} (ht : t ∈ (mergeLines off waiting ls).1) :
    Text.Unbroken t.toList := by
  induction ls generalizing waiting with
  | nil => cases ht
  | cons l ls ih =>
    rw [List.cons_subset] at hls
    rw [mergeLines] at ht
    obtain rfl | ht := List.mem_cons.mp ht
    · exact unbroken_mergeLine h hls.1
    · exact ih (h.mergeLine l) hls.2 ht

/-- The edits that are left at the end of the file are legible, and are found there. -/
theorem of_mem_items_left (hc : ∀ t ∈ ts, t.isCommand = true)
    (hl : ∀ e ∈ ts.filterMap edit?, e.Legible) {ls : List Line} {e : Edit}
    (he : e ∈ (left ts ls).items) :
    ∃ k : Keyword, e.Legible ∧ Text.lower e.sectionName = k.key ∧
      (left ts ls).find? k.key e.setting = some e := by
  obtain ⟨key, s, he⟩ := Index.mem_items_iff.mp he
  have he' := he
  rw [find?_left] at he'
  split at he'
  · cases he'
  · obtain ⟨hmem, hkey, rfl, k, rfl⟩ := of_find?_edits hc he'
    exact ⟨k, hl e hmem, hkey, he⟩

/-- No line that a merge writes has a line end in it. -/
theorem unbroken_of_mem_merged (hc : ∀ t ∈ ts, t.isCommand = true)
    (hl : ∀ e ∈ ts.filterMap edit?, e.Legible) {below : List String}
    (hb : remaining (above ts (fileLines content)).getLast?
      (left ts (fileLines content)).values = .ok below) {t : String}
    (ht : t ∈ above ts (fileLines content) ++ below) : Text.Unbroken t.toList := by
  have habove : ∀ t ∈ above ts (fileLines content), Text.Unbroken t.toList := fun t ht =>
    unbroken_of_mem_mergeLines (filed_edits hc hl) (List.Subset.refl _) ht
  obtain ht | ht := List.mem_append.mp ht
  · exact habove t ht
  · obtain hlast | ⟨e, he, rfl⟩ := mem_remaining hb ht
    · exact habove t (List.mem_of_getLast? hlast)
    · obtain ⟨k, hlegible, hk, -⟩ := of_mem_items_left hc hl he
      exact unbroken_newLine hlegible hk

/-- A setting whose edit does not wait at the end of the file has the value that the lines above
give it. -/
theorem effective_merged (hc : ∀ t ∈ ts, t.isCommand = true)
    (hl : ∀ e ∈ ts.filterMap edit?, e.Legible) {below : List String}
    (hb : remaining (above ts (fileLines content)).getLast?
      (left ts (fileLines content)).values = .ok below)
    (hnone : (left ts (fileLines content)).find? k.key s = none) :
    effective k s (fileLines (Text.joinLines (above ts (fileLines content) ++ below))) =
      effective k s ((above ts (fileLines content)).map readLine) := by
  have hnew : ∀ e ∈ (left ts (fileLines content)).values.flatMap Table.values,
      (readLine (newLine e)).value? k s = none := by
    intro e he
    obtain ⟨k', hlegible, hk', hfind⟩ := of_mem_items_left hc hl he
    rw [readLine, ofChars_newLine hlegible hk']
    simp only [Line.value?, Bool.false_eq_true, if_false, Option.bind_some, ite_eq_right_iff]
    rintro ⟨rfl, rfl⟩
    rw [hnone] at hfind
    cases hfind
  rw [effective_fileLines_joinLines fun _ => unbroken_of_mem_merged hc hl hb,
    effective_remaining hb hnew]

/-- Whether a setting is disabled by a list of tweaks: one disables it, and none after that begins
its section anew. -/
def Disables (ts : List Tweak) (k : Keyword) (s : String) : Prop :=
  (last? (disabledEntries ts) k s).isSome = true ∧ Kept (disabledEntries ts) k s

instance (ts : List Tweak) (k : Keyword) (s : String) : Decidable (Disables ts k s) :=
  inferInstanceAs (Decidable (_ ∧ _))

theorem isSome_find?_disabled_iff (hc : ∀ t ∈ ts, t.isCommand = true) :
    ((disabled ts).find? k.key s).isSome = true ↔ Disables ts k s := by
  rw [disabled_eq_gather, find?_gather (ofKeywords_disabledEntries hc), Disables]
  split <;> simp_all

/-- Where no edit is found, a setting keeps its value, or loses it if it is disabled. -/
theorem effective_merged_of_none (hc : ∀ t ∈ ts, t.isCommand = true)
    (hl : ∀ e ∈ ts.filterMap edit?, e.Legible) {below : List String}
    (hb : remaining (above ts (fileLines content)).getLast?
      (left ts (fileLines content)).values = .ok below)
    (hnone : (edits ts).find? k.key s = none) :
    effective k s (fileLines (Text.joinLines (above ts (fileLines content) ++ below))) =
      if Disables ts k s then none else effective k s (fileLines content) := by
  have hleft : (left ts (fileLines content)).find? k.key s = none := by
    rw [find?_left, hnone, ite_self]
  rw [effective_merged hc hl hb hleft, above,
    effective_mergeLines_of_none (filed_edits hc hl) (fun _ => readLine_text_of_mem) hnone]
  simp only [isSome_find?_disabled_iff hc]

/-- Where an edit is found and a line of the file assigns its setting, the setting has the value
of the edit, or the one that the lines after the first such line give it. -/
theorem effective_merged_of_some (hc : ∀ t ∈ ts, t.isCommand = true)
    (hl : ∀ e ∈ ts.filterMap edit?, e.Legible) {below : List String}
    (hb : remaining (above ts (fileLines content)).getLast?
      (left ts (fileLines content)).values = .ok below)
    {e : Edit} (he : (edits ts).find? k.key s = some e)
    (hassigns : ∃ l ∈ fileLines content, l.Assigns k.key s) :
    effective k s (fileLines (Text.joinLines (above ts (fileLines content) ++ below))) =
      (if Disables ts k s then none else
        effective k s (afterFirst k s (fileLines content))).or (some e.value.toText) := by
  have hleft : (left ts (fileLines content)).find? k.key s = none := by
    rw [find?_left, if_pos hassigns]
  rw [effective_merged hc hl hb hleft, above, effective_mergeLines_of_some (filed_edits hc hl)
    (fun _ => readLine_text_of_mem) he hassigns]
  simp only [isSome_find?_disabled_iff hc]

/-- What a merge into a file that can be read gives a setting.  If the last edit of the setting is
kept, its value takes effect exactly if no later line gives the setting another, which a tweak that
disables the setting prevents; otherwise only if the setting has that value already.  A setting that
is disabled and not edited has no value exactly if that tweak is kept or the setting had none. -/
theorem effective_render_iff {disk : Disk} {file : Path} (hc : areCommands ts = true)
    (hl : ∀ e ∈ ts.filterMap edit?, e.Legible) (hr : readText disk file = .ok content) :
    ∃ text, render ts disk file = .ok text ∧
      (∀ k s e, last? (editEntries ts) k s = some e →
        (∃ l ∈ fileLines content, l.Assigns k.key s) →
        (effective k s (fileLines text) = some e.value.toText ↔
          if Kept (editEntries ts) k s then
            Disables ts k s ∨
              ∀ v ∈ effective k s (afterFirst k s (fileLines content)), v = e.value.toText
          else
            ¬ Disables ts k s ∧ effective k s (fileLines content) = some e.value.toText)) ∧
      ∀ k s, (last? (disabledEntries ts) k s).isSome = true →
        last? (editEntries ts) k s = none →
        ((∀ l ∈ fileLines text, l.value? k s = none) ↔
          Kept (disabledEntries ts) k s ∨ ∀ l ∈ fileLines content, l.value? k s = none) := by
  have hc : ∀ t ∈ ts, t.isCommand = true := List.all_eq_true.mp hc
  obtain ⟨below, hb, -, hrender⟩ := exists_render ts hr
  refine ⟨_, hrender, fun k s e he hassigns => ?_, fun k s hd he => ?_⟩
  · have hfind : (edits ts).find? k.key s = if Kept (editEntries ts) k s then some e else none := by
      rw [edits_eq_gather, find?_gather (ofKeywords_editEntries hc), he]
    by_cases hkept : Kept (editEntries ts) k s
    · rw [if_pos hkept] at hfind ⊢
      rw [effective_merged_of_some hc hl hb hfind hassigns]
      by_cases hdis : Disables ts k s
      · simp [hdis]
      · cases effective k s (afterFirst k s (fileLines content)) <;> simp [hdis]
    · rw [if_neg hkept] at hfind ⊢
      rw [effective_merged_of_none hc hl hb hfind]
      by_cases hdis : Disables ts k s <;> simp [hdis]
  · have hfind : (edits ts).find? k.key s = none := by
      rw [edits_eq_gather, find?_gather (ofKeywords_editEntries hc), he, ite_self]
    rw [← effective_eq_none_iff, ← effective_eq_none_iff, effective_merged_of_none hc hl hb hfind]
    by_cases hkept : Kept (disabledEntries ts) k s <;> simp [Disables, hd, hkept]

/-! ### Some files -/

namespace Sample

/-- The disk with one file. -/
def disk (content : String) : Disk := Disk.bare.put ["obse.txt"] (.file content.toByteArray)

def file : Path := ⟨.here, ["obse.txt"]⟩

theorem readText_disk (content : String) : readText (disk content) file = .ok content :=
  readText_of_read rfl

/-- The tweak that gives a setting a number. -/
def give (sectionName setting : String) (n : Int) : Tweak :=
  .edit ⟨sectionName, setting, .int n, some "by hand"⟩

theorem render_disk {ts : List Tweak} {content : String} {lines : List String}
    (h : mergeInto ts (fileLines content) = .ok lines) :
    render ts (disk content) file = .ok (Text.joinLines lines) :=
  render_of_mergeInto (readText_disk content) h

/-- Tweaks in any letter case, and a file with one line for each setting. -/
def mixed : List Tweak := [give "Set" "a" 5, .disable "SETGS" "b"]

def once : String := "set a to 1\nsetGS b 2\nset c to 3"

end Sample

open Sample in
/-- The edit takes effect and the disabled setting has no value. -/
theorem effective_render_mixed :
    areCommands mixed = true ∧ (∀ e ∈ mixed.filterMap edit?, e.Legible) ∧
    ∃ text, render mixed (disk once) file = .ok text ∧
      effective .set "a" (fileLines text) = some "5" ∧
      ∀ l ∈ fileLines text, l.value? .setGS "b" = none := by
  have hc : areCommands mixed = true := by decide +kernel
  have hl : ∀ e ∈ mixed.filterMap edit?, e.Legible := by decide +kernel
  obtain ⟨text, hrender, hedit, hdisable⟩ := effective_render_iff hc hl (readText_disk once)
  refine ⟨hc, hl, text, hrender, ?_, ?_⟩
  · exact (hedit .set "a" ⟨"Set", "a", .int 5, some "by hand"⟩ (by decide +kernel)
      (by decide +kernel)).mpr (by decide +kernel)
  · exact (hdisable .setGS "b" (by decide +kernel) (by decide +kernel)).mpr
      (.inl (by decide +kernel))

open Sample in
/-- A second line for a setting keeps its value, and a section written with a capital loses its
earlier tweaks.  A value that is not legible is cut where a comment begins, and a line end in a
comment begins a line. -/
theorem not_effective_render :
    (∃ text, render [give "set" "a" 5] (disk "set a to 1\nset a to 2") file = .ok text ∧
      effective .set "a" (fileLines text) = some "2") ∧
    (∃ text, render [give "Set" "a" 5, give "Set" "b" 6] (disk "set a to 1\nset b to 2") file =
        .ok text ∧
      effective .set "a" (fileLines text) = some "1") ∧
    (∃ text, render [.disable "Set" "a", .disable "Set" "b"] (disk "set a to 1\nset b to 2") file =
        .ok text ∧
      effective .set "a" (fileLines text) = some "1") ∧
    (∃ text, render [.edit ⟨"set", "a", .text "5;6", none⟩] (disk "set a to 1") file = .ok text ∧
      effective .set "a" (fileLines text) = some "5") ∧
    ∃ text, render [.edit ⟨"set", "a", .int 5, some "\nset b to 6;"⟩, .disable "set" "b"]
        (disk "set a to 1\nset b to 2") file = .ok text ∧
      effective .set "b" (fileLines text) = some "6" := by
  refine ⟨⟨_, render_disk rfl, ?_⟩, ⟨_, render_disk rfl, ?_⟩, ⟨_, render_disk rfl, ?_⟩,
    ⟨_, render_disk rfl, ?_⟩, ⟨_, render_disk rfl, ?_⟩⟩ <;> decide +kernel

end Tweak.Merge

end ModWizard
