import Mathlib.Data.List.Dedup
import Mathlib.Data.List.Nodup
import ModWizard.Proofs.Tweak.Effect

/-!
# The lines below a merge

Below the lines of the file there is one line for each section that has an edit, whatever found its
place above.  So the lines below are those of the edits that found no line exactly if every
section has just one such edit.
-/

namespace ModWizard.Tweak.Merge

/-- The edits after which no other of the same section and setting comes. -/
def lastEdits : List Edit → List Edit
  | [] => []
  | e :: es =>
    if ∃ e' ∈ es, e'.sectionName = e.sectionName ∧ e'.setting = e.setting then lastEdits es
    else e :: lastEdits es

/-- The edits to be written below: those whose settings no line assigns, the last of each. -/
def unplaced (ts : List Tweak) (ls : List Line) : List Edit :=
  (lastEdits (ts.filterMap edit?)).filter fun e => ∀ l ∈ ls, ¬ l.Assigns e.sectionName e.setting

/-- The sections that have an edit. -/
def editedSections (ts : List Tweak) : List String :=
  ((ts.filterMap edit?).map Edit.sectionName).dedup

/-- Whether every section that has an edit has just one to be written below. -/
def OneEach (ts : List Tweak) (ls : List Line) : Prop :=
  ∀ x ∈ editedSections ts, (unplaced ts ls).countP (·.sectionName == x) = 1

instance (ts : List Tweak) (ls : List Line) : Decidable (OneEach ts ls) :=
  inferInstanceAs (Decidable (∀ x ∈ editedSections ts, _))

/-- Sections named by the keys of keywords. -/
def Keyed (ts : List Tweak) : Prop := ∀ t ∈ ts, ∃ k ∈ Keyword.all, t.sectionName = k.key

instance (ts : List Tweak) : Decidable (Keyed ts) :=
  inferInstanceAs (Decidable (∀ t ∈ ts, ∃ k ∈ Keyword.all, t.sectionName = k.key))

/-! ### The last edits -/

theorem lastEdits_subset (es : List Edit) : lastEdits es ⊆ es := by
  induction es with
  | nil => exact List.Subset.refl _
  | cons e es ih =>
    rw [lastEdits]
    split
    · exact fun x hx => List.mem_cons_of_mem e (ih hx)
    · exact List.cons_subset_cons e ih

theorem nodup_lastEdits (es : List Edit) : (lastEdits es).Nodup := by
  induction es with
  | nil => exact List.nodup_nil
  | cons e es ih =>
    rw [lastEdits]
    split
    · exact ih
    next hlater =>
      exact List.nodup_cons.mpr ⟨fun hm => hlater ⟨e, lastEdits_subset es hm, rfl, rfl⟩, ih⟩

theorem last?_cons {α : Type} (x : Entry α) (xs : List (Entry α)) (k : Keyword) (s : String) :
    last? (x :: xs) k s = (last? xs k s).or (if x.isAbout k s then some x.item else none) := by
  simp only [last?, List.reverse_cons, List.find?_append, List.find?_singleton]
  cases xs.reverse.find? (·.isAbout k s) <;> cases x.isAbout k s <;> rfl

theorem last?_eq_none_iff {α : Type} {xs : List (Entry α)} {k : Keyword} {s : String} :
    last? xs k s = none ↔ ∀ x ∈ xs, x.isAbout k s = false := by
  simp [last?]

theorem isAbout_entry_iff {e : Edit} (h : ∃ k ∈ Keyword.all, e.sectionName = k.key) {k : Keyword}
    {s : String} : (entry e).isAbout k s = true ↔ e.sectionName = k.key ∧ e.setting = s := by
  obtain ⟨k', -, hk'⟩ := h
  simp [Entry.isAbout, Entry.isIn, entry, hk']

/-- The last entry about a setting is that of its last edit. -/
theorem last?_map_entry_eq_some_iff {es : List Edit}
    (h : ∀ e ∈ es, ∃ k ∈ Keyword.all, e.sectionName = k.key) {k : Keyword} {s : String} {e : Edit} :
    last? (es.map entry) k s = some e ↔
      e ∈ lastEdits es ∧ e.sectionName = k.key ∧ e.setting = s := by
  induction es with
  | nil => simp [last?, lastEdits]
  | cons x xs ih =>
    rw [List.forall_mem_cons] at h
    have habout := isAbout_entry_iff h.1 (k := k) (s := s)
    have hnone : last? (xs.map entry) k s = none ↔
        ∀ x ∈ xs, ¬ (x.sectionName = k.key ∧ x.setting = s) := by
      rw [last?_eq_none_iff, List.forall_mem_map]
      exact forall₂_congr fun x hx => by
        rw [← Bool.not_eq_true, isAbout_entry_iff (h.2 x hx)]
    have ih := ih h.2
    rw [List.map_cons, last?_cons, lastEdits]
    by_cases hx : x.sectionName = k.key ∧ x.setting = s
    · rw [if_pos (habout.mpr hx)]
      split
      next hlater =>
        -- a later edit is the last one
        obtain ⟨x', hx', hsection, hsetting⟩ := hlater
        have hsome : last? (xs.map entry) k s ≠ none := fun he =>
          hnone.mp he x' hx' ⟨hsection.trans hx.1, hsetting.trans hx.2⟩
        rw [← ih]
        cases hl : last? (xs.map entry) k s with
        | none => exact absurd hl hsome
        | some e' => rfl
      next hlater =>
        have hl : last? (xs.map entry) k s = none := hnone.mpr fun x' hx' hk =>
          hlater ⟨x', hx', hk.1.trans hx.1.symm, hk.2.trans hx.2.symm⟩
        rw [hl] at ih ⊢
        have hnot : ¬ (e ∈ lastEdits xs ∧ e.sectionName = k.key ∧ e.setting = s) := fun hm =>
          by cases ih.mpr hm
        grind [entry]
    · rw [if_neg fun ha => hx (habout.mp ha), Option.or_none, ih]
      split <;> grind

theorem edit_keyed {ts : List Tweak} (h : Keyed ts) :
    ∀ e ∈ ts.filterMap edit?, ∃ k ∈ Keyword.all, e.sectionName = k.key := by
  intro e he
  obtain ⟨t, ht, hte⟩ := List.mem_filterMap.mp he
  cases t with
  | disable => cases hte
  | edit =>
    cases hte
    exact h _ ht

theorem isCommand_of_keyed {ts : List Tweak} (h : Keyed ts) : ∀ t ∈ ts, t.isCommand = true := by
  intro t ht
  obtain ⟨k, -, hk⟩ := h t ht
  rw [isCommand, hk]
  cases k <;> decide +kernel

/-- Where the sections are named by their keys, nothing is lost. -/
theorem find?_edits_of_keyed {ts : List Tweak} (h : Keyed ts) {key s : String} {e : Edit} :
    (edits ts).find? key s = some e ↔
      e ∈ lastEdits (ts.filterMap edit?) ∧ e.sectionName = key ∧ e.setting = s := by
  have hc := isCommand_of_keyed h
  have hkept : ∀ k s, Kept (editEntries ts) k s := by
    intro k s x hx hin
    obtain ⟨e, he, rfl⟩ :=
      List.mem_map.mp (List.mem_reverse.mp ((List.takeWhile_sublist _).subset hx))
    obtain ⟨k', -, hk'⟩ := edit_keyed h e he
    simpa [Entry.isIn, entry, hk'] using hin
  have hfind : ∀ k : Keyword, (edits ts).find? k.key s = some e ↔
      e ∈ lastEdits (ts.filterMap edit?) ∧ e.sectionName = k.key ∧ e.setting = s := fun k => by
    rw [edits_eq_gather, find?_gather (ofKeywords_editEntries hc), if_pos (hkept k s), editEntries,
      last?_map_entry_eq_some_iff (edit_keyed h)]
  constructor
  · intro he
    obtain ⟨-, -, -, k, rfl⟩ := of_find?_edits hc he
    exact (hfind k).mp he
  · rintro ⟨he, rfl, hs⟩
    obtain ⟨k, -, hk⟩ := edit_keyed h e (lastEdits_subset _ he)
    rw [hk]
    exact (hfind k).mpr ⟨he, hk, hs⟩

/-- The edits that are left are those to be written below. -/
theorem find?_left_eq_some_iff {ts : List Tweak} (h : Keyed ts) {ls : List Line} {key s : String}
    {e : Edit} : (left ts ls).find? key s = some e ↔
      e ∈ unplaced ts ls ∧ e.sectionName = key ∧ e.setting = s := by
  rw [find?_left, unplaced, List.mem_filter, decide_eq_true_iff]
  split
  next hassigns =>
    obtain ⟨l, hl, ha⟩ := hassigns
    simp only [reduceCtorEq, false_iff]
    rintro ⟨⟨-, hnot⟩, rfl, rfl⟩
    exact hnot l hl ha
  next hnot =>
    rw [find?_edits_of_keyed h]
    constructor
    · rintro ⟨he, rfl, rfl⟩
      exact ⟨⟨he, fun l hl ha => hnot ⟨l, hl, ha⟩⟩, rfl, rfl⟩
    · rintro ⟨⟨he, -⟩, hkey⟩
      exact ⟨he, hkey⟩

/-! ### One table for each section -/

variable {ts : List Tweak} {ls : List Line}

theorem mem_values_left_iff (h : Keyed ts) {key : String} {t : Table String Edit}
    (ht : (left ts ls).get? key = some t) {e : Edit} :
    e ∈ t.values ↔ e ∈ unplaced ts ls ∧ e.sectionName = key := by
  rw [Table.mem_values_iff]
  constructor
  · rintro ⟨s, he⟩
    obtain ⟨hmem, hkey, -⟩ :=
      (find?_left_eq_some_iff h).mp (Index.find?_eq_some_iff.mpr ⟨t, ht, he⟩)
    exact ⟨hmem, hkey⟩
  · rintro ⟨hmem, rfl⟩
    obtain ⟨t', ht', he⟩ :=
      Index.find?_eq_some_iff.mp ((find?_left_eq_some_iff h).mpr ⟨hmem, rfl, rfl⟩)
    obtain rfl : t' = t := Option.some.inj (ht'.symm.trans ht)
    exact ⟨e.setting, he⟩

theorem nodup_values_left (h : Keyed ts) {key : String} {t : Table String Edit}
    (ht : (left ts ls).get? key = some t) : t.values.Nodup := by
  -- an edit stands under its own setting
  have hsettings : t.values.map Edit.setting = t.keys := by
    rw [Table.values, List.map_map, Table.keys]
    refine List.map_congr_left fun p hp => ?_
    have he := Index.find?_eq_some_iff.mpr ⟨t, ht, Table.get?_eq_some_iff.mpr hp⟩
    exact ((find?_left_eq_some_iff h).mp he).2.2
  refine List.Nodup.of_map Edit.setting ?_
  rw [hsettings]
  exact t.nodup

theorem length_values_of_get?_left (h : Keyed ts) {key : String} {t : Table String Edit}
    (ht : (left ts ls).get? key = some t) :
    t.values.length = (unplaced ts ls).countP (·.sectionName == key) := by
  have hnodup : (unplaced ts ls).Nodup := (nodup_lastEdits _).filter _
  have hperm : t.values.Perm ((unplaced ts ls).filter (·.sectionName == key)) := by
    refine (List.perm_ext_iff_of_nodup (nodup_values_left h ht) (hnodup.filter _)).mpr fun e => ?_
    rw [mem_values_left_iff h ht, List.mem_filter, beq_iff_eq]
  rw [hperm.length_eq, List.countP_eq_length_filter]

theorem items_left_perm (h : Keyed ts) : (left ts ls).items.Perm (unplaced ts ls) := by
  have hnodup : (left ts ls).items.Nodup := by
    rw [Index.items, List.nodup_flatMap]
    constructor
    · intro t ht
      obtain ⟨key, ht⟩ := Table.mem_values_iff.mp ht
      exact nodup_values_left h ht
    · -- an edit stands under its own section
      rw [Table.values, List.pairwise_map]
      refine (List.pairwise_map.mp (left ts ls).nodup).imp_of_mem fun hp hq hne => ?_
      intro e he he'
      exact hne (((mem_values_left_iff h (Table.get?_eq_some_iff.mpr hp)).mp he).2.symm.trans
        ((mem_values_left_iff h (Table.get?_eq_some_iff.mpr hq)).mp he').2)
  refine (List.perm_ext_iff_of_nodup hnodup ((nodup_lastEdits _).filter _)).mpr fun e => ?_
  rw [Index.mem_items_iff]
  constructor
  · rintro ⟨key, s, he⟩
    exact ((find?_left_eq_some_iff h).mp he).1
  · intro he
    exact ⟨_, _, (find?_left_eq_some_iff h).mpr ⟨he, rfl, rfl⟩⟩

theorem mem_keys_edits_iff (h : Keyed ts) {key : String} :
    key ∈ (edits ts).keys ↔ key ∈ editedSections ts := by
  rw [edits_eq_gather, mem_keys_gather, editEntries, editedSections, List.mem_dedup, List.mem_map]
  simp only [List.mem_map, exists_exists_and_eq_and, entry]
  refine exists_congr fun e => and_congr_right fun he => ?_
  obtain ⟨k, -, hk⟩ := edit_keyed h e he
  rw [hk, Keyword.lower_key]

theorem length_keys_edits (h : Keyed ts) :
    (edits ts).keys.length = (editedSections ts).length :=
  ((List.perm_ext_iff_of_nodup (edits ts).nodup (List.nodup_dedup _)).mpr
    fun _ => mem_keys_edits_iff h).length_eq

/-- Every section has just one edit to be written below exactly if every table has one entry. -/
theorem oneEach_iff (h : Keyed ts) :
    OneEach ts ls ↔ ∀ t ∈ (left ts ls).values, t.values.length = 1 := by
  have hkeys : (left ts ls).keys = (edits ts).keys := keys_mergeLines ls
  constructor
  · intro hone t ht
    obtain ⟨key, ht⟩ := Table.mem_values_iff.mp ht
    have hkey : key ∈ (left ts ls).keys := Table.mem_keys_iff.mpr ⟨t, ht⟩
    rw [hkeys, mem_keys_edits_iff h] at hkey
    rw [length_values_of_get?_left h ht, hone key hkey]
  · intro hone key hkey
    rw [← mem_keys_edits_iff h, ← hkeys, Table.mem_keys_iff] at hkey
    obtain ⟨t, ht⟩ := hkey
    rw [← length_values_of_get?_left h ht, hone t (Table.mem_values_iff.mpr ⟨key, ht⟩)]

/-! ### The lines of the sections -/

/-- If every section has one edit left, its line is written. -/
theorem remaining_of_length_eq_one {tables : List (Table String Edit)}
    (h : ∀ t ∈ tables, t.values.length = 1) (last : Option String) :
    remaining last tables = .ok ((tables.flatMap Table.values).map newLine) := by
  induction tables generalizing last with
  | nil => rfl
  | cons t tables ih =>
    rw [List.forall_mem_cons] at h
    obtain ⟨e, he⟩ := List.length_eq_one_iff.mp h.1
    simp [remaining, he, ih h.2, Except.map]

/-- If no line is repeated, every section has an edit left. -/
theorem ne_nil_of_remaining {last : Option String} {tables : List (Table String Edit)}
    {below : List String} (h : remaining last tables = .ok below) (hnodup : below.Nodup)
    (hlast : ∀ l ∈ last, l ∉ below) : ∀ t ∈ tables, t.values ≠ [] := by
  induction tables generalizing last below with
  | nil => simp
  | cons t tables ih =>
    obtain ⟨l, rest, rfl, hrest, hl⟩ := remaining_cons h
    rw [List.nodup_cons] at hnodup
    rw [List.forall_mem_cons]
    refine ⟨?_, ih hrest hnodup.2 fun l' hl' => by cases hl'; exact hnodup.1⟩
    obtain ⟨e, he, -⟩ | ⟨-, hl⟩ := hl
    · exact List.ne_nil_of_mem (List.mem_of_getLast? he)
    · exact absurd List.mem_cons_self (hlast l hl)

theorem length_le_length_flatMap {tables : List (Table String Edit)}
    (hne : ∀ t ∈ tables, t.values ≠ []) :
    tables.length ≤ (tables.flatMap Table.values).length := by
  induction tables with
  | nil => exact Nat.le_refl 0
  | cons t tables ih =>
    rw [List.forall_mem_cons] at hne
    have hpos : 0 < t.values.length := List.length_pos_iff.mpr hne.1
    have hle := ih hne.2
    rw [List.flatMap_cons, List.length_append, List.length_cons]
    omega

theorem length_eq_one_of_length_flatMap {tables : List (Table String Edit)}
    (hne : ∀ t ∈ tables, t.values ≠ [])
    (hlength : (tables.flatMap Table.values).length = tables.length) :
    ∀ t ∈ tables, t.values.length = 1 := by
  induction tables with
  | nil => simp
  | cons t tables ih =>
    rw [List.forall_mem_cons] at hne ⊢
    have hpos : 0 < t.values.length := List.length_pos_iff.mpr hne.1
    have hle := length_le_length_flatMap hne.2
    rw [List.flatMap_cons, List.length_append, List.length_cons] at hlength
    exact ⟨by omega, ih hne.2 (by omega)⟩

/-! ### The lines below -/

/-- A line above gives no value to a setting that no line of the file assigns. -/
theorem value?_of_mem_mergeLines {off : Index Unit} {waiting : Index Edit} (h : Filed waiting)
    {k : Keyword} {s : String} (hls : ∀ l ∈ ls, readLine l.text = l)
    (hnot : ∀ l ∈ ls, ¬ l.Assigns k.key s) {t : String} (ht : t ∈ (mergeLines off waiting ls).1) :
    (readLine t).value? k s = none := by
  induction ls generalizing waiting with
  | nil => cases ht
  | cons l ls ih =>
    rw [List.forall_mem_cons] at hls hnot
    rw [mergeLines] at ht
    obtain rfl | ht := List.mem_cons.mp ht
    · exact value?_mergeLine_of_not_assigns h hls.1 hnot.1
    · exact ih (h.mergeLine l) hls.2 hnot.2 ht

/-- What a new line is read as. -/
theorem readLine_newLine_of_mem {content : String} (h : Keyed ts)
    (hl : ∀ e ∈ ts.filterMap edit?, e.Legible) {e : Edit}
    (he : e ∈ unplaced ts (fileLines content)) : ∃ k : Keyword, e.sectionName = k.key ∧
      readLine (newLine e) = ⟨newLine e, false, some ⟨k, e.setting, e.value.toText⟩⟩ := by
  have hmem : e ∈ ts.filterMap edit? := lastEdits_subset _ (List.mem_filter.mp he).1
  obtain ⟨k, -, hk⟩ := edit_keyed h e hmem
  exact ⟨k, hk, ofChars_newLine (hl e hmem) (by rw [hk, Keyword.lower_key])⟩

/-- Legible edits of different settings have different lines. -/
theorem nodup_map_newLine {content : String} (h : Keyed ts)
    (hl : ∀ e ∈ ts.filterMap edit?, e.Legible) :
    ((unplaced ts (fileLines content)).map newLine).Nodup := by
  refine ((nodup_lastEdits _).filter _).map_on fun e he e' he' heq => ?_
  obtain ⟨k, hk, hread⟩ := readLine_newLine_of_mem h hl he
  obtain ⟨k', hk', hread'⟩ := readLine_newLine_of_mem h hl he'
  rw [heq, hread'] at hread
  simp only [Line.mk.injEq, Option.some.injEq, Assignment.mk.injEq] at hread
  obtain ⟨-, -, rfl, hs, -⟩ := hread
  have hfind := (find?_left_eq_some_iff h).mpr ⟨he, hk, hs.symm⟩
  have hfind' := (find?_left_eq_some_iff h).mpr ⟨he', hk', rfl⟩
  exact Option.some.inj (hfind.symm.trans hfind')

/-- A line above is not the line of an edit that found none. -/
theorem notMem_map_newLine {content : String} (h : Keyed ts)
    (hl : ∀ e ∈ ts.filterMap edit?, e.Legible) {t : String}
    (ht : t ∈ above ts (fileLines content)) :
    t ∉ (unplaced ts (fileLines content)).map newLine := by
  intro hm
  obtain ⟨e, he, rfl⟩ := List.mem_map.mp hm
  obtain ⟨k, hk, hread⟩ := readLine_newLine_of_mem h hl he
  have hnot : ∀ l ∈ fileLines content, ¬ l.Assigns k.key e.setting := by
    have := (List.mem_filter.mp he).2
    simpa [hk] using this
  have hnone := value?_of_mem_mergeLines (filed_edits (isCommand_of_keyed h) hl)
    (fun _ => readLine_text_of_mem) hnot ht
  rw [hread] at hnone
  simp [Line.value?] at hnone

/-- What is written below the lines of a file that can be read: one line for each section that has
an edit.  These are the lines of the edits that found no line if every section has just one such
edit, and for legible edits in no other case. -/
theorem render_below_perm_iff {disk : Disk} {file : Path} {content : String} (h : Keyed ts)
    (hr : readText disk file = .ok content) :
    ∃ above below, mergeInto ts (fileLines content) = .ok (above ++ below) ∧
      render ts disk file = .ok (Text.joinLines (above ++ below)) ∧
      above.length = (fileLines content).length ∧
      below.length = (editedSections ts).length ∧
      (OneEach ts (fileLines content) →
        below.Perm ((unplaced ts (fileLines content)).map newLine)) ∧
      ((∀ e ∈ ts.filterMap edit?, e.Legible) →
        below.Perm ((unplaced ts (fileLines content)).map newLine) →
        OneEach ts (fileLines content)) := by
  obtain ⟨below, hbelow, hlength, hinto⟩ := exists_mergeInto ts (fileLines content)
  have hrender := render_of_readText ts hr
  rw [hinto, Except.map] at hrender
  refine ⟨_, below, hinto, hrender, length_mergeLines _, hlength.trans (length_keys_edits h),
    fun hone => ?_, fun hl hperm => ?_⟩
  · rw [oneEach_iff h] at hone
    rw [remaining_of_length_eq_one hone] at hbelow
    cases hbelow
    exact (items_left_perm h).map newLine
  · rw [oneEach_iff h]
    have hnodup : below.Nodup := hperm.nodup_iff.mpr (nodup_map_newLine h hl)
    have hne := ne_nil_of_remaining hbelow hnodup fun l hlast hm =>
      notMem_map_newLine h hl (List.mem_of_getLast? hlast) (hperm.subset hm)
    refine length_eq_one_of_length_flatMap hne ?_
    have hitems : ((left ts (fileLines content)).values.flatMap Table.values).length =
        (unplaced ts (fileLines content)).length := (items_left_perm h).length_eq
    have hcount := hperm.length_eq
    rw [List.length_map] at hcount
    rw [hitems, ← hcount, hlength, length_values_left]

open Sample in
/-- Two sections with one edit each that found no line, and an edit that found one. -/
theorem render_below_perm_spread :
    Keyed [give "set" "a" 5, give "set" "b" 6, give "setgs" "c" 7] ∧
    readText (disk "set a to 1") file = .ok "set a to 1" ∧
    ∃ above below,
      render [give "set" "a" 5, give "set" "b" 6, give "setgs" "c" 7] (disk "set a to 1") file =
        .ok (Text.joinLines (above ++ below)) ∧
      above.length = 1 ∧
      below.Perm ["set b to 6  ; by hand (set by MO2 via Wizard)",
        "setgs c 7  ; by hand (set by MO2 via Wizard)"] := by
  have hkeyed : Keyed [give "set" "a" 5, give "set" "b" 6, give "setgs" "c" 7] := by decide +kernel
  have hone : OneEach [give "set" "a" 5, give "set" "b" 6, give "setgs" "c" 7]
    (fileLines "set a to 1") := by decide +kernel
  have hlines : (unplaced [give "set" "a" 5, give "set" "b" 6, give "setgs" "c" 7]
      (fileLines "set a to 1")).map newLine = ["set b to 6  ; by hand (set by MO2 via Wizard)",
        "setgs c 7  ; by hand (set by MO2 via Wizard)"] := by decide +kernel
  obtain ⟨above, below, -, hrender, habove, -, hperm, -⟩ :=
    render_below_perm_iff hkeyed (readText_disk "set a to 1")
  exact ⟨hkeyed, readText_disk _, above, below, hrender, habove.trans (by decide +kernel),
    hlines ▸ hperm hone⟩

open Sample in
/-- An edit that found its line is followed by that line again, and of two edits of a section that
found none only one is written. -/
theorem not_render_below_perm :
    (render [give "set" "a" 5] (disk "set a to 1") file =
        .ok (Text.joinLines ["set a to 5  ; by hand (set by MO2 via Wizard, was 1)",
          "set a to 5  ; by hand (set by MO2 via Wizard, was 1)"]) ∧
      unplaced [give "set" "a" 5] (fileLines "set a to 1") = []) ∧
    render [give "set" "a" 5, give "set" "b" 6] (disk "set z to 1") file =
        .ok (Text.joinLines ["set z to 1", "set b to 6  ; by hand (set by MO2 via Wizard)"]) ∧
      (unplaced [give "set" "a" 5, give "set" "b" 6] (fileLines "set z to 1")).length = 2 := by
  refine ⟨⟨render_disk ?_, by decide +kernel⟩, render_disk ?_, by decide +kernel⟩ <;> rfl

end ModWizard.Tweak.Merge
