import ModWizard.Proofs.Tweak.Effect

/-!
# Merging with checks

The merge once more, as steps in which every look-up can fail, because the key is not in the table,
and so can every use of a variable, because nothing has been assigned to it.  For tweaks meant for
console commands no step fails, and the steps write what the merge writes.  What could go wrong:
a section is looked for as it is written but entered in small letters, and below the file a section
without an edit repeats a line that has to be there.
-/

namespace ModWizard

namespace Tweak.Merge

namespace Checked

variable {α : Type}

/-- Why a step fails. -/
inductive Lapse
  /-- a table does not have the key -/
  | missing (key : String)
  /-- nothing has been assigned to the variable -/
  | unassigned
  deriving DecidableEq

/-- The value of a key that has to be there. -/
def fetch (t : Table String α) (key : String) : Except Lapse α :=
  match t.get? key with
  | some a => .ok a
  | none => .error (.missing key)

/-- The value of a variable that has to be assigned. -/
def valueOf : Option α → Except Lapse α
  | some a => .ok a
  | none => .error .unassigned

/-- Makes an entry.  The section is looked for as it is written, and made if it is not found; the
entry is made under its name in small letters. -/
def enter (x : Index α) (e : Entry α) : Except Lapse (Index α) := do
  let key := Text.lower e.sectionName
  let x := if x.contains e.sectionName then x else x.insert key ∅
  let t ← fetch x key
  return x.insert key (t.insert e.setting e.item)

/-- Makes some entries one after the other. -/
def gather (es : List (Entry α)) : Except Lapse (Index α) := es.foldlM enter ∅

/-- Whether there is an entry.  A section is looked into only if it is there. -/
def has (x : Index α) (key s : String) : Except Lapse Bool :=
  if x.contains key then (fetch x key).map (·.contains s) else .ok false

/-- The edits that wait, the lines written so far, and the variables. -/
structure State where
  waiting : Index Edit
  lines : List String
  line : Option String
  comment : Option String

/-- Writes the line. -/
def State.append (s : State) : Except Lapse State := do
  return { s with lines := s.lines ++ [← valueOf s.line] }

/-- Puts the comment behind the line. -/
def State.remark (s : State) : Except Lapse State := do
  return { s with line := some ((← valueOf s.line) ++ "  ; " ++ (← valueOf s.comment)) }

/-- Takes an edit from those that wait and assigns its line. -/
def replace (s : State) (a : Assignment) : Except Lapse State := do
  let t ← fetch s.waiting a.keyword.key
  let e ← fetch t a.setting
  let s := { s with line := some (command a.keyword a.setting e.value.toText) }
  let s ← { s with comment := some (replacementNote a e) }.remark
  return { s with waiting := s.waiting.insert a.keyword.key (t.erase a.setting) }

/-- Puts a mark before the line. -/
def mark (s : State) : Except Lapse State := do
  return { s with line := some (";-" ++ (← valueOf s.line)) }

/-- Treats the line as a command. -/
def treat (off : Index Unit) (disabled : Bool) (s : State) (a : Assignment) :
    Except Lapse State := do
  if ← has s.waiting a.keyword.key a.setting then replace s a
  else if disabled then return s
  else if ← has off a.keyword.key a.setting then mark s
  else return s

/-- Goes on to a line of the file. -/
def visit (off : Index Unit) (s : State) (l : Line) : Except Lapse State := do
  let s := { s with line := some l.text }
  match l.assignment with
  | none => s.append
  | some a => (← treat off l.disabled s a).append

/-- Assigns the line of an edit that found none. -/
def compose (s : State) (e : Edit) : Except Lapse State :=
  let line := e.sectionName ++ " " ++ e.setting ++
    (if Text.lower e.sectionName = "set" then " to " else " ") ++ e.value.toText
  { s with line := some line, comment := some (newLineNote e) }.remark

/-- Writes the line of a section below the file. -/
def close (s : State) (t : Table String Edit) : Except Lapse State := do
  (← t.values.foldlM compose s).append

/-- Merges tweaks into the lines of a file. -/
def mergeInto (ts : List Tweak) (ls : List Line) : Except Lapse (List String) := do
  let waiting ← gather (editEntries ts)
  let off ← gather (disabledEntries ts)
  let s ← ls.foldlM (visit off) ⟨waiting, [], none, none⟩
  let s ← s.waiting.values.foldlM close s
  return s.lines

/-! ### Look-ups -/

theorem fetch_of_get? {t : Table String α} {key : String} {a : α} (h : t.get? key = some a) :
    fetch t key = .ok a := by
  rw [fetch, h]

theorem has_eq (x : Index α) (key s : String) : has x key s = .ok (x.find? key s).isSome := by
  rw [has, Table.contains, Index.find?]
  cases hx : x.get? key with
  | none => rfl
  | some t => simp [fetch_of_get? hx, Except.map, Table.contains]

/-- An entry can be made if a section that is found as it is written is there in small letters. -/
theorem enter_eq {x : Index α} {e : Entry α}
    (h : x.contains e.sectionName = true → Text.lower e.sectionName = e.sectionName) :
    enter x e = .ok (x.add e.sectionName e.setting e.item) := by
  unfold enter Index.add
  by_cases hc : x.contains e.sectionName = true
  · obtain ⟨t, ht⟩ := Option.isSome_iff_exists.mp hc
    simp only [if_pos hc]
    rw [h hc, fetch_of_get? ht, ht]
    rfl
  · have hnew : (x.insert (Text.lower e.sectionName) ∅).get? (Text.lower e.sectionName) =
        some ∅ := by
      simp
    simp only [if_neg hc]
    rw [fetch_of_get? hnew]
    exact congrArg Except.ok (Table.insert_insert x _ ∅ _)

/-- A section that were there only as it is written would not be found in small letters. -/
example : enter (⟨[("Set", ∅)], by decide⟩ : Index Unit) ⟨"Set", "a", ()⟩ =
    .error (.missing "set") := rfl

theorem gather_eq {es : List (Entry α)} (h : OfKeywords es) :
    gather es = .ok (Merge.gather es) := by
  induction es using List.reverseRecOn with
  | nil => rfl
  | append_singleton es e ih =>
    have hes : OfKeywords es := fun e' he' => h e' (List.mem_append_left _ he')
    have hstart : es.foldlM enter ∅ = .ok (Merge.gather es) := ih hes
    have hstep : enter (Merge.gather es) e = .ok _ := enter_eq (lower_eq_of_contains_gather hes)
    rw [gather, List.foldlM_append, hstart, gather_concat, ← hstep]
    show List.foldlM enter (Merge.gather es) [e] = _
    rw [List.foldlM_cons, hstep]
    rfl

/-! ### The lines of the file -/

/-- A command is replaced by the edit that waits for it, and so the edit waits no longer. -/
theorem replace_eq {s : State} {a : Assignment} {e : Edit}
    (h : s.waiting.find? a.keyword.key a.setting = some e) :
    replace s a = .ok { s with
      waiting := s.waiting.drop a.keyword.key a.setting
      line := some (replacement a e)
      comment := some (replacementNote a e) } := by
  obtain ⟨t, ht, he⟩ := Index.find?_eq_some_iff.mp h
  rw [replace, fetch_of_get? ht]
  simp only [bind, Except.bind, fetch_of_get? he, State.remark, valueOf, pure, Except.pure,
    Index.drop, ht, replacement_eq]

theorem treat_eq (off : Index Unit) {s : State} {l : Line} {a : Assignment}
    (ha : l.assignment = some a) (hline : s.line = some l.text) :
    ∃ comment, treat off l.disabled s a =
      .ok ⟨(mergeLine off s.waiting l).2, s.lines, some (mergeLine off s.waiting l).1,
        comment⟩ := by
  rw [treat, has_eq, has_eq]
  cases he : s.waiting.find? a.keyword.key a.setting with
  | some e =>
    have hmerge : mergeLine off s.waiting l =
        (replacement a e, s.waiting.drop a.keyword.key a.setting) := by
      simp only [mergeLine, ha, he]
    rw [hmerge]
    exact ⟨_, replace_eq he⟩
  | none =>
    refine ⟨s.comment, ?_⟩
    obtain ⟨waiting, lines, line, comment⟩ := s
    cases hline
    cases hd : l.disabled <;> cases ho : (off.find? a.keyword.key a.setting).isSome <;>
      simp only [mergeLine, ha, he, hd, ho] <;> rfl

/-- One line of the file. -/
theorem visit_eq (off : Index Unit) (s : State) (l : Line) : ∃ comment, visit off s l =
    .ok ⟨(mergeLine off s.waiting l).2, s.lines ++ [(mergeLine off s.waiting l).1],
      some (mergeLine off s.waiting l).1, comment⟩ := by
  rw [visit]
  cases ha : l.assignment with
  | none =>
    have hmerge : mergeLine off s.waiting l = (l.text, s.waiting) := by simp only [mergeLine, ha]
    rw [hmerge]
    exact ⟨s.comment, rfl⟩
  | some a =>
    obtain ⟨comment, htreat⟩ := treat_eq off (s := { s with line := some l.text }) ha rfl
    exact ⟨comment, by simp only [htreat]; rfl⟩

/-- All lines of the file. -/
theorem foldlM_visit (off : Index Unit) (s : State) (ls : List Line) :
    ∃ comment, ls.foldlM (visit off) s =
    .ok ⟨(mergeLines off s.waiting ls).2, s.lines ++ (mergeLines off s.waiting ls).1,
      (mergeLines off s.waiting ls).1.getLast?.or s.line, comment⟩ := by
  induction ls generalizing s with
  | nil => exact ⟨s.comment, by simp [mergeLines, pure, Except.pure]⟩
  | cons l ls ih =>
    obtain ⟨comment, hvisit⟩ := visit_eq off s l
    obtain ⟨comment', hrest⟩ := ih ⟨(mergeLine off s.waiting l).2,
      s.lines ++ [(mergeLine off s.waiting l).1], some (mergeLine off s.waiting l).1, comment⟩
    refine ⟨comment', ?_⟩
    rw [List.foldlM_cons, hvisit]
    refine hrest.trans ?_
    simp only [mergeLines, List.getLast?_cons, List.append_assoc, List.singleton_append]
    cases (mergeLines off (mergeLine off s.waiting l).2 ls).1.getLast? <;> rfl

/-! ### The lines below -/

theorem compose_eq (s : State) (e : Edit) :
    compose s e = .ok { s with line := some (newLine e), comment := some (newLineNote e) } := rfl

/-- The line of a section is that of its last edit, or stays as it was. -/
theorem foldlM_compose (s : State) (es : List Edit) : ∃ comment, es.foldlM compose s =
    .ok { s with line := (es.getLast?.map newLine).or s.line, comment := comment } := by
  induction es generalizing s with
  | nil => exact ⟨s.comment, rfl⟩
  | cons e es ih =>
    obtain ⟨comment, hrest⟩ :=
      ih { s with line := some (newLine e), comment := some (newLineNote e) }
    refine ⟨comment, ?_⟩
    rw [List.foldlM_cons, compose_eq]
    refine hrest.trans ?_
    rw [List.getLast?_cons]
    cases es.getLast? <;> rfl

theorem close_eq {s : State} {t : Table String Edit} {l : String}
    (h : (t.values.getLast?.map newLine).or s.line = some l) : ∃ comment, close s t =
      .ok { s with lines := s.lines ++ [l], line := some l, comment := comment } := by
  obtain ⟨comment, hcompose⟩ := foldlM_compose s t.values
  refine ⟨comment, ?_⟩
  rw [close, hcompose, h]
  rfl

/-- Without a line before it, a section without an edit has no line. -/
example : close ⟨∅, [], none, none⟩ ∅ = .error .unassigned := rfl

/-- If there is a line for every section, no section fails. -/
theorem foldlM_close {s : State} {tables : List (Table String Edit)} {below : List String}
    (h : remaining s.line tables = .ok below) :
    ∃ s', tables.foldlM close s = .ok s' ∧ s'.lines = s.lines ++ below := by
  induction tables generalizing s below with
  | nil =>
    cases h
    exact ⟨s, rfl, by simp⟩
  | cons t tables ih =>
    obtain ⟨l, rest, rfl, hrest, hl⟩ := remaining_cons h
    have hline : (t.values.getLast?.map newLine).or s.line = some l := by
      obtain ⟨e, he, rfl⟩ | ⟨hnil, hlast⟩ := hl
      · rw [he, Option.map_some, Option.some_or]
      · simp [hnil, hlast]
    obtain ⟨comment, hclose⟩ := close_eq hline
    obtain ⟨s', hs', hlines⟩ :=
      ih (s := { s with lines := s.lines ++ [l], line := some l, comment := comment }) hrest
    refine ⟨s', ?_, by simp [hlines]⟩
    rw [List.foldlM_cons, hclose]
    exact hs'

/-! ### The whole merge -/

/-- For tweaks meant for console commands no step fails, and the lines are those of the merge. -/
theorem mergeInto_eq {ts : List Tweak} (hc : ∀ t ∈ ts, t.isCommand = true) (ls : List Line) :
    ∃ lines, mergeInto ts ls = .ok lines ∧ Merge.mergeInto ts ls = .ok lines := by
  obtain ⟨below, hbelow, -, hinto⟩ := exists_mergeInto ts ls
  have hedits := gather_eq (ofKeywords_editEntries hc)
  have hdisabled := gather_eq (ofKeywords_disabledEntries hc)
  rw [← edits_eq_gather] at hedits
  rw [← disabled_eq_gather] at hdisabled
  obtain ⟨comment, hvisit⟩ := foldlM_visit (disabled ts) ⟨edits ts, [], none, none⟩ ls
  rw [Option.or_none] at hvisit
  have hvisit : ls.foldlM (visit (disabled ts)) ⟨edits ts, [], none, none⟩ =
    .ok ⟨left ts ls, above ts ls, (above ts ls).getLast?, comment⟩ := hvisit
  obtain ⟨s, hclose, hs⟩ := foldlM_close
    (s := ⟨left ts ls, above ts ls, (above ts ls).getLast?, comment⟩) hbelow
  refine ⟨above ts ls ++ below, ?_, hinto⟩
  simp only [mergeInto, hedits, hdisabled, bind, Except.bind, hvisit, hclose, hs, pure, Except.pure]

end Checked

/-- A merge of tweaks for console commands into a file of valid text gives a text: no step of it
looks for a key that is not there or uses a variable to which nothing has been assigned. -/
theorem merge_of_isValidUTF8 {ts : List Tweak} {disk : Disk} {file : Path} {bytes : ByteArray}
    (hc : areCommands ts = true) (hread : disk.read file = .ok bytes) (hvalid : bytes.IsValidUTF8) :
    ∃ lines, Checked.mergeInto ts (fileLines (.ofByteArray bytes hvalid)) = .ok lines ∧
      merge ts disk file = .ok { text := Text.joinLines lines } := by
  obtain ⟨lines, hchecked, hinto⟩ := Checked.mergeInto_eq (List.all_eq_true.mp hc)
    (fileLines (.ofByteArray bytes hvalid))
  have hr : readText disk file = .ok (.ofByteArray bytes hvalid) := readText_of_read hread
  refine ⟨lines, hchecked, ?_⟩
  rw [merge, if_pos hc, render_of_mergeInto hr hinto]
  rfl

namespace Sample

/-- Sections written in several ways; the first edit is lost. -/
def several : List Tweak :=
  [give "Set" "a" 5, give "SET" "b" 6, .disable "SETGS" "c", give "SetGS" "d" 7]

end Sample

open Sample in
/-- The only edit of the first section is carried out above, so the line is there once more
below. -/
theorem merge_of_isValidUTF8_several :
    areCommands several = true ∧
    (disk "set b to 1").read file = .ok "set b to 1".toByteArray ∧
    ∃ lines, merge several (disk "set b to 1") file = .ok { text := Text.joinLines lines } ∧
      lines = ["set b to 6  ; by hand (set by MO2 via Wizard, was 1)",
        "set b to 6  ; by hand (set by MO2 via Wizard, was 1)",
        "SetGS d 7  ; by hand (set by MO2 via Wizard)"] := by
  have hc : areCommands several = true := by decide +kernel
  have hread : (disk "set b to 1").read file = .ok "set b to 1".toByteArray := rfl
  obtain ⟨lines, hchecked, hmerge⟩ := merge_of_isValidUTF8 hc hread "set b to 1".isValidUTF8
  have hlines : Checked.mergeInto several (fileLines "set b to 1") =
    .ok ["set b to 6  ; by hand (set by MO2 via Wizard, was 1)",
      "set b to 6  ; by hand (set by MO2 via Wizard, was 1)",
      "SetGS d 7  ; by hand (set by MO2 via Wizard)"] := rfl
  exact ⟨hc, hread, lines, hmerge, Except.ok.inj (hchecked.symm.trans hlines)⟩

end Tweak.Merge

end ModWizard
