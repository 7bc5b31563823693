import ModWizard.Proofs.Tweak.Treatment

/-!
# The letter case of sections

Two lists of tweaks that differ only in the letter case of their sections have the same last edits,
and disable the same settings at last.  But they need not keep the same: a name that is not written
in small letters begins its section anew.  So the lines of a file come out the same under both
exactly if both treat every line alike, or a line already has the text that one of them gives it.
-/

namespace ModWizard

/-- An edit with its section in small letters. -/
def Edit.lowered (e : Edit) : Edit := { e with sectionName := Text.lower e.sectionName }

namespace Tweak

/-- A tweak with its section in small letters. -/
def lowered : Tweak → Tweak
  | edit e => edit e.lowered
  | disable s t => disable (Text.lower s) t

@[simp] theorem sectionName_lowered (t : Tweak) :
    t.lowered.sectionName = Text.lower t.sectionName := by
  cases t <;> rfl

@[simp] theorem edit?_lowered (t : Tweak) : t.lowered.edit? = t.edit?.map Edit.lowered := by
  cases t <;> rfl

variable {ts us : List Tweak}

theorem isCommand_iff_lowered {t : Tweak} :
    t.isCommand = true ↔ ∃ k ∈ Keyword.all, k.key = t.lowered.sectionName := by
  simp [isCommand, Keyword.ofSection?, List.find?_isSome]

/-- Whether tweaks are for console commands does not depend on the letter case. -/
theorem areCommands_of_map_lowered_eq (h : ts.map lowered = us.map lowered)
    (hc : areCommands ts = true) : areCommands us = true := by
  rw [areCommands, List.all_eq_true] at hc ⊢
  intro u hu
  have hmem : u.lowered ∈ ts.map lowered := h ▸ List.mem_map_of_mem hu
  obtain ⟨t, ht, htu⟩ := List.mem_map.mp hmem
  rw [isCommand_iff_lowered, ← htu]
  exact isCommand_iff_lowered.mp (hc t ht)

namespace Merge

variable {l : Line}

theorem map_lowered_filterMap_edit? (ts : List Tweak) :
    (ts.filterMap edit?).map Edit.lowered = (ts.map lowered).filterMap edit? := by
  rw [List.map_filterMap, List.filterMap_map]
  exact List.filterMap_congr fun t _ => (edit?_lowered t).symm

/-- The last edit of a setting, in small letters, is the last among the edits in small letters. -/
theorem map_lowered_last? (ts : List Tweak) (k : Keyword) (s : String) :
    (last? (editEntries ts) k s).map Edit.lowered =
      ((ts.map lowered).filterMap edit?).reverse.find? fun e =>
        e.sectionName == k.key && e.setting == s := by
  rw [← map_lowered_filterMap_edit?, ← List.map_reverse, List.find?_map, last?, editEntries,
    ← List.map_reverse, List.find?_map, Option.map_map, Option.map_map]
  rfl

/-- An edit is written the same however its section is. -/
theorem rewriting?_congr (h : ts.map lowered = us.map lowered) (l : Line) :
    rewriting? ts l = rewriting? us l := by
  have hlast : ∀ (ts : List Tweak) (a : Assignment),
      (last? (editEntries ts) a.keyword a.setting).map (replacement a) =
        ((last? (editEntries ts) a.keyword a.setting).map Edit.lowered).map (replacement a) := by
    intro ts a
    rw [Option.map_map]
    rfl
  simp only [rewriting?, hlast, map_lowered_last?, h]

/-- The line of an edit does not begin as a marked one. -/
theorem rewriting?_ne_mark (ts : List Tweak) (l : Line) (t : String) :
    rewriting? ts l ≠ some (";-" ++ t) := by
  intro h
  obtain ⟨a, -, h⟩ := Option.bind_eq_some_iff.mp h
  obtain ⟨e, -, h⟩ := Option.map_eq_some_iff.mp h
  have hhead := congrArg (·.toList.head?) h
  simp only [toList_replacement, String.toList_append] at hhead
  cases hk : a.keyword <;> simp [hk, Keyword.spelling] at hhead

/-- A line that is replaced becomes the line of an edit. -/
theorem rewriting?_of_treatment {earlier : List Line} (h : treatment ts earlier l = .replaced) :
    rewriting? ts l = some (written ts l .replaced) := by
  suffices hsome : (rewriting? ts l).isSome = true by
    obtain ⟨t, ht⟩ := Option.isSome_iff_exists.mp hsome
    rw [written, ht, Option.getD_some]
  unfold treatment at h
  split at h
  next => cases h
  next a ha =>
    split at h
    next hedits => simpa [rewriting?, ha] using hedits.1.1
    next => split at h <;> cases h

/-- Whether a line comes out the same under two lists of tweaks: both treat it alike, or one leaves
it and the other gives it the text that it has. -/
def Alike (ts us : List Tweak) (earlier : List Line) (l : Line) : Prop :=
  treatment ts earlier l = treatment us earlier l ∨
    treatment ts earlier l ≠ .marked ∧ treatment us earlier l ≠ .marked ∧
      rewriting? ts l = some l.text

instance (ts us : List Tweak) (earlier : List Line) (l : Line) :
    Decidable (Alike ts us earlier l) :=
  inferInstanceAs (Decidable (_ ∨ _))

theorem mark_ne_self (t : String) : ";-" ++ t ≠ t := by
  intro h
  have hlength := congrArg String.length h
  simp at hlength

theorem written_eq_iff (h : ts.map lowered = us.map lowered) (earlier : List Line) (l : Line) :
    written ts l (treatment ts earlier l) = written us l (treatment us earlier l) ↔
      Alike ts us earlier l := by
  have hrewriting := rewriting?_congr h l
  -- a line that one list replaces and the other leaves or marks
  have hleft : ∀ t : String, treatment ts earlier l = .replaced →
      (written ts l .replaced = t ↔ rewriting? ts l = some t) := fun t ht => by
    rw [rewriting?_of_treatment ht, Option.some.injEq]
  have hright : ∀ t : String, treatment us earlier l = .replaced →
      (t = written us l .replaced ↔ rewriting? ts l = some t) := fun t hu => by
    rw [hrewriting, rewriting?_of_treatment hu, Option.some.injEq, eq_comm]
  have hmark := rewriting?_ne_mark ts l l.text
  have hself := mark_ne_self l.text
  rw [Alike]
  cases ht : treatment ts earlier l with
  | replaced =>
    cases hu : treatment us earlier l with
    | replaced => simp [written, hrewriting]
    | marked => simp [hleft _ ht, hmark]
    | unchanged => simp [hleft _ ht]
  | marked =>
    cases hu : treatment us earlier l with
    | replaced => simp [hright _ hu, hmark]
    | marked => simp
    | unchanged => simp [hself]
  | unchanged =>
    cases hu : treatment us earlier l with
    | replaced => simp [hright _ hu]
    | marked => simp [hself.symm]
    | unchanged => simp

/-- The lines of a file that can be read come out the same under two lists of tweaks for console
commands that differ only in the letter case of their sections exactly if each line does. -/
theorem render_recased_iff {disk : Disk} {file : Path} {content : String}
    (hc : areCommands ts = true) (h : ts.map lowered = us.map lowered)
    (hr : readText disk file = .ok content) :
    ∃ above above' below below',
      mergeInto ts (fileLines content) = .ok (above ++ below) ∧
      mergeInto us (fileLines content) = .ok (above' ++ below') ∧
      render ts disk file = .ok (Text.joinLines (above ++ below)) ∧
      render us disk file = .ok (Text.joinLines (above' ++ below')) ∧
      above.length = (fileLines content).length ∧ above'.length = (fileLines content).length ∧
      (above = above' ↔ ∀ i < (fileLines content).length, ∀ l ∈ (fileLines content)[i]?,
        Alike ts us ((fileLines content).take i) l) := by
  have hus := List.all_eq_true.mp (areCommands_of_map_lowered_eq h hc)
  have hts := List.all_eq_true.mp hc
  obtain ⟨below, -, -, hinto⟩ := exists_mergeInto ts (fileLines content)
  obtain ⟨below', -, -, hinto'⟩ := exists_mergeInto us (fileLines content)
  refine ⟨_, _, below, below', hinto, hinto', render_of_mergeInto hr hinto,
    render_of_mergeInto hr hinto', length_mergeLines _, length_mergeLines _, ?_⟩
  rw [List.ext_getElem?_iff]
  simp only [getElem?_above, mergeLine_eq_written hts, mergeLine_eq_written hus]
  constructor
  · intro heq i _ l hl
    have hline := heq i
    rw [hl] at hline
    exact (written_eq_iff h _ l).mp (Option.some.inj hline)
  · intro halike i
    cases hl : (fileLines content)[i]? with
    | none => rfl
    | some l =>
      have hi : i < (fileLines content).length := (List.getElem?_eq_some_iff.mp hl).1
      exact congrArg some ((written_eq_iff h _ l).mpr (halike i hi l hl))

open Sample in
/-- Sections in different letter case, one tweak for each, are the same. -/
theorem render_recased_mixed :
    areCommands mixed = true ∧
    mixed.map lowered = [give "seT" "a" 5, .disable "setgs" "b"].map lowered ∧
    readText (disk crowded) file = .ok crowded ∧
    ∃ above below below',
      render mixed (disk crowded) file = .ok (Text.joinLines (above ++ below)) ∧
      render [give "seT" "a" 5, .disable "setgs" "b"] (disk crowded) file =
        .ok (Text.joinLines (above ++ below')) ∧
      above.length = 5 := by
  have hc : areCommands mixed = true := by decide +kernel
  have h : mixed.map lowered = [give "seT" "a" 5, .disable "setgs" "b"].map lowered := by
    decide +kernel
  obtain ⟨above, above', below, below', -, -, hrender, hrender', hlength, -, hiff⟩ :=
    render_recased_iff hc h (readText_disk crowded)
  obtain rfl : above = above' := hiff.mpr (by decide +kernel)
  exact ⟨hc, h, readText_disk crowded, above, below, below', hrender, hrender',
    hlength.trans (by decide +kernel)⟩

open Sample in
/-- A section that is written with a capital loses its first edit, and its first disabled
setting. -/
theorem not_render_recased :
    ([give "Set" "a" 5, give "Set" "b" 6].map lowered =
        [give "set" "a" 5, give "set" "b" 6].map lowered ∧
      mergeInto [give "Set" "a" 5, give "Set" "b" 6] (fileLines "set a to 1\nset b to 2\n") =
        .ok (["set a to 1", "set b to 6  ; by hand (set by MO2 via Wizard, was 2)"] ++
          ["set b to 6  ; by hand (set by MO2 via Wizard, was 2)"]) ∧
      mergeInto [give "set" "a" 5, give "set" "b" 6] (fileLines "set a to 1\nset b to 2\n") =
        .ok (["set a to 5  ; by hand (set by MO2 via Wizard, was 1)",
            "set b to 6  ; by hand (set by MO2 via Wizard, was 2)"] ++
          ["set b to 6  ; by hand (set by MO2 via Wizard, was 2)"])) ∧
    [.disable "Set" "a", .disable "Set" "b"].map lowered =
        [.disable "set" "a", .disable "set" "b"].map lowered ∧
      mergeInto [.disable "Set" "a", .disable "Set" "b"] (fileLines "set a to 1\nset b to 2\n") =
        .ok ["set a to 1", ";-set b to 2"] ∧
      mergeInto [.disable "set" "a", .disable "set" "b"] (fileLines "set a to 1\nset b to 2\n") =
        .ok [";-set a to 1", ";-set b to 2"] := by
  refine ⟨⟨by decide +kernel, rfl, rfl⟩, by decide +kernel, rfl, rfl⟩

end Merge

end Tweak

end ModWizard
