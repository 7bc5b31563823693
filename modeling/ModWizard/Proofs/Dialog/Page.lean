import ModWizard.Dialog.QuestionPage
import ModWizard.Dialog.CompletePage

/-!
# What a page presents

The page of a question presents the question that it was last asked, as long as it could show
it: its title is the description, its rows hold the answers.  Choosing among the answers and
giving the focus leave this as it is.
-/

namespace ModWizard.Dialog

namespace QuestionPage

variable {images : Images} {p : QuestionPage} {k : String} {q : Question}

/-- The answers in the rows. -/
def answers (p : QuestionPage) : List Answer := p.rows.map (·.answer)

/-- That a page presents a question of some key. -/
structure Presents (p : QuestionPage) (k : String) (q : Question) : Prop where
  asked_eq : p.asked = .question k q
  title_eq : p.title = q.description
  answers_eq : p.answers = q.answers

/-- A page presents what another one does that was asked the same and has the same title and
answers. -/
theorem Presents.congr {p' : QuestionPage} (h : p.Presents k q) (ha : p'.asked = p.asked)
    (ht : p'.title = p.title) (hr : p'.answers = p.answers) : p'.Presents k q :=
  ⟨ha.trans h.asked_eq, ht.trans h.title_eq, hr.trans h.answers_eq⟩

/-- A page that presents a question has a row for each answer. -/
theorem Presents.length_rows (h : p.Presents k q) : q.answers.length = p.rows.length := by
  rw [← h.answers_eq, answers, List.length_map]

/-! ## Choosing -/

@[simp] theorem asked_setCurrent (row : Nat) : (p.setCurrent images row).asked = p.asked := by
  unfold setCurrent
  split
  · rfl
  · split <;> rfl

@[simp] theorem title_setCurrent (row : Nat) : (p.setCurrent images row).title = p.title := by
  unfold setCurrent
  split
  · rfl
  · split <;> rfl

@[simp] theorem rows_setCurrent (row : Nat) : (p.setCurrent images row).rows = p.rows := by
  unfold setCurrent
  split
  · rfl
  · split <;> rfl

/-- A row that is there can be made current. -/
theorem current_setCurrent {row : Nat} (h : row < p.rows.length) :
    (p.setCurrent images row).current = some row := by
  unfold setCurrent
  split
  · assumption
  · rw [List.getElem?_eq_getElem h]

/-- Another current row leaves what is presented. -/
theorem Presents.setCurrent (h : p.Presents k q) (row : Nat) :
    (p.setCurrent images row).Presents k q :=
  h.congr (asked_setCurrent row) (title_setCurrent row) (by simp only [answers, rows_setCurrent])

/-- A change of the check mark leaves the answers. -/
theorem answers_setChecked (row : Nat) (on : Bool) :
    (p.setChecked row on).answers = p.answers := by
  apply List.ext_getElem?
  intro i
  simp only [answers, setChecked, List.getElem?_map, List.getElem?_modify]
  split
  · cases p.rows[i]? <;> rfl
  · cases p.rows[i]? <;> rfl

/-- Another check mark leaves what is presented. -/
theorem Presents.setChecked (h : p.Presents k q) (row : Nat) (on : Bool) :
    (p.setChecked row on).Presents k q :=
  h.congr rfl rfl (answers_setChecked row on)

/-- The focus leaves what is presented. -/
theorem Presents.focus (h : p.Presents k q) : p.focus.Presents k q := h.congr rfl rfl rfl

/-! ## Asking -/

/-- Answers written to as many rows are the answers in the rows. -/
theorem answers_zipWith {rows : List Row} {as : List Answer} (h : as.length = rows.length) :
    (List.zipWith (fun (r : Row) a => { r with answer := a }) rows as).map (·.answer) = as := by
  rw [List.map_zipWith]
  calc
    _ = List.zipWith (fun _ a => a) rows as := rfl
    _ = as := by
      apply List.ext_getElem (by simp [h])
      intro i _ _
      simp

@[simp] theorem asked_fill : (p.fill images q).asked = p.asked := by
  simp only [fill]
  split <;> simp

@[simp] theorem title_fill : (p.fill images q).title = q.description := by
  simp only [fill]
  split <;> simp

/-- A filled page has the answers of the question in its rows, with the check marks that were
there. -/
theorem rows_fill : (p.fill images q).rows =
    List.zipWith (fun (r : Row) a => { r with answer := a }) p.rows q.answers := by
  simp only [fill]
  split <;> simp

/-- A page that is filled with as many answers as it has rows presents the question. -/
theorem presents_fill (ha : p.asked = .question k q) (h : q.answers.length = p.rows.length) :
    (p.fill images q).Presents k q where
  asked_eq := asked_fill.trans ha
  title_eq := title_fill
  answers_eq := by rw [answers, rows_fill, answers_zipWith h]

/-- A page shows what it is asked if that is a question with as many answers as it has rows. -/
theorem ask_eq_none_iff {s : Script.Stop} :
    (p.ask images s).2 = none ↔ ∃ k q, s = .question k q ∧ q.answers.length = p.rows.length := by
  cases s with
  | question k q =>
    simp only [ask]
    split
    · rename_i h
      exact iff_of_true rfl ⟨k, q, rfl, h⟩
    · rename_i h
      refine iff_of_false nofun ?_
      rintro ⟨_, _, hs, hl⟩
      cases hs
      exact h hl
  | _ => exact iff_of_false nofun nofun

/-- A page that shows a question it is asked presents it. -/
theorem presents_ask (h : (p.ask images (.question k q)).2 = none) :
    (p.ask images (.question k q)).1.Presents k q := by
  have hl : q.answers.length = p.rows.length := by
    obtain ⟨_, _, hs, hl⟩ := ask_eq_none_iff.mp h
    cases hs
    exact hl
  simp only [ask, if_pos hl]
  exact presents_fill rfl hl

/-- A page that cannot show what it is asked takes note of it, and stays as it is else. -/
theorem ask_of_refused {s : Script.Stop} (h : (p.ask images s).2 ≠ none) :
    (p.ask images s).1 = { p with asked := s } := by
  cases s with
  | question k q =>
    simp only [ask] at h ⊢
    split
    · rename_i hl
      rw [if_pos hl] at h
      exact absurd rfl h
    · rfl
  | _ => rfl

/-! ## The page at first -/

/-- A new page presents its question, before answers are chosen on it. -/
theorem presents_blank : (blank images k q).Presents k q := by
  unfold blank
  exact presents_fill rfl (by simp)

/-- Choosing answers leaves what is presented. -/
theorem Presents.choose (h : p.Presents k q) (kind : Question.Kind) (places : List Nat) :
    (p.choose images kind places).Presents k q := by
  cases kind with
  | many =>
    refine h.congr rfl rfl ?_
    simp only [QuestionPage.choose, answers, List.map_map]
    apply List.ext_getElem?
    intro i
    simp only [List.getElem?_map, List.getElem?_zipIdx]
    cases p.rows[i]? <;> rfl
  | one =>
    simp only [QuestionPage.choose]
    induction places generalizing p with
    | nil => exact h
    | cons i is ih => exact ih (h.setCurrent i)
  | display => exact h

/-- A new page presents its question. -/
theorem presents_create {remembered : Option (List String)}
    (h : create images remembered k q = .ok p) : p.Presents k q := by
  unfold create at h
  cases hp : presets q remembered with
  | error f => rw [hp] at h; cases h
  | ok places =>
    rw [hp] at h
    cases h
    exact presents_blank.choose q.kind places

end QuestionPage

namespace CompletePage

/-- The page with a row of the tweak files made current, if none was. -/
theorem setRow_of_row_eq_none {p : CompletePage} (h : p.row = none) {i : Nat}
    (hi : i < p.files.length) :
    p.setRow i = { p with row := some i, text := Tweak.render (p.files.get ⟨i, hi⟩).tweaks } := by
  simp [setRow, h, List.getElem?_eq_getElem hi]

/-- A row of the tweak files that is not there cannot be made current. -/
theorem setRow_of_length_le {p : CompletePage} {i : Nat} (hi : p.files.length ≤ i) :
    p.setRow i = p := by
  unfold setRow
  split
  · rfl
  · rw [List.getElem?_eq_none hi]

@[simp] theorem files_setRow (p : CompletePage) (i : Nat) : (p.setRow i).files = p.files := by
  unfold setRow
  split
  · rfl
  · split <;> rfl

/-- One row made current after another, on a page where none was: the last that is there is
current. -/
theorem setRow_setRow {p : CompletePage} (h : p.row = none) (i j : Nat) :
    (p.setRow i).setRow j = p.setRow (if j < p.files.length then j else i) := by
  by_cases hj : j < p.files.length
  · rw [if_pos hj]
    by_cases hi : i < p.files.length
    · rw [setRow_of_row_eq_none h hi, setRow_of_row_eq_none h hj]
      by_cases hij : i = j
      · subst hij
        simp [setRow]
      · simp [setRow, hij, List.getElem?_eq_getElem hj]
    · rw [setRow_of_length_le (Nat.le_of_not_lt hi)]
  · rw [if_neg hj, setRow_of_length_le (by simpa using hj)]

/-- A page for an outcome on which the user looked at one tweak file after another is the page
for the outcome on which the user looked at one. -/
theorem setRow_setRow_create (packages : List Package) (o : Outcome) (i j : Nat) :
    ∃ l, ((create packages o).setRow i).setRow j = (create packages o).setRow l := by
  obtain ⟨p, hp, hc⟩ : ∃ p : CompletePage, p.row = none ∧ create packages o = p.setRow 0 :=
    ⟨_, rfl, rfl⟩
  refine ⟨if j < p.files.length then j else i, ?_⟩
  rw [hc, setRow_setRow hp 0 i, setRow_setRow hp _ j, setRow_setRow hp 0 _]
  congr 1
  split <;> simp_all

/-- Looking at a tweak file changes nothing but what is looked at. -/
theorem setRow_eq (p : CompletePage) (i : Nat) :
    p.setRow i = { p with row := (p.setRow i).row, text := (p.setRow i).text } := by
  unfold setRow
  split
  · rfl
  · split <;> rfl

@[simp] theorem checkedPackages_setRow (p : CompletePage) (i : Nat) :
    (p.setRow i).checkedPackages = p.checkedPackages := by
  rw [setRow_eq]
  rfl

@[simp] theorem plugins_setRow (p : CompletePage) (i : Nat) : (p.setRow i).plugins = p.plugins := by
  rw [setRow_eq]

@[simp] theorem renames_setRow (p : CompletePage) (i : Nat) :
    (p.setRow i).renames = p.renames := by
  rw [setRow_eq]

@[simp] theorem tweaks_setRow (p : CompletePage) (i : Nat) : (p.setRow i).tweaks = p.tweaks := by
  rw [setRow_eq]
  rfl

/-- The sub-packages checked on the page for an outcome are those that it names. -/
theorem checkedPackages_create (packages : List Package) (o : Outcome) :
    (create packages o).checkedPackages =
      (packages.map (·.name)).filter o.packages.contains := by
  unfold create
  rw [checkedPackages_setRow, checkedPackages, List.filter_map, List.map_map, List.filter_map]
  rfl

/-- The plugins on the page for an outcome are those of all sub-packages; checked are those that the
outcome names. -/
theorem plugins_create (packages : List Package) (o : Outcome) :
    (create packages o).plugins =
      (pluginNames packages).map fun n => ⟨n, o.plugins.contains n⟩ := by
  unfold create
  rw [plugins_setRow]

theorem renames_create (packages : List Package) (o : Outcome) :
    (create packages o).renames = o.renames := by
  unfold create
  rw [renames_setRow]

/-- The tweaks on the page for an outcome are those of the outcome, with slashes in the names
of their files. -/
theorem tweaks_create (packages : List Package) (o : Outcome) : (create packages o).tweaks =
    Table.ofList (o.tweaks.entries.map fun f => (slashed f.1, f.2)) := by
  unfold create
  rw [tweaks_setRow, tweaks, List.map_map]
  rfl

end CompletePage

end ModWizard.Dialog
