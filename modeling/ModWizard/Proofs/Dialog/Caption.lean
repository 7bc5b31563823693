import ModWizard.Proofs.Dialog.Failure

/-!
# Description and picture

Beside its answers the page of a question shows the description and the picture of one of them.
They change when another row is made current, and only then: a page that is asked a question
anew keeps them, even if its current row gets another answer.  So they belong to the current
row throughout a run only if no page is asked a question whose answer in the current row has
another description or picture than the page shows (`always_truthful_iff`).
-/

namespace ModWizard

/-- The answer at a place, where the script stopped at a question. -/
def Script.Stop.answer? : Script.Stop → Nat → Option Answer
  | .question _ q, i => q.answers[i]?
  | _, _ => none

namespace Dialog

open Script (Stop)

/-- That a picture is that of an image: the extracted file if there is one, and else blank. -/
inductive Depicts (images : Images) : Option String → Picture → Prop
  | without : Depicts images none .blank
  | unnamed : Depicts images (some "") .blank
  | missing {s : String} (h : images.get? (Path.ofString s) = none) :
    Depicts images (some s) .blank
  | extracted {s : String} {file : Path} (hs : s ≠ "")
    (h : images.get? (Path.ofString s) = some file) : Depicts images (some s) (.file file.text)

/-- An image has one picture. -/
theorem depicts_iff {images : Images} {image : Option String} {picture : Picture} :
    Depicts images image picture ↔ picture = .ofImage images image := by
  constructor
  · rintro (_ | _ | h | ⟨hs, h⟩)
    · rfl
    · rfl
    · simp [Picture.ofImage, h]
    · simp [Picture.ofImage, hs, h]
  · rintro rfl
    cases image with
    | none => exact .without
    | some s =>
      by_cases hs : s = ""
      · subst hs
        exact .unnamed
      · cases h : images.get? (Path.ofString s) with
        | none => simpa [Picture.ofImage, hs, h] using Depicts.missing h
        | some file => simpa [Picture.ofImage, hs, h] using Depicts.extracted hs h

instance (images : Images) (image : Option String) (picture : Picture) :
    Decidable (Depicts images image picture) :=
  decidable_of_iff _ depicts_iff.symm

namespace QuestionPage

variable {images : Images} {p : QuestionPage} {k : String} {q : Question} {s : Stop}

/-- That description and picture shown on a page are those of the answer which a stop has in the
current row. -/
def Fits (images : Images) (p : QuestionPage) (s : Stop) : Prop :=
  ∀ i ∈ p.current, ∃ a ∈ s.answer? i, p.text = a.description ∧ Depicts images a.image p.picture

instance (images : Images) (p : QuestionPage) (s : Stop) : Decidable (p.Fits images s) :=
  inferInstanceAs (Decidable (∀ i ∈ p.current,
    ∃ a ∈ s.answer? i, p.text = a.description ∧ Depicts images a.image p.picture))

theorem fits_of_current_eq_none (h : p.current = none) : p.Fits images s := by
  intro i hi
  rw [h] at hi
  cases hi

/-- A row made current brings its description and its picture. -/
theorem fits_setCurrent (hp : p.Presents k q) (h : p.Fits images (.question k q)) (row : Nat) :
    (p.setCurrent images row).Fits images (.question k q) := by
  unfold setCurrent
  split
  · exact h
  · cases hr : p.rows[row]? with
    | none => exact h
    | some r =>
      rintro i hi
      cases hi
      have ha : q.answers[row]? = some r.answer := by
        rw [← hp.answers_eq, answers, List.getElem?_map, hr, Option.map_some]
      exact ⟨r.answer, ha, rfl, depicts_iff.mpr rfl⟩

/-- A page filled with the answers of a question shows what belongs to its current row if it did
so before, or if no row was current. -/
theorem fits_fill (ha : p.asked = .question k q) (hl : q.answers.length = p.rows.length) :
    (p.fill images q).Fits images (.question k q) ↔ p.Fits images (.question k q) := by
  simp only [fill]
  split
  · rename_i hc
    have hc : p.current = none := Option.isNone_iff_eq_none.mp hc
    -- no row was current, and the first becomes it
    refine iff_of_true ?_ (fits_of_current_eq_none hc)
    apply fits_setCurrent
    · exact ⟨ha, rfl, answers_zipWith hl⟩
    · exact fits_of_current_eq_none hc
  · rfl

/-- A page that shows what it is asked takes note of it. -/
theorem asked_ask (h : (p.ask images s).2 = none) : (p.ask images s).1.asked = s := by
  obtain ⟨k, q, rfl, hl⟩ := ask_eq_none_iff.mp h
  exact (presents_ask h).asked_eq

/-- A page that shows what it is asked shows what belongs to its current row exactly if what it
showed before fits. -/
theorem fits_ask (h : (p.ask images s).2 = none) :
    (p.ask images s).1.Fits images s ↔ p.Fits images s := by
  obtain ⟨k, q, rfl, hl⟩ := ask_eq_none_iff.mp h
  simp only [ask, if_pos hl]
  exact fits_fill rfl hl

theorem fits_blank : (blank images k q).Fits images (.question k q) := by
  unfold blank
  rw [fits_fill rfl (by simp)]
  exact fits_of_current_eq_none rfl

theorem fits_choose (hp : p.Presents k q) (h : p.Fits images (.question k q))
    (kind : Question.Kind) (places : List Nat) :
    (p.choose images kind places).Fits images (.question k q) := by
  cases kind with
  | many => exact h
  | one =>
    simp only [choose]
    induction places generalizing p with
    | nil => exact h
    | cons i is ih => exact ih (hp.setCurrent i) (fits_setCurrent hp h i)
  | display => exact h

/-- A new page shows what belongs to its current row. -/
theorem fits_create {remembered : Option (List String)} (h : create images remembered k q = .ok p) :
    p.Fits images p.asked := by
  rw [(presents_create h).asked_eq]
  unfold create at h
  cases hp : presets q remembered with
  | error f => rw [hp] at h; cases h
  | ok places =>
    rw [hp] at h
    cases h
    exact fits_choose presents_blank fits_blank q.kind places

end QuestionPage

variable {setup : Setup} {d d' : Dialog}

/-- That every question's page in the stack shows description and picture of the answer which
what it was asked has in the current row. -/
def Truthful (setup : Setup) (d : Dialog) : Prop :=
  ∀ k p, Page.question k ∈ d.stack.pages → d.pages.get? k = some p → p.Fits setup.images p.asked

/-- That an event asks a page what has another description or picture in the current row than the
page shows. -/
def Misleads (setup : Setup) (d : Dialog) : Event → Prop
  | .act a => (d.act setup a).2 = none ∧ ∃ s ∈ d.comesTo setup a,
    ∃ x ∈ (d.pressed setup a).knownPage? s, ¬ x.2.Fits setup.images s
  | .ask _ => False

instance (d : Dialog) : ∀ e, Decidable (Misleads setup d e)
  | .act a => inferInstanceAs (Decidable ((d.act setup a).2 = none ∧ ∃ s ∈ d.comesTo setup a,
      ∃ x ∈ (d.pressed setup a).knownPage? s, ¬ x.2.Fits setup.images s))
  | .ask _ => inferInstanceAs (Decidable False)

/-- A page made for a question shows what belongs to its current row. -/
theorem fits_makePage {s : Stop} {k : String} {p : QuestionPage}
    (hm : makePage setup d s = .ok (.question k, d')) (hp : d'.pages.get? k = some p) :
    p.Fits setup.images p.asked := by
  obtain ⟨-, -, ⟨_, q, -, rfl, -⟩, -⟩ := shows_makePage hm
  simp only [makePage] at hm
  cases hc : QuestionPage.create setup.images (setup.remembered.get? q.description) k q with
  | error f => rw [hc] at hm; cases hm
  | ok p₁ =>
    rw [hc] at hm
    cases hm
    obtain rfl : p₁ = p := by simpa using hp
    exact QuestionPage.fits_create hc

namespace Truthful

theorem congr (h : Truthful setup d) (hs : SameScreen d d') : Truthful setup d' := by
  intro k p hk hp
  rw [hs.stack] at hk
  rw [hs.pages] at hp
  exact h k p hk hp

/-- A page may be changed if it shows what belongs to its current row then, or if it is not in
the stack. -/
theorem setPage {k : String} {p' : QuestionPage} (h : Truthful setup d)
    (hp' : Page.question k ∈ d.stack.pages → p'.Fits setup.images p'.asked) :
    Truthful setup (d.setPage k p') := by
  intro k' p hk' hp
  rw [pages_setPage, Table.get?_insert] at hp
  split at hp
  · rename_i he
    subst he
    cases hp
    exact hp' hk'
  · exact h k' p hk' hp

theorem setCurrentRow (h : Truthful setup d) (hpre : Presenting d) (row : Nat) :
    Truthful setup (d.setCurrentRow setup row) := by
  unfold Dialog.setCurrentRow
  split
  · rename_i k p ht
    obtain ⟨-, hp⟩ := get?_of_topQuestion? ht
    refine h.setPage fun hk => ?_
    obtain ⟨p₁, q, hp₁, hq⟩ := hpre k hk
    cases hp.symm.trans hp₁
    have hfits := h k p hk hp
    rw [QuestionPage.asked_setCurrent]
    rw [hq.asked_eq] at hfits ⊢
    exact QuestionPage.fits_setCurrent hq hfits row
  · exact h

theorem pressed (h : Truthful setup d) (hpre : Presenting d) (a : Action) :
    Truthful setup (d.pressed setup a) := by
  obtain hp | ⟨row, hp⟩ := pressed_eq setup d a <;> rw [hp]
  · exact h
  · exact h.setCurrentRow hpre row

theorem setCheckedRow (h : Truthful setup d) (row : Nat) (on : Bool) :
    Truthful setup (d.setCheckedRow row on) := by
  unfold Dialog.setCheckedRow
  split
  · rename_i k p ht
    exact h.setPage fun hk => h k p hk (get?_of_topQuestion? ht).2
  · exact h

theorem setTweakRow (h : Truthful setup d) (row : Nat) : Truthful setup (d.setTweakRow row) :=
  fun k p hk => h k p (question_mem_of_setTweakRow hk)

/-- The focus leaves what is shown. -/
theorem update (h : Truthful setup d) : Truthful setup d.update := by
  intro k p hk hp
  rw [stack_update] at hk
  rw [get?_update] at hp
  split at hp
  · obtain ⟨p₀, hp₀, rfl⟩ := Option.map_eq_some_iff.mp hp
    exact h k p₀ hk hp₀
  · exact h k p hk hp

theorem back (h : Truthful setup d) : Truthful setup d.back :=
  update (d := { d with stack := d.stack.pop }) fun k p hk =>
    h k p (Stack.pages_pop_sublist.subset hk)

theorem touch (h : Truthful setup d) (hpre : Presenting d) (ht : Touch setup d d') :
    Truthful setup d' := by
  cases ht with
  | aside hs => exact h.congr hs
  | current row hs => exact (h.setCurrentRow hpre row).congr hs
  | check row on => exact h.setCheckedRow row on
  | tweak row => exact h.setTweakRow row
  | back => exact h.back

/-- A page pushed upon the stack has to show what belongs to its current row itself. -/
theorem push {P : Page} (h : Truthful setup d)
    (hother : ∀ k, P ≠ .question k → d'.pages.get? k = d.pages.get? k)
    (hP : ∀ k p, P = .question k → d'.pages.get? k = some p → p.Fits setup.images p.asked) :
    Truthful setup { d' with stack := d.stack.push P }.update := by
  refine update fun k p hk hp => ?_
  obtain ⟨Ps, hPs, hsub⟩ := Stack.pages_push (s := d.stack) (P := P)
  rw [hPs, List.mem_append, List.mem_singleton] at hk
  by_cases hPk : P = .question k
  · exact hP k p hPk hp
  · have hmem : Page.question k ∈ d.stack.pages :=
      hsub.subset (hk.resolve_right fun he => hPk he.symm)
    exact h k p hmem ((hother k hPk).symm.trans hp)

/-- A stop that is shown on a page it has keeps the stack truthful if what the page shows fits. -/
theorem showStop_of_known {s : Stop} {k : String} {p : QuestionPage} (h : Truthful setup d)
    (hk : s.key? = some k) (hp : d.pages.get? k = some p)
    (hsh : (p.ask setup.images s).2 = none) (hfits : p.Fits setup.images s) :
    Truthful setup (showStop setup d s).1 := by
  rw [showStop_of_known_of_shown hk hp hsh]
  refine h.push (fun k' hk' => ?_) ?_
  · have hne : k ≠ k' := fun he => hk' (by rw [he])
    simp [hne]
  · rintro k' p' he hp'
    cases he
    obtain rfl : (p.ask setup.images s).1 = p' := by simpa using hp'
    rw [QuestionPage.asked_ask hsh]
    exact (QuestionPage.fits_ask hsh).mpr hfits

/-- A stop that is shown on a new page keeps the stack truthful. -/
theorem showStop_of_unknown {s : Stop} (h : Truthful setup d) (hk : d.knownPage? s = none)
    (hsh : (showStop setup d s).2 = none) : Truthful setup (showStop setup d s).1 := by
  obtain ⟨P, d₁, hm, he⟩ := exists_makePage_of_shown hk hsh
  obtain ⟨-, -, -, hother⟩ := shows_makePage hm
  rw [he]
  refine h.push hother ?_
  rintro k p rfl hp
  exact fits_makePage hm hp

/-- An action that does not mislead keeps the stack truthful, as long as it brings no page in the
stack what the page cannot show. -/
theorem act {a : Action} (h : Truthful setup d) (hpre : Presenting d)
    (hg : ¬ Garbles setup d (.act a)) (hm : ¬ Misleads setup d (.act a)) :
    Truthful setup (d.act setup a).1 := by
  have hpressed := h.pressed hpre a
  by_cases hf : (d.act setup a).2 = none
  · cases hc : d.comesTo setup a with
    | none => exact h.touch hpre (act_of_comesTo_eq_none hc)
    | some s =>
      obtain ⟨d', hd', -, ha⟩ := act_of_comesTo hc
      have hclear : ∀ x ∈ d'.knownPage? s, x.2.Fits setup.images s := by
        rw [hd'.knownPage?]
        exact fun x hx => Decidable.byContradiction fun hnot => hm ⟨hf, s, hc, x, hx, hnot⟩
      rw [ha] at hf ⊢
      cases hk : d'.knownPage? s with
      | none => exact (hpressed.congr hd').showStop_of_unknown hk hf
      | some x =>
        obtain ⟨k, p⟩ := x
        obtain ⟨hkey, hp⟩ := knownPage?_eq_some_iff.mp hk
        rw [fault_showStop_of_known hkey hp] at hf
        exact (hpressed.congr hd').showStop_of_known hkey hp hf (hclear _ hk)
  · -- a page that takes note of what it cannot show is not in the stack
    obtain ⟨hs, -⟩ | ⟨s, k, p, hc, hk, -, -, hs⟩ := act_of_fault hf
    · exact hpressed.congr hs
    · have hnot := notMem_pressed_of_not_garbles hg hf hc hk
      exact (hpressed.setPage fun hmem => absurd hmem hnot).congr hs

/-- In a truthful stack what the page shown last showed before fits. -/
theorem fits_of_showStop {s : Stop} {k : String} {p : QuestionPage}
    (h : Truthful setup (showStop setup d s).1) (hk : s.key? = some k)
    (hp : d.pages.get? k = some p) (hsh : (p.ask setup.images s).2 = none) :
    p.Fits setup.images s := by
  rw [showStop_of_known_of_shown hk hp hsh] at h
  have hmem : Page.question k ∈ (d.stack.push (.question k)).pages := by
    obtain ⟨Ps, hPs, -⟩ := Stack.pages_push (s := d.stack) (P := .question k)
    simp [hPs]
  have hfits := h k (p.ask setup.images s).1.focus
  rw [stack_update, get?_update, top?, Stack.top?_push, if_pos rfl] at hfits
  have hfocus := hfits hmem (by simp)
  rw [← QuestionPage.fits_ask hsh]
  rwa [show (p.ask setup.images s).1.focus.asked = s from QuestionPage.asked_ask hsh] at hfocus

/-- An action that leaves the stack truthful does not mislead. -/
theorem not_misleads {a : Action} (h : Truthful setup (d.act setup a).1) :
    ¬ Misleads setup d (.act a) := by
  rintro ⟨hf, s, hc, ⟨k, p⟩, hx, hnot⟩
  obtain ⟨d', hd', -, ha⟩ := act_of_comesTo hc
  rw [ha] at hf h
  rw [← hd'.knownPage?] at hx
  obtain ⟨hkey, hp⟩ := knownPage?_eq_some_iff.mp hx
  rw [fault_showStop_of_known hkey hp] at hf
  exact hnot (h.fits_of_showStop hkey hp hf)

end Truthful

/-- The opened dialog is truthful. -/
theorem truthful_start {g : Guess} (h : start setup (blank g) = (d, none)) : Truthful setup d := by
  obtain ⟨P, d₁, s, -, hm, rfl⟩ := exists_makePage_of_start h
  refine Truthful.update fun k p hk hp => ?_
  rw [List.mem_singleton] at hk
  subst hk
  exact fits_makePage hm hp

/-- If every page in the stack shows throughout a run the description and the picture of the answer
in its current row, then no event of the run asks a page what has another description or picture
there.  In a run that brings no page in the stack what the page cannot show, this is all that is
needed. -/
theorem always_truthful_iff {g : Guess} {es : List Event}
    (h : start setup (blank g) = (d, none)) :
    (Always setup (Truthful setup) d es → Along setup (fun d e => ¬ Misleads setup d e) d es) ∧
    (Along setup (fun d e => ¬ Garbles setup d e) d es →
      (Always setup (Truthful setup) d es ↔
        Along setup (fun d e => ¬ Misleads setup d e) d es)) := by
  constructor
  · exact along_of_always (fun _ _ => Truthful.not_misleads) fun _ _ => id
  · intro hung
    exact always_iff_along (fun _ _ hpre hg => hpre.act hg)
      (fun _ _ hpre hg ht => ⟨Truthful.not_misleads, ht.act hpre hg⟩) (fun _ _ => id)
      (presenting_start h) hung (truthful_start h)

/-! ### Two questions on one page

The user goes on to the question "B", back again, and on to the question "C" with the same key,
which has other answers. -/

namespace OtherAnswers

open SharedKey (organizer answer question)

def described (name description image : String) : Answer := ⟨name, description, some image, none⟩

def script : Script where
  start := "a"
  nodes := .ofList
    [("a", ⟨"a", .question
       (question "A" [answer "left" (some "b"), answer "right" (some "c")] "e")⟩),
     ("b", ⟨"k", .question
       (question "B" [described "x" "of x" "x.png", described "y" "of y" "y.png"] "e")⟩),
     ("c", ⟨"k", .question
       (question "C" [described "u" "of u" "u.png", described "v" "of v" "v.png"] "e")⟩),
     ("e", ⟨"e", .done ⟨[], [], [], ∅, ∅⟩ none⟩)]

def branching : Setup where
  organizer := organizer
  script := script
  packages := []
  images := .ofList
    [(.ofString "x.png", .ofString "out/x.png"), (.ofString "u.png", .ofString "out/u.png")]
  remembered := ∅

/-- The dialog as it is opened. -/
def opened : Dialog := (start branching (blank ⟨"Mod", ["Mod"]⟩)).1

/-- Going on to "B", looking at its other answer, back and on to "B" again. -/
def returning : List Event :=
  [.act .next, .act (.setCurrent 1), .act .back, .act .next]

/-- Going on to "B", back, and on to "C". -/
def turning : List Event := [.act .next, .act .back, .act (.setCurrent 1), .act .next]

end OtherAnswers

open OtherAnswers in
/-- A page that is asked the same question again shows what belongs to its current row. -/
theorem always_truthful_returning :
    start branching (blank ⟨"Mod", ["Mod"]⟩) = (opened, none) ∧
    Along branching (fun d e => ¬ Garbles branching d e) opened returning ∧
    Always branching (Truthful branching) opened returning := by
  have hopened : start branching (blank ⟨"Mod", ["Mod"]⟩) = (opened, none) :=
    Prod.ext rfl (by decide +kernel)
  have hung : Along branching (fun d e => ¬ Garbles branching d e) opened returning := by
    decide +kernel
  have hclear : Along branching (fun d e => ¬ Misleads branching d e) opened returning := by
    decide +kernel
  exact ⟨hopened, hung, ((always_truthful_iff hopened).2 hung).mpr hclear⟩

open OtherAnswers in
/-- After the turn to "C" its page still shows the description and the picture of an answer to
"B". -/
theorem not_truthful_turning :
    start branching (blank ⟨"Mod", ["Mod"]⟩) = (opened, none) ∧
    Along branching (fun d e => ¬ Garbles branching d e) opened turning ∧
    ¬ Truthful branching (play branching opened turning).2 := by
  refine ⟨Prod.ext rfl (by decide +kernel), by decide +kernel, fun h => ?_⟩
  have hmem : Page.question "k" ∈ (play branching opened turning).2.stack.pages := by
    decide +kernel
  have hstale : ∀ p ∈ (play branching opened turning).2.pages.get? "k",
      ¬ p.Fits branching.images p.asked := by decide +kernel
  have hknown : ((play branching opened turning).2.pages.get? "k").isSome := by decide +kernel
  obtain ⟨p, hp⟩ := Option.isSome_iff_exists.mp hknown
  exact hstale p hp (h "k" p hmem hp)

end Dialog

end ModWizard
