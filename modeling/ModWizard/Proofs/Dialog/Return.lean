import ModWizard.Proofs.Dialog.Buttons
import ModWizard.Proofs.Dialog.Failure
import ModWizard.Proofs.Dialog.Undo

/-!
# A step back and on again

Going back takes the current page away, and going on from the page below brings it again: a
question's page from where it was kept, with all that was chosen on it, any other page made anew
(`Returns`).  This needs that the page below leads to what the current page shows, which is so
as long as the stack is coherent, and that the page is found where it is looked for.  A page that
is not a question's is not found any more once its key has been given to the page of a question
(`Supplanted`).
-/

namespace ModWizard.Dialog

open Script (Stop)

variable {setup : Setup} {d d' : Dialog}

/-! ## Asking for what is there -/

namespace QuestionPage

variable {images : Images} {p p' : QuestionPage} {k : String} {q : Question}

/-- That a row is current if there is one. -/
def Settled (p : QuestionPage) : Prop := p.current = none → p.rows = []

theorem Settled.setCurrent (h : p.Settled) (row : Nat) : (p.setCurrent images row).Settled := by
  unfold QuestionPage.setCurrent
  split
  · exact h
  · split
    · exact h
    · intro hc
      cases hc

theorem Settled.setChecked (h : p.Settled) (row : Nat) (on : Bool) :
    (p.setChecked row on).Settled := by
  intro hc
  simp [QuestionPage.setChecked, h hc]

/-- A page that is filled has a current row if it has a row. -/
theorem Settled.fill (h : p.Settled) : (p.fill images q).Settled := by
  simp only [QuestionPage.fill]
  split
  · rename_i hc
    have hrows := h (Option.isNone_iff_eq_none.mp hc)
    intro _
    simp [hrows]
  · rename_i hc
    intro hnone
    exact absurd (Option.isNone_iff_eq_none.mpr hnone) hc

theorem Settled.ask (h : p.Settled) (s : Stop) : (p.ask images s).1.Settled := by
  cases s with
  | question k q =>
    simp only [QuestionPage.ask]
    split
    · exact Settled.fill (p := { p with asked := .question k q }) h
    · exact h
  | _ => exact h

theorem settled_blank : (blank images k q).Settled := by
  unfold blank
  simp only [fill]
  split
  · unfold QuestionPage.setCurrent
    split
    · rename_i hc
      cases hc
    · split
      · rename_i hrow
        intro _
        simpa using hrow
      · intro hc
        cases hc
  · rename_i hc
    exact absurd rfl hc

theorem Settled.choose (h : p.Settled) (kind : Question.Kind) (places : List Nat) :
    (p.choose images kind places).Settled := by
  cases kind with
  | many =>
    intro hc
    simp [QuestionPage.choose, h hc]
  | one =>
    simp only [QuestionPage.choose]
    induction places generalizing p with
    | nil => exact h
    | cons i is ih => exact ih (h.setCurrent i)
  | display => exact h

theorem settled_create {remembered : Option (List String)}
    (h : create images remembered k q = .ok p) : p.Settled := by
  unfold create at h
  cases hp : presets q remembered with
  | error f => rw [hp] at h; cases h
  | ok places =>
    rw [hp] at h
    cases h
    exact settled_blank.choose q.kind places

/-- A page that is asked the question it presents stays as it is. -/
theorem ask_of_presents (h : p.Presents k q) (hs : p.Settled) :
    p.ask images (.question k q) = (p, none) := by
  have hrows : List.zipWith (fun (r : Row) a => { r with answer := a }) p.rows q.answers =
      p.rows := by
    rw [← h.answers_eq, answers, List.zipWith_map_right]
    simp
  have hp : { p with asked := .question k q, title := q.description, rows := p.rows } = p := by
    rw [← h.asked_eq, ← h.title_eq]
  simp only [ask, if_pos h.length_rows, fill, hrows, hp]
  split
  · rename_i hc
    have hempty := hs (Option.isNone_iff_eq_none.mp hc)
    simp [QuestionPage.setCurrent, hempty]
  · rfl

/-- What a page presents is on its face. -/
theorem Presents.of_face (h : p.Presents k q) (hf : p'.face = p.face) : p'.Presents k q := by
  refine h.congr ?_ ?_ ?_
  · show p'.face.asked = p.face.asked
    rw [hf]
  · show p'.face.title = p.face.title
    rw [hf]
  · show p'.face.answers = p.face.answers
    rw [hf]

theorem Settled.of_face (h : p.Settled) (hf : p'.face = p.face) : p'.Settled := by
  change p'.face.current = none → p'.face.rows = []
  rw [hf]
  exact h

end QuestionPage

/-! ## What holds of every page of a question -/

/-- That every page of a question, in the stack or not, has a property. -/
def EveryPage (R : QuestionPage → Prop) (d : Dialog) : Prop :=
  ∀ k p, d.pages.get? k = some p → R p

/-- A property that new pages have and that nothing takes from a page. -/
structure PageInvariant (setup : Setup) (R : QuestionPage → Prop) : Prop where
  setCurrent : ∀ p row, R p → R (p.setCurrent setup.images row)
  setChecked : ∀ p row on, R p → R (p.setChecked row on)
  focus : ∀ p, R p → R p.focus
  ask : ∀ p s, R p → R (p.ask setup.images s).1
  create : ∀ remembered k q p, QuestionPage.create setup.images remembered k q = .ok p → R p

namespace EveryPage

variable {R : QuestionPage → Prop}

theorem congr (h : EveryPage R d) (hs : SameScreen d d') : EveryPage R d' := by
  intro k p
  rw [hs.pages]
  exact h k p

theorem setPage {k : String} {p : QuestionPage} (h : EveryPage R d) (hp : R p) :
    EveryPage R (d.setPage k p) := by
  intro k' p' hp'
  rw [pages_setPage, Table.get?_insert] at hp'
  split at hp'
  · cases hp'
    exact hp
  · exact h k' p' hp'

theorem update (hR : PageInvariant setup R) (h : EveryPage R d) : EveryPage R d.update := by
  intro k p hp
  rw [get?_update] at hp
  split at hp
  · obtain ⟨p₀, hp₀, rfl⟩ := Option.map_eq_some_iff.mp hp
    exact hR.focus p₀ (h k p₀ hp₀)
  · exact h k p hp

theorem setCurrentRow (hR : PageInvariant setup R) (h : EveryPage R d) (row : Nat) :
    EveryPage R (d.setCurrentRow setup row) := by
  unfold Dialog.setCurrentRow
  split
  · rename_i k p ht
    exact h.setPage (hR.setCurrent p row (h k p (get?_of_topQuestion? ht).2))
  · exact h

theorem setCheckedRow (hR : PageInvariant setup R) (h : EveryPage R d) (row : Nat) (on : Bool) :
    EveryPage R (d.setCheckedRow row on) := by
  unfold Dialog.setCheckedRow
  split
  · rename_i k p ht
    exact h.setPage (hR.setChecked p row on (h k p (get?_of_topQuestion? ht).2))
  · exact h

theorem makePage (hR : PageInvariant setup R) {P : Page} {s : Stop} (h : EveryPage R d)
    (hm : makePage setup d s = .ok (P, d')) : EveryPage R d' := by
  cases s with
  | question k q =>
    simp only [Dialog.makePage] at hm
    cases hc : QuestionPage.create setup.images (setup.remembered.get? q.description) k q with
    | error f => rw [hc] at hm; cases hm
    | ok p =>
      rw [hc] at hm
      cases hm
      exact h.setPage (hR.create _ _ _ _ hc)
  | requirement k r next =>
    simp only [Dialog.makePage] at hm
    cases hc : RequirementPage.create setup.organizer r next with
    | error f => rw [hc] at hm; cases hm
    | ok p => rw [hc] at hm; cases hm; exact h
  | done k o next => cases hm; exact h
  | cancel k m next => cases hm; exact h
  | error m => cases hm; exact h
  | stuck k next => cases hm

theorem showStop (hR : PageInvariant setup R) (h : EveryPage R d) (s : Stop) :
    EveryPage R (showStop setup d s).1 := by
  unfold Dialog.showStop
  split
  · rename_i k p hk
    have hp := h k p (knownPage?_eq_some_iff.mp hk).2
    split
    · rename_i p' ha
      have hp' : R p' := by simpa [ha] using hR.ask p s hp
      exact update hR (d := { d.setPage k p' with stack := d.stack.push (.question k) })
        (h.setPage hp')
    · rename_i p' f ha
      have hp' : R p' := by simpa [ha] using hR.ask p s hp
      exact h.setPage hp'
  · split
    · rename_i P d₁ hm
      have h₁ := h.makePage hR hm
      exact update hR (d := { d₁ with stack := d₁.stack.push P }) h₁
    · exact h

theorem touch (hR : PageInvariant setup R) (h : EveryPage R d) (ht : Touch setup d d') :
    EveryPage R d' := by
  cases ht with
  | aside hs => exact h.congr hs
  | current row hs => exact (h.setCurrentRow hR row).congr hs
  | check row on => exact h.setCheckedRow hR row on
  | tweak row => exact h
  | back => exact update hR (d := { d with stack := d.stack.pop }) h

theorem act (hR : PageInvariant setup R) (h : EveryPage R d) (a : Action) :
    EveryPage R (d.act setup a).1 := by
  cases hc : d.comesTo setup a with
  | none => exact h.touch hR (act_of_comesTo_eq_none hc)
  | some s =>
    obtain ⟨d', hd', -, ha⟩ := act_of_comesTo_eq_some hc
    rw [ha]
    refine showStop hR ?_ s
    obtain hd' | ⟨row, hd'⟩ := hd'
    · exact h.congr hd'
    · exact (h.setCurrentRow hR row).congr hd'

end EveryPage

theorem everyPage_start {R : QuestionPage → Prop} (hR : PageInvariant setup R) {g : Guess}
    (h : start setup (blank g) = (d, none)) : EveryPage R d := by
  obtain ⟨P, d₁, s, -, hm, rfl⟩ := exists_makePage_of_start h
  have hblank : EveryPage R (blank g) := by
    intro k p hp
    cases hp
  have h₁ := hblank.makePage hR hm
  exact EveryPage.update hR (d := { d₁ with stack := ⟨[P], some 0⟩ }) h₁

theorem pageInvariant_settled (setup : Setup) : PageInvariant setup QuestionPage.Settled where
  setCurrent _ row h := h.setCurrent row
  setChecked _ row on h := h.setChecked row on
  focus _ h := h
  ask _ s h := h.ask s
  create _ _ _ _ := QuestionPage.settled_create

/-! ## The way told by the pages -/

/-- Where a question's page leads is on its face. -/
theorem exit?_question (k : String) : d.exit? (.question k) =
    (d.face? k).bind fun p => p.depart.toOption.map fun x => .page x.next := by
  simp only [exit?, face?, Option.bind_map]
  rfl

/-- What a page has to show depends on the page below it, and on what is on that. -/
theorem due?_succ_congr {i : Nat} (hp : d'.stack.pages[i]? = d.stack.pages[i]?)
    (hf : ∀ k, d.stack.pages[i]? = some (.question k) → d'.face? k = d.face? k) :
    due? setup d' (i + 1) = due? setup d (i + 1) := by
  rw [due?, due?, source?, source?, hp]
  cases hP : d.stack.pages[i]? with
  | none => rfl
  | some P =>
    cases P with
    | question k => simp only [Option.bind_some, exit?_question, hf k hP]
    | _ => rfl

/-- Going back from a page to the one below it. -/
theorem Sound.stack_back {Ps : List Page} {P : Page} (h : Sound d)
    (hst : d.stack = ⟨Ps ++ [P], some Ps.length⟩) (hne : Ps ≠ []) :
    d.back.stack = ⟨Ps, some (Ps.length - 1)⟩ := by
  have hl : 0 < Ps.length := List.length_pos_iff.mpr hne
  rw [Dialog.stack_back, Stack.pop_of_current_eq_last h.current (by simp [hst]; omega), hst]
  simp

/-- After a step back, going on comes to what the page that was taken away had to show. -/
theorem stopAfter?_back {Ps : List Page} {P : Page} (h : Sound d)
    (hst : d.stack = ⟨Ps ++ [P], some Ps.length⟩) (hne : Ps ≠ []) :
    d.back.stopAfter? setup = due? setup d Ps.length := by
  have hback := h.stack_back hst hne
  rw [← due?_length h.back, hback]
  obtain ⟨n, hn⟩ : ∃ n, Ps.length = n + 1 :=
    Nat.exists_eq_succ_of_ne_zero fun h0 => hne (List.length_eq_zero_iff.mp h0)
  rw [hn]
  refine due?_succ_congr ?_ fun k _ => face?_back k
  rw [hback, hst, List.getElem?_append_left (by omega)]

/-! ## The same dialog -/

/-- Whether a page is that of a question. -/
def Page.isQuestion : Page → Bool
  | .question _ => true
  | _ => false

@[simp] theorem Page.isQuestion_still (P : Page) : P.still.isQuestion = P.isQuestion := by
  cases P <;> rfl

/-- What a dialog holds beside its pages and buttons: the name, how it was closed, whether a manual
installation is asked for, and how often the script was shown. -/
def heading (d : Dialog) : String × Option Verdict × Bool × Nat :=
  (d.name, d.verdict, d.manual, d.scriptShown)

@[simp] theorem heading_updateNext : d.updateNext.heading = d.heading := by
  unfold updateNext
  split <;> rfl

@[simp] theorem heading_updateFocus : d.updateFocus.heading = d.heading := by
  unfold updateFocus
  split <;> rfl

@[simp] theorem heading_update : d.update.heading = d.heading := by
  rw [update, heading_updateFocus, heading_updateNext]
  rfl

theorem heading_back : d.back.heading = d.heading := heading_update

theorem heading_showStop (s : Stop) : (showStop setup d s).1.heading = d.heading := by
  unfold showStop
  split
  · split
    · exact heading_update
    · rfl
  · split
    · rename_i P d₁ hm
      obtain ⟨pages, rfl⟩ := exists_pages_of_makePage hm
      exact heading_update
    · rfl

theorem heading_runFrom (id : Option String) : (runFrom setup d id).1.heading = d.heading := by
  unfold runFrom
  split
  · exact heading_showStop _
  · rfl

/-- Going on from a page that leads on changes pages and buttons only. -/
theorem heading_next {P : Page} (hP : d.top? = some P) (hl : P.leadsOn) :
    (d.next setup).1.heading = d.heading := by
  unfold next
  cases P with
  | question k =>
    simp only [hP]
    split
    · rfl
    · split
      · rfl
      · exact heading_runFrom _
  | requirement p =>
    simp only [hP]
    exact heading_runFrom _
  | _ => cases hl

/-- That two dialogs are the same, but for the number of times a list of answers was given the
focus and for the tweak file that is looked at. -/
structure SameDialog (d d' : Dialog) : Prop where
  pages : d'.stack.pages.map Page.still = d.stack.pages.map Page.still
  current : d'.stack.current = d.stack.current
  faces : ∀ k, d'.face? k = d.face? k
  backEnabled : d'.backEnabled = d.backEnabled
  nextEnabled : d'.nextEnabled = d.nextEnabled
  nextText : d'.nextText = d.nextText
  heading : d'.heading = d.heading

/-- Two dialogs whose buttons are in line with their stacks are the same if their pages are. -/
theorem SameDialog.of_stack {Ps : List Page} {P P' : Page} (hl : Lit d) (ht : Lettered d)
    (hl' : Lit d') (ht' : Lettered d') (hst : d.stack = ⟨Ps ++ [P], some Ps.length⟩)
    (hst' : d'.stack = ⟨Ps ++ [P'], some Ps.length⟩) (hP : P'.still = P.still)
    (hf : ∀ k, d'.face? k = d.face? k) (hh : d'.heading = d.heading) : SameDialog d d' := by
  have htop : d.top? = some P := by simp [Dialog.top?, Stack.top?, hst]
  have htop' : d'.top? = some P' := by simp [Dialog.top?, Stack.top?, hst']
  refine ⟨?_, by rw [hst, hst'], hf, ?_, ?_, ?_, hh⟩
  · rw [hst, hst', List.map_append, List.map_append, List.map_singleton, List.map_singleton, hP]
  · rw [Bool.eq_iff_iff, hl.back, hl'.back, hst, hst']
  · rw [hl.next P htop, hl'.next P' htop', ← P.isDeadEnd_still, ← hP, P'.isDeadEnd_still]
  · rw [ht.text, ht'.text, hst, hst', wording_concat, wording_concat, ← P.label?_still, ← hP,
      P'.label?_still]

/-! ## Back and on again -/

/-- That a step back and on again fails nowhere and gives the dialog that was there before. -/
def Returns (setup : Setup) (d : Dialog) : Prop :=
  (d.back.next setup).2 = none ∧ SameDialog d (d.back.next setup).1

/-- That the current page is not that of a question, and that the key of what it shows has the page
of a question all the same. -/
def Supplanted (setup : Setup) (d : Dialog) : Prop :=
  (∃ P ∈ d.top?, P.isQuestion = false) ∧
    ∃ k ∈ (due? setup d (d.stack.pages.length - 1)).bind Stop.key?, (d.pages.get? k).isSome

instance (d : Dialog) : Decidable (Supplanted setup d) :=
  inferInstanceAs (Decidable ((∃ P ∈ d.top?, P.isQuestion = false) ∧
    ∃ k ∈ (due? setup d (d.stack.pages.length - 1)).bind Stop.key?, (d.pages.get? k).isSome))

/-- A question is shown by the page of a question only. -/
theorem Shows.isQuestion {P : Page} {k : String} {q : Question}
    (h : Shows setup d P (.question k q)) : P = .question k := by
  cases P with
  | question k' => cases h.key?; rfl
  | requirement p => obtain ⟨_, _, _, hs, -⟩ := h; cases hs
  | complete p => obtain ⟨_, _, _, _, hs, -⟩ := h; cases hs
  | cancelled m => obtain ⟨_, _, hs⟩ := h; cases hs
  | failed m => cases h

/-- What a page shows that is not that of a question is shown by such a page again. -/
theorem exists_makePage_of_shows {P : Page} {s : Stop} (h : Shows setup d P s)
    (hP : P.isQuestion = false) (d' : Dialog) :
    ∃ P', makePage setup d' s = .ok (P', d') ∧ P'.still = P.still ∧ P'.isQuestion = false := by
  cases P with
  | question k => cases hP
  | requirement p =>
    obtain ⟨k, r, next, rfl, hc⟩ := h
    exact ⟨.requirement p, by rw [makePage, hc]; rfl, rfl, rfl⟩
  | complete p =>
    obtain ⟨k, o, next, row, rfl, rfl⟩ := h
    refine ⟨_, rfl, ?_, rfl⟩
    rw [Page.still, Page.still, CompletePage.setRow_eq _ row]
  | cancelled m =>
    obtain ⟨k, next, rfl⟩ := h
    exact ⟨_, rfl, rfl, rfl⟩
  | failed m =>
    cases h
    exact ⟨_, rfl, rfl, rfl⟩

/-- A page that is not in the stack is pushed upon it and made current. -/
theorem Stack.push_of_notMem {s : Stack} {P : Page} (h : ∀ k, P = .question k → P ∉ s.pages) :
    s.push P = ⟨s.pages ++ [P], some s.pages.length⟩ := by
  have hp := pages_push_of_notMem h
  have hc := current_push s P
  rw [hp, List.length_append, List.length_singleton, Nat.add_sub_cancel] at hc
  rw [← hp, ← hc]

/-- A question that is presented by a page which is not in the stack is shown by it, as it is. -/
theorem showStop_of_presents (setup : Setup) {k : String} {q : Question} {p : QuestionPage}
    (hnot : Page.question k ∉ d.stack.pages) (hp : d.pages.get? k = some p)
    (hpre : p.Presents k q) (hset : p.Settled) :
    (showStop setup d (.question k q)).2 = none ∧
      (showStop setup d (.question k q)).1.stack =
        ⟨d.stack.pages ++ [.question k], some d.stack.pages.length⟩ ∧
      ∀ k', (showStop setup d (.question k q)).1.face? k' = d.face? k' := by
  have hask : p.ask setup.images (.question k q) = (p, none) :=
    QuestionPage.ask_of_presents hpre hset
  have hnone : (p.ask setup.images (.question k q)).2 = none := by rw [hask]
  refine ⟨(fault_showStop_of_known rfl hp).trans hnone, ?_⟩
  rw [showStop_of_known_of_shown rfl hp hnone, hask]
  refine ⟨?_, fun k' => ?_⟩
  · rw [stack_update]
    exact Stack.push_of_notMem fun _ _ => hnot
  · rw [face?_update, face?, pages_setPage, Table.insert_of_get?_eq_some hp]
    rfl

/-- What a page shows that is not that of a question is shown again upon the stack, if its key has
no page. -/
theorem showStop_of_shows {P : Page} {s : Stop} (hsh : Shows setup d' P s)
    (hP : P.isQuestion = false) (hk : d.knownPage? s = none) :
    (showStop setup d s).2 = none ∧
      (∃ P', P'.still = P.still ∧ (showStop setup d s).1.stack =
        ⟨d.stack.pages ++ [P'], some d.stack.pages.length⟩) ∧
      ∀ k, (showStop setup d s).1.face? k = d.face? k := by
  obtain ⟨P', hm, hstill, hP'⟩ := exists_makePage_of_shows hsh hP d
  have hshow : showStop setup d s = ({ d with stack := d.stack.push P' }.update, none) := by
    rw [showStop, hk]
    simp only [hm]
  rw [hshow]
  refine ⟨rfl, ⟨P', hstill, ?_⟩, fun k => face?_update k⟩
  rw [stack_update]
  apply Stack.push_of_notMem
  rintro k rfl
  cases hP'

/-- A stop that is no question is not shown if its key has the page of a question. -/
theorem showStop_ne_none_of_shows {P : Page} {s : Stop} {k : String} {p : QuestionPage}
    (hsh : Shows setup d' P s) (hP : P.isQuestion = false) (hk : s.key? = some k)
    (hp : d.pages.get? k = some p) : (showStop setup d s).2 ≠ none := by
  rw [fault_showStop_of_known hk hp]
  intro hnone
  obtain ⟨k', q, rfl, -⟩ := QuestionPage.ask_eq_none_iff.mp hnone
  rw [hsh.isQuestion] at hP
  cases hP

/-- A page known by its face. -/
theorem exists_get?_of_face? {k : String} {p : QuestionPage} (h : d'.face? k = d.face? k)
    (hp : d.pages.get? k = some p) : ∃ p', d'.pages.get? k = some p' ∧ p'.face = p.face := by
  rw [face?, face?, hp, Option.map_some] at h
  exact Option.map_eq_some_iff.mp h

/-- After a step back from a coherent stack, going on shows what the page taken away showed, from a
dialog with the pages below and with the same on all pages; and what comes of it is the dialog
that was there before as soon as its pages are. -/
theorem Coherent.exists_next_back {Ps : List Page} {P : Page} (hc : Coherent setup d) (hd : Sound d)
    (hl : Lit d) (ht : Lettered d) (hst : d.stack = ⟨Ps ++ [P], some Ps.length⟩) (hne : Ps ≠ []) :
    ∃ s d₁, due? setup d Ps.length = some s ∧ Shows setup d P s ∧
      d.back.next setup = Dialog.showStop setup d₁ s ∧ d₁.stack.pages = Ps ∧
      (∀ k, d₁.face? k = d.face? k) ∧
      ∀ P' : Page, P'.still = P.still →
        (Dialog.showStop setup d₁ s).1.stack = ⟨Ps ++ [P'], some Ps.length⟩ →
        (∀ k, (Dialog.showStop setup d₁ s).1.face? k = d₁.face? k) →
        SameDialog d (Dialog.showStop setup d₁ s).1 := by
  obtain ⟨s, hs, hsh⟩ := hc.shown Ps.length P (by simp [hst])
  have hstop := (stopAfter?_back hd hst hne).trans hs
  have hback := hd.stack_back hst hne
  obtain ⟨d₁, hsame, -, hnext⟩ := next_of_stopAfter?_eq_some hstop
  have hd₁ : Sound d₁ := hd.back.congr hsame
  have ht₁ : Lettered d₁ := (ht.back hd).congr hsame
  have hstop₁ : d₁.stopAfter? setup = some s := hsame.stopAfter?.trans hstop
  have hface : ∀ k, d₁.face? k = d.face? k := by
    intro k
    rw [face?, hsame.pages]
    exact face?_back k
  refine ⟨s, d₁, hs, hsh, hnext, by rw [hsame.stack, hback], hface, ?_⟩
  intro P' hP' hstack hfaces
  refine .of_stack hl ht (((lit_update _).congr hsame).showStop s) (ht₁.showStop hd₁ hstop₁) hst
    hstack hP' (fun k => (hfaces k).trans (hface k)) ?_
  -- the page below leads on, so that going on leaves all but pages and buttons
  obtain ⟨Qs, Q, hQs, htop⟩ := hd.back.exists_stack
  have hlead : Q.leadsOn := ht₁.leadsOn_of_stopAfter hd₁ hstop₁ Q (by rw [hsame.stack, hQs]; simp)
  rw [← hnext, heading_next htop hlead, heading_back]

/-- In a coherent stack the page of a question comes again, with all that was chosen on it. -/
theorem Coherent.returns_of_question {Ps : List Page} {k : String} (hc : Coherent setup d)
    (hd : Sound d) (hl : Lit d) (ht : Lettered d) (hset : EveryPage QuestionPage.Settled d)
    (hst : d.stack = ⟨Ps ++ [.question k], some Ps.length⟩) (hne : Ps ≠ []) :
    Returns setup d := by
  obtain ⟨s, d₁, -, hsh, hnext, hpages, hface, hsame⟩ := hc.exists_next_back hd hl ht hst hne
  obtain ⟨p, q, hp, rfl, hpre⟩ := hsh
  obtain ⟨p₁, hp₁, hf⟩ := exists_get?_of_face? (hface k) hp
  have hnot : Page.question k ∉ d₁.stack.pages := by
    rw [hpages]
    intro hmem
    obtain ⟨j, hj⟩ := List.mem_iff_getElem?.mp hmem
    have hlt : j < Ps.length := (List.getElem?_eq_some_iff.mp hj).1
    have hplace : d.stack.pages[Ps.length]? = some (.question k) := by simp [hst]
    have hlow : d.stack.pages[j]? = some (.question k) := by
      rw [hst, List.getElem?_append_left hlt, hj]
    exact hc.ne_of_lt hplace hlt hlow rfl
  obtain ⟨hnone, hstack, hfaces⟩ := showStop_of_presents setup hnot hp₁
    (hpre.of_face hf) ((hset k p hp).of_face hf)
  rw [hpages] at hstack
  rw [Returns, hnext]
  exact ⟨hnone, hsame _ rfl hstack hfaces⟩

/-- In a coherent stack a page that is not that of a question is made again, unless the key of what
it shows has the page of a question. -/
theorem Coherent.returns_iff_of_not_question {Ps : List Page} {P : Page} (hc : Coherent setup d)
    (hd : Sound d) (hl : Lit d) (ht : Lettered d)
    (hst : d.stack = ⟨Ps ++ [P], some Ps.length⟩) (hne : Ps ≠ []) (hP : P.isQuestion = false) :
    Returns setup d ↔
      ∀ k ∈ (due? setup d Ps.length).bind Stop.key?, d.pages.get? k = none := by
  obtain ⟨s, d₁, hs, hsh, hnext, hpages, hface, hsame⟩ := hc.exists_next_back hd hl ht hst hne
  rw [hs, Option.bind_some, Returns, hnext]
  constructor
  · rintro ⟨hnone, -⟩ k hk
    cases hp : d.pages.get? k with
    | none => rfl
    | some p =>
      obtain ⟨p₁, hp₁, -⟩ := exists_get?_of_face? (hface k) hp
      exact absurd hnone (showStop_ne_none_of_shows hsh hP hk hp₁)
  · intro hfree
    have hknown : d₁.knownPage? s = none := by
      cases hk : d₁.knownPage? s with
      | none => rfl
      | some x =>
        obtain ⟨k, p₁⟩ := x
        obtain ⟨hkey, hp₁⟩ := knownPage?_eq_some_iff.mp hk
        obtain ⟨p, hp, -⟩ := exists_get?_of_face? (hface k).symm hp₁
        rw [hfree k hkey] at hp
        cases hp
    obtain ⟨hnone, ⟨P', hstill, hstack⟩, hfaces⟩ := showStop_of_shows hsh hP hknown
    rw [hpages] at hstack
    exact ⟨hnone, hsame P' hstill hstack hfaces⟩

/-- In a dialog with a coherent stack a step back and on again gives the dialog that was there
before exactly if the current page was not supplanted. -/
theorem Coherent.returns_iff {i : Nat} (hc : Coherent setup d) (hd : Sound d) (hl : Lit d)
    (ht : Lettered d) (hset : EveryPage QuestionPage.Settled d)
    (hi : d.stack.current = some (i + 1)) : Returns setup d ↔ ¬ Supplanted setup d := by
  obtain ⟨Ps, P, hst, htop⟩ := hd.exists_stack
  have hne : Ps ≠ [] := by
    rintro rfl
    rw [hst] at hi
    cases hi
  cases hP : P.isQuestion with
  | true =>
    refine iff_of_true ?_ ?_
    · cases P with
      | question k => exact hc.returns_of_question hd hl ht hset hst hne
      | _ => cases hP
    · rintro ⟨⟨P', hP', hq⟩, -⟩
      cases htop.symm.trans hP'
      rw [hP] at hq
      cases hq
  | false =>
    rw [hc.returns_iff_of_not_question hd hl ht hst hne hP]
    have hlen : d.stack.pages.length - 1 = Ps.length := by simp [hst]
    simp only [Supplanted, hlen]
    constructor
    · rintro hfree ⟨-, k, hk, hsome⟩
      rw [hfree k hk] at hsome
      cases hsome
    · intro hnot k hk
      cases hp : d.pages.get? k with
      | none => rfl
      | some p => exact absurd ⟨⟨P, htop, hP⟩, k, hk, by rw [hp]; rfl⟩ hnot

/-! ## Keys of the pages in the stack -/

/-- That no page in the stack that is not a question's shows a stop whose key has the page of a
question. -/
def Apart (setup : Setup) (d : Dialog) : Prop :=
  ∀ i P k, d.stack.pages[i]? = some P → P.isQuestion = false →
    (due? setup d i).bind Stop.key? = some k → d.pages.get? k = none

/-- That an event shows no question whose key is that of what a page in the stack has to show. -/
def ShowsElsewhere (setup : Setup) (d : Dialog) : Event → Prop
  | .act a => (d.act setup a).2 = none → ∀ k ∈ (d.comesTo setup a).bind Stop.questionKey?,
    ∀ i < d.stack.pages.length, (due? setup d i).bind Stop.key? ≠ some k
  | .ask _ => True

instance (d : Dialog) : ∀ e, Decidable (ShowsElsewhere setup d e)
  | .act a => inferInstanceAs (Decidable ((d.act setup a).2 = none →
      ∀ k ∈ (d.comesTo setup a).bind Stop.questionKey?,
        ∀ i < d.stack.pages.length, (due? setup d i).bind Stop.key? ≠ some k))
  | .ask _ => inferInstanceAs (Decidable True)

/-- What a page has to show depends on the page below it, if there is one. -/
theorem due?_congr {i : Nat} (hp : ∀ j < i, d'.stack.pages[j]? = d.stack.pages[j]?)
    (hf : ∀ j < i, ∀ k, d.stack.pages[j]? = some (.question k) → d'.face? k = d.face? k) :
    due? setup d' i = due? setup d i := by
  cases i with
  | zero => rfl
  | succ j => exact due?_succ_congr (hp j (Nat.lt_succ_self j)) (hf j (Nat.lt_succ_self j))

theorem SameScreen.face? (h : SameScreen d d') (k : String) : d'.face? k = d.face? k := by
  rw [Dialog.face?, h.pages, Dialog.face?]

theorem SameScreen.due? (h : SameScreen d d') (i : Nat) : due? setup d' i = due? setup d i :=
  due?_congr (fun j _ => by rw [h.stack]) fun j _ k _ => h.face? k

/-- A change of the current question's page leaves what the pages in the stack have to show. -/
theorem Coherent.due?_setPage {i : Nat} {k : String} {p p' : QuestionPage} (h : Coherent setup d)
    (hd : Sound d) (ht : d.topQuestion? = some (k, p)) (hi : i < d.stack.pages.length) :
    due? setup (d.setPage k p') i = due? setup d i := by
  obtain ⟨n, P, hl, hP, htop⟩ := hd.exists_top
  cases htop.symm.trans (get?_of_topQuestion? ht).1
  refine due?_congr (fun j _ => rfl) fun j hj k' hk' => ?_
  have hne : k ≠ k' := fun he => h.ne_of_lt hP (by omega) hk' he.symm
  simp [face?, hne]

theorem Coherent.due?_setCurrentRow {i : Nat} (h : Coherent setup d) (hd : Sound d) (row : Nat)
    (hi : i < d.stack.pages.length) :
    due? setup (d.setCurrentRow setup row) i = due? setup d i := by
  unfold Dialog.setCurrentRow
  split
  · rename_i k p ht
    exact h.due?_setPage hd ht hi
  · rfl

namespace Apart

/-- What matters are the kinds of the pages, what they have to show, and which keys have no page. -/
theorem of_places (h : Apart setup d) (hplace : ∀ i P', d'.stack.pages[i]? = some P' →
      ∃ P, d.stack.pages[i]? = some P ∧ P.isQuestion = P'.isQuestion ∧
        due? setup d' i = due? setup d i)
    (hpages : ∀ k, d.pages.get? k = none → d'.pages.get? k = none) : Apart setup d' := by
  intro i P' k hP' hq hk
  obtain ⟨P, hP, hkind, hdue⟩ := hplace i P' hP'
  rw [hdue] at hk
  exact hpages k (h i P k hP (hkind.trans hq) hk)

theorem congr (h : Apart setup d) (hs : SameScreen d d') : Apart setup d' :=
  h.of_places (fun i P hP => ⟨P, by rw [← hs.stack, hP], rfl, hs.due? i⟩)
    fun k hk => by rw [hs.pages, hk]

theorem setPage {k : String} {p p' : QuestionPage} (h : Apart setup d) (hc : Coherent setup d)
    (hd : Sound d) (ht : d.topQuestion? = some (k, p)) : Apart setup (d.setPage k p') := by
  refine h.of_places (fun i P hP => ⟨P, hP, rfl, ?_⟩) fun k' hk' => ?_
  · exact hc.due?_setPage hd ht (List.getElem?_eq_some_iff.mp hP).1
  · have hne : k ≠ k' := by
      rintro rfl
      rw [(get?_of_topQuestion? ht).2] at hk'
      cases hk'
    simp [hne, hk']

theorem setCurrentRow (h : Apart setup d) (hc : Coherent setup d) (hd : Sound d) (row : Nat) :
    Apart setup (d.setCurrentRow setup row) := by
  unfold Dialog.setCurrentRow
  split
  · rename_i k p ht
    exact h.setPage hc hd ht
  · exact h

theorem setCheckedRow (h : Apart setup d) (hc : Coherent setup d) (hd : Sound d) (row : Nat)
    (on : Bool) : Apart setup (d.setCheckedRow row on) := by
  unfold Dialog.setCheckedRow
  split
  · rename_i k p ht
    exact h.setPage hc hd ht
  · exact h

theorem setTweakRow (h : Apart setup d) (hd : Sound d) (row : Nat) :
    Apart setup (d.setTweakRow row) := by
  obtain ⟨Ps, P, hst, -⟩ := hd.exists_stack
  obtain ⟨Q, hst', hQ⟩ := exists_stack_setTweakRow hst row
  have hkind : P.isQuestion = Q.isQuestion := by
    rw [← P.isQuestion_still, ← hQ, Q.isQuestion_still]
  refine h.of_places (fun i P' hP' => ?_) fun k hk => hk
  have hdue : i ≤ Ps.length → due? setup (d.setTweakRow row) i = due? setup d i := by
    intro hi
    refine due?_congr (fun j hj => ?_) fun _ _ _ _ => rfl
    rw [hst', hst, List.getElem?_append_left (by omega), List.getElem?_append_left (by omega)]
  rw [hst'] at hP'
  by_cases hlt : i < Ps.length
  · rw [List.getElem?_append_left hlt] at hP'
    exact ⟨P', by rw [hst, List.getElem?_append_left hlt, hP'], rfl, hdue (Nat.le_of_lt hlt)⟩
  · have hi : i = Ps.length := by
      have hlen := (List.getElem?_eq_some_iff.mp hP').1
      rw [List.length_append, List.length_singleton] at hlen
      omega
    subst hi
    rw [List.getElem?_concat_length] at hP'
    cases hP'
    exact ⟨P, by rw [hst, List.getElem?_concat_length], hkind, hdue (Nat.le_refl _)⟩

theorem back (h : Apart setup d) (hd : Sound d) : Apart setup d.back := by
  have hpages : ∀ k, d.pages.get? k = none → d.back.pages.get? k = none := by
    intro k hk
    have hface : d.back.face? k = none := by rw [face?_back, face?, hk, Option.map_none]
    exact Option.map_eq_none_iff.mp hface
  obtain ⟨Ps, P, hst, -⟩ := hd.exists_stack
  by_cases hne : Ps = []
  · have hback : d.back.stack = d.stack := by
      rw [stack_back, Stack.pop_of_length_eq_one hd.current (by simp [hst, hne])]
    refine h.of_places (fun i Q hQ => ⟨Q, by rw [← hback, hQ], rfl, ?_⟩) hpages
    exact due?_congr (fun j _ => by rw [hback]) fun _ _ k _ => face?_back k
  · have hback := hd.stack_back hst hne
    have hlow : ∀ i < Ps.length, d.back.stack.pages[i]? = d.stack.pages[i]? := by
      intro i hi
      rw [hback, hst, List.getElem?_append_left hi]
    refine h.of_places (fun i Q hQ => ?_) hpages
    have hi : i < Ps.length := by
      have hlt := (List.getElem?_eq_some_iff.mp hQ).1
      rwa [hback] at hlt
    exact ⟨Q, by rw [← hlow i hi, hQ], rfl,
      due?_congr (fun j hj => hlow j (by omega)) fun _ _ k _ => face?_back k⟩

theorem touch (h : Apart setup d) (hc : Coherent setup d) (hd : Sound d)
    (ht : Touch setup d d') : Apart setup d' := by
  cases ht with
  | aside hs => exact h.congr hs
  | current row hs => exact (h.setCurrentRow hc hd row).congr hs
  | check row on => exact h.setCheckedRow hc hd row on
  | tweak row => exact h.setTweakRow hd row
  | back => exact h.back hd

theorem showStop {s : Stop} (h : Apart setup d) (hd : Sound d)
    (hstop : d.stopAfter? setup = some s)
    (hfr : ∀ k, s.key? = some k → Page.question k ∉ d.stack.pages)
    (hel : (showStop setup d s).2 = none → ∀ k ∈ s.questionKey?,
      ∀ i < d.stack.pages.length, (due? setup d i).bind Stop.key? ≠ some k) :
    Apart setup (showStop setup d s).1 := by
  by_cases hsh : (Dialog.showStop setup d s).2 = none
  · obtain ⟨P, d₁, he, -, hP, hother⟩ := showStop_of_shown hsh
    have hnot : ∀ k, P = .question k → P ∉ d.stack.pages := by
      rintro k rfl
      exact hfr k hP.key?
    have hpages : (Dialog.showStop setup d s).1.stack.pages = d.stack.pages ++ [P] := by
      rw [he, stack_update]
      exact Stack.pages_push_of_notMem hnot
    have hnone : ∀ k, P ≠ .question k → d.pages.get? k = none →
        (Dialog.showStop setup d s).1.pages.get? k = none := by
      intro k hne hk
      rw [he, get?_update, hother k hne, hk]
      simp
    have hdue : ∀ i ≤ d.stack.pages.length,
        due? setup (Dialog.showStop setup d s).1 i = due? setup d i := by
      intro i hi
      refine due?_congr (fun j hj => ?_) fun j hj k hk => ?_
      · rw [hpages, List.getElem?_append_left (by omega)]
      · have hne : P ≠ .question k := by
          rintro rfl
          exact hnot k rfl (List.mem_of_getElem? hk)
        rw [he, face?_update]
        simp only [face?, hother k hne]
    intro i Q k hQ hq hk
    have hi := (List.getElem?_eq_some_iff.mp hQ).1
    rw [hpages, List.length_append, List.length_singleton] at hi
    rw [hdue i (by omega)] at hk
    rw [hpages] at hQ
    by_cases hlt : i < d.stack.pages.length
    · -- a page below: its key was not given to the question that is shown now
      rw [List.getElem?_append_left hlt] at hQ
      refine hnone k ?_ (h i Q k hQ hq hk)
      rintro rfl
      obtain ⟨_, q, -, rfl, -⟩ := hP
      exact hel hsh k rfl i hlt hk
    · -- the page that is shown now: its key had no page
      obtain rfl : i = d.stack.pages.length := by omega
      rw [List.getElem?_concat_length] at hQ
      cases hQ
      rw [due?_length hd, hstop] at hk
      refine hnone k ?_ ?_
      · rintro rfl
        cases hq
      · cases hp : d.pages.get? k with
        | none => rfl
        | some p => exact absurd hsh (showStop_ne_none_of_shows hP hq hk hp)
  · obtain he | ⟨k, p, hk, hp, he⟩ := showStop_of_refused hsh <;> rw [he]
    · exact h
    · refine h.of_places (fun i Q hQ => ⟨Q, hQ, rfl, ?_⟩) fun k' hk' => ?_
      · refine due?_congr (fun _ _ => rfl) fun j _ k' hk' => ?_
        have hne : k ≠ k' := by
          rintro rfl
          exact hfr k hk (List.mem_of_getElem? hk')
        simp [face?, hne]
      · have hne : k ≠ k' := by
          rintro rfl
          rw [hp] at hk'
          cases hk'
        simp [hne, hk']

/-- An action that brings no stop to a page in the stack, and shows no question whose key is that
of what a page in the stack has to show, keeps the keys apart. -/
theorem act {a : Action} (h : Apart setup d) (hc : Coherent setup d) (hd : Sound d)
    (hfr : ∀ s k, d.comesTo setup a = some s → s.key? = some k → Page.question k ∉ d.stack.pages)
    (hel : ShowsElsewhere setup d (.act a)) : Apart setup (d.act setup a).1 := by
  cases hs : d.comesTo setup a with
  | none => exact h.touch hc hd (act_of_comesTo_eq_none hs)
  | some s =>
    obtain ⟨d', hd', hstop, ha⟩ := act_of_comesTo_eq_some hs
    obtain ⟨h', hsound, hstack, hdue⟩ : Apart setup d' ∧ Sound d' ∧ d'.stack = d.stack ∧
        ∀ i < d.stack.pages.length, due? setup d' i = due? setup d i := by
      obtain hd' | ⟨row, hd'⟩ := hd'
      · exact ⟨h.congr hd', hd.congr hd', hd'.stack, fun i _ => hd'.due? i⟩
      · exact ⟨(h.setCurrentRow hc hd row).congr hd', (hd.setCurrentRow row).congr hd',
          hd'.stack.trans (stack_setCurrentRow row),
          fun i hi => (hd'.due? i).trans (hc.due?_setCurrentRow hd row hi)⟩
    rw [ShowsElsewhere, hs, ha] at hel
    rw [ha]
    refine h'.showStop hsound hstop (fun k hk => ?_) fun hnone k hk i hi => ?_
    · rw [hstack]
      exact hfr s k hs hk
    · rw [hstack] at hi
      rw [hdue i hi]
      exact hel hnone k hk i hi

theorem not_supplanted (h : Apart setup d) (hd : Sound d) : ¬ Supplanted setup d := by
  rintro ⟨⟨P, hP, hq⟩, k, hk, hsome⟩
  obtain ⟨n, _, hl, hQ, htop⟩ := hd.exists_top
  cases htop.symm.trans hP
  rw [hl, Nat.add_sub_cancel] at hk
  rw [h n P k hQ hq hk] at hsome
  cases hsome

end Apart

theorem apart_start {g : Guess} (h : start setup (blank g) = (d, none)) : Apart setup d := by
  obtain ⟨P, d₁, s, hs, hm, rfl⟩ := exists_makePage_of_start h
  obtain ⟨-, -, hsh, hother⟩ := shows_makePage hm
  intro i Q k hQ hq hk
  rw [stack_update] at hQ
  obtain ⟨rfl, rfl⟩ : i = 0 ∧ Q = P := by
    cases i with
    | zero => exact ⟨rfl, (Option.some.inj hQ).symm⟩
    | succ i => cases hQ
  have hne : Q ≠ .question k := by
    rintro rfl
    cases hq
  rw [get?_update, hother k hne]
  exact ite_self _

/-! ## Runs -/

/-- Consider a run that shows no question on a page in the stack and brings no page in the stack
what it cannot show.  In every dialog of the run in which there is going back, a step back and on
again gives the dialog that was there before exactly if the current page was not supplanted.
That never happens if the run shows no question whose key is that of what a page in the stack
has to show. -/
theorem always_returns_iff {g : Guess} {es : List Event}
    (h : start setup (blank g) = (d, none)) (hanew : Along setup (ShowsAnew setup) d es)
    (hung : Along setup (fun d e => ¬ Garbles setup d e) d es) :
    Always setup (fun d => (∃ i, d.stack.current = some (i + 1)) →
      (Returns setup d ↔ ¬ Supplanted setup d)) d es ∧
    (Along setup (ShowsElsewhere setup) d es →
      Always setup (fun d => ¬ Supplanted setup d) d es) := by
  have hcoherent :=
    (always_coherent_iff_of_coherent (sound_start h) (coherent_start h) hanew).mpr hung
  have hrest : Always setup (fun d => Sound d ∧ Lit d ∧ Lettered d ∧
      EveryPage QuestionPage.Settled d) d es := by
    have hset := pageInvariant_settled setup
    refine always_of_act ?_
      ⟨sound_start h, lit_start h, lettered_start h, everyPage_start hset h⟩ es
    rintro d a - ⟨hs, hl, ht, hp⟩
    exact ⟨hs.act a, hl.act a, ht.act hs a, hp.act hset a⟩
  refine ⟨.mono ?_ (hcoherent.and hrest), fun helse => ?_⟩
  · rintro d ⟨hc, hs, hl, ht, hp⟩ ⟨i, hi⟩
    exact hc.returns_iff hs hl ht hp hi
  · have hapart : Always setup (fun d => Sound d ∧ Coherent setup d ∧ Apart setup d) d es := by
      refine always_of_along ?_ ⟨sound_start h, coherent_start h, apart_start h⟩
        (hanew.and (hung.and helse))
      rintro d a ⟨hs, hc, hapart⟩ ⟨hsa, hg, hse⟩
      have hfr : ∀ s k, d.comesTo setup a = some s → s.key? = some k →
          Page.question k ∉ d.stack.pages := fun s k => notMem_of_not_garbles hc hs hsa hg
      exact ⟨hs.act a, hc.act hs hfr, hapart.act hc hs hfr hse⟩
    exact .mono (fun d ⟨hs, _, ha⟩ => ha.not_supplanted hs) hapart

open DeadEnds in
/-- At the end of the tour a step back and on again gives the page of the failed script again, upon
the requirements that are not met. -/
theorem always_returns_touring :
    start ending (blank ⟨"Mod", ["Mod"]⟩) = (opened, none) ∧
    Along ending (ShowsAnew ending) opened touring ∧
    Along ending (fun d e => ¬ Garbles ending d e) opened touring ∧
    (play ending opened touring).2.stack.current = some 2 ∧
    Returns ending (play ending opened touring).2 := by
  have hanew : Along ending (ShowsAnew ending) opened touring := by decide +kernel
  have hung : Along ending (fun d e => ¬ Garbles ending d e) opened touring := by decide +kernel
  have helse : Along ending (ShowsElsewhere ending) opened touring := by decide +kernel
  have hplace : (play ending opened touring).2.stack.current = some 2 := by decide +kernel
  obtain ⟨hiff, hnever⟩ := always_returns_iff start_ending hanew hung
  exact ⟨start_ending, hanew, hung, hplace, (hiff.last ⟨1, hplace⟩).mpr (hnever helse).last⟩

open SharedKey in
/-- The run that goes on to the question "third" shows no question on a page in the stack.  But the
page of "first" has been asked "third", so a step back and on again does not give the question
"second". -/
theorem not_returns_garbling :
    start sharing (blank ⟨"Mod", ["Mod"]⟩) = (opened, none) ∧
    Along sharing (ShowsAnew sharing) opened garbling ∧
    Along sharing (ShowsElsewhere sharing) opened garbling ∧
    (play sharing opened garbling).2.stack.current = some 1 ∧
    ¬ Returns sharing (play sharing opened garbling).2 := by
  refine ⟨start_sharing, by decide +kernel, by decide +kernel, by decide +kernel, fun h => ?_⟩
  have hother : ((play sharing opened garbling).2.back.next sharing).1.stack.pages.map Page.still ≠
      (play sharing opened garbling).2.stack.pages.map Page.still := by decide +kernel
  exact hother h.2.pages

/-! ### A key given away

The requirements and the question after them have one key. -/

namespace GivenAway

open SharedKey (answer question)

def script : Script where
  start := "a"
  nodes := .ofList
    [("a", ⟨"a", .question (question "first" [answer "x" none] "r")⟩),
     ("r", ⟨"k", .requirement ⟨"9.0", "", "", ""⟩ (some "c")⟩),
     ("c", ⟨"k", .question (question "then" [answer "u" none] "e")⟩),
     ("e", ⟨"e", .done ⟨[], [], [], ∅, ∅⟩ none⟩)]

def giving : Setup := { DeadEnds.ending with script := script }

/-- The dialog as it is opened. -/
def opened : Dialog := (start giving (blank ⟨"Mod", ["Mod"]⟩)).1

/-- Going on to the requirements, on to the question after them, and back. -/
def passing : List Event := [.act .next, .act .next, .act .back]

end GivenAway

open GivenAway in
/-- Once the question after them has been shown, the page of requirements does not come again. -/
example :
    Along giving (ShowsAnew giving) opened passing ∧
    Along giving (fun d e => ¬ Garbles giving d e) opened passing ∧
    Supplanted giving (play giving opened passing).2 ∧
    ((play giving opened passing).2.back.next giving).2 = some .notAQuestion :=
  ⟨by decide +kernel, by decide +kernel, by decide +kernel, by decide +kernel⟩

end ModWizard.Dialog
