import ModWizard.Proofs.Dialog.Acceptance
import ModWizard.Proofs.Table

/-!
# Actions that fail

An action fails where it goes on: the current page cannot be left, the script comes to no stop,
or the stop that it comes to cannot be shown.  Stack and buttons stay as they were, and so does
what is on the pages, but for one thing: a page that is brought a stop it cannot show takes note
of it all the same (`act_of_fault`).  If that page is in the stack, its rows are the answers to
one question and what it was asked is another, so it no longer presents what it was asked, and
going on from it leads astray.
-/

namespace ModWizard.Dialog

open Script (Stop)

variable {setup : Setup} {d d' : Dialog}

/-! ## What a failing action does -/

theorem SameScreen.setPage (h : SameScreen d d') (k : String) (p : QuestionPage) :
    SameScreen (d.setPage k p) (d'.setPage k p) where
  stack := h.stack
  pages := by rw [pages_setPage, pages_setPage, h.pages]
  backEnabled := h.backEnabled
  nextEnabled := h.nextEnabled
  nextText := h.nextText

theorem SameScreen.knownPage? (h : SameScreen d d') (s : Stop) :
    d'.knownPage? s = d.knownPage? s := by
  simp only [Dialog.knownPage?, h.pages]

/-- An action that fails without coming to a stop leaves the dialog from which it goes on. -/
theorem sameScreen_of_comesTo_eq_none {a : Action} (h : d.comesTo setup a = none)
    (hf : (d.act setup a).2 ≠ none) : SameScreen (d.pressed setup a) (d.act setup a).1 := by
  cases a with
  | next =>
    by_cases hn : d.nextEnabled
    · rw [comesTo, if_pos hn] at h
      rw [act, if_pos hn]
      exact next_of_stopAfter?_eq_none h
    · simp [act, if_neg hn] at hf
  | doubleClick row =>
    cases row with
    | ofNat row =>
      by_cases hn : d.goesOnAt row
      · rw [comesTo, if_pos hn] at h
        rw [act, if_pos hn]
        exact next_of_stopAfter?_eq_none h
      · simp [act, if_neg hn] at hf
    | negSucc n => simp [act] at hf
  | back =>
    by_cases hb : d.backEnabled
    · simp [act, if_pos hb] at hf
    · simp [act, if_neg hb] at hf
  | backspace => simp [act] at hf
  | setCurrent row => cases row <;> simp [act] at hf
  | setChecked row on => cases row <;> simp [act] at hf
  | showTweaks row => cases row <;> simp [act] at hf
  | cancel => simp [act] at hf
  | manual => simp [act] at hf
  | showScript => simp [act] at hf
  | typeName s => simp [act] at hf

/-- An action that fails leaves the dialog from which it goes on, unless it comes to a stop whose
key has a page: the page cannot show the stop then, and takes note of it. -/
theorem act_of_fault {a : Action} (hf : (d.act setup a).2 ≠ none) :
    (SameScreen (d.pressed setup a) (d.act setup a).1 ∧
      ∀ s, d.comesTo setup a = some s → (d.pressed setup a).knownPage? s = none) ∨
    ∃ s k p, d.comesTo setup a = some s ∧ s.key? = some k ∧
      (d.pressed setup a).pages.get? k = some p ∧ (p.ask setup.images s).2 ≠ none ∧
      SameScreen ((d.pressed setup a).setPage k { p with asked := s }) (d.act setup a).1 := by
  cases hc : d.comesTo setup a with
  | none => exact .inl ⟨sameScreen_of_comesTo_eq_none hc hf, by rintro s hs; cases hs⟩
  | some s =>
    obtain ⟨d', hd', -, ha⟩ := act_of_comesTo hc
    rw [ha] at hf ⊢
    cases hk : d'.knownPage? s with
    | none =>
      refine .inl ⟨?_, ?_⟩
      · rwa [showStop_of_unknown_of_refused hk hf]
      · rintro s hs
        cases hs
        rw [← hd'.knownPage?, hk]
    | some x =>
      obtain ⟨k, p⟩ := x
      obtain ⟨hkey, hp⟩ := knownPage?_eq_some_iff.mp hk
      rw [fault_showStop_of_known hkey hp] at hf
      refine .inr ⟨s, k, p, rfl, hkey, by rw [← hd'.pages, hp], hf, ?_⟩
      rw [showStop_of_known_of_refused hkey hp hf]
      exact hd'.setPage k _

/-- Pressing a row leaves the stack and the buttons. -/
theorem pressed_frame (setup : Setup) (d : Dialog) (a : Action) :
    (d.pressed setup a).stack = d.stack ∧ (d.pressed setup a).backEnabled = d.backEnabled ∧
      (d.pressed setup a).nextEnabled = d.nextEnabled ∧
      (d.pressed setup a).nextText = d.nextText := by
  obtain hp | ⟨row, hp⟩ := pressed_eq setup d a <;> rw [hp]
  · exact ⟨rfl, rfl, rfl, rfl⟩
  · unfold setCurrentRow
    split <;> exact ⟨rfl, rfl, rfl, rfl⟩

/-- A failing action that garbles no page brings its stop to no page in the stack. -/
theorem notMem_pressed_of_not_garbles {a : Action} {s : Stop} {k : String}
    (hg : ¬ Garbles setup d (.act a)) (hf : (d.act setup a).2 ≠ none)
    (hc : d.comesTo setup a = some s) (hk : s.key? = some k) :
    Page.question k ∉ (d.pressed setup a).stack.pages := by
  rw [(pressed_frame setup d a).1]
  exact fun hmem => hg ⟨hf, k, by rw [hc]; exact hk, hmem⟩

/-! ## Pages that present what they were asked -/

/-- That every question's page in the stack presents what it was asked. -/
def Presenting (d : Dialog) : Prop :=
  ∀ k, Page.question k ∈ d.stack.pages → ∃ p q, d.pages.get? k = some p ∧ p.Presents k q

namespace Presenting

theorem congr (h : Presenting d) (hs : SameScreen d d') : Presenting d' := by
  intro k hk
  rw [hs.stack] at hk
  rw [hs.pages]
  exact h k hk

/-- A page in the stack may be changed as long as it presents the same. -/
theorem setPage {k : String} {p p' : QuestionPage} (h : Presenting d)
    (hp : d.pages.get? k = some p) (hp' : ∀ q, p.Presents k q → p'.Presents k q) :
    Presenting (d.setPage k p') := by
  intro k' hk'
  obtain ⟨p₁, q, hp₁, hq⟩ := h k' hk'
  by_cases he : k = k'
  · subst he
    cases hp.symm.trans hp₁
    exact ⟨p', q, by simp, hp' q hq⟩
  · exact ⟨p₁, q, by simp [he, hp₁], hq⟩

/-- A page that is not in the stack may be changed. -/
theorem setPage_of_notMem {k : String} (h : Presenting d) (hk : Page.question k ∉ d.stack.pages)
    (p : QuestionPage) : Presenting (d.setPage k p) := by
  intro k' hk'
  have hne : k ≠ k' := by
    rintro rfl
    exact hk hk'
  obtain ⟨p₁, q, hp₁, hq⟩ := h k' hk'
  exact ⟨p₁, q, by simp [hne, hp₁], hq⟩

theorem setCurrentRow (h : Presenting d) (row : Nat) : Presenting (d.setCurrentRow setup row) := by
  unfold Dialog.setCurrentRow
  split
  · rename_i k p ht
    exact h.setPage (get?_of_topQuestion? ht).2 fun q hq => hq.setCurrent row
  · exact h

theorem pressed (h : Presenting d) (a : Action) : Presenting (d.pressed setup a) := by
  obtain hp | ⟨row, hp⟩ := pressed_eq setup d a <;> rw [hp]
  · exact h
  · exact h.setCurrentRow row

theorem setCheckedRow (h : Presenting d) (row : Nat) (on : Bool) :
    Presenting (d.setCheckedRow row on) := by
  unfold Dialog.setCheckedRow
  split
  · rename_i k p ht
    exact h.setPage (get?_of_topQuestion? ht).2 fun q hq => hq.setChecked row on
  · exact h

theorem setTweakRow (h : Presenting d) (row : Nat) : Presenting (d.setTweakRow row) :=
  fun k hk => h k (question_mem_of_setTweakRow hk)

theorem update (h : Presenting d) : Presenting d.update := by
  intro k hk
  rw [stack_update] at hk
  obtain ⟨p, q, hp, hq⟩ := h k hk
  rw [get?_update, hp]
  split
  · exact ⟨p.focus, q, rfl, hq.focus⟩
  · exact ⟨p, q, rfl, hq⟩

theorem back (h : Presenting d) : Presenting d.back :=
  update (d := { d with stack := d.stack.pop }) fun k hk =>
    h k (Stack.pages_pop_sublist.subset hk)

/-- A stop that is shown is presented by its page. -/
theorem showStop {s : Stop} (h : Presenting d) (hs : (showStop setup d s).2 = none) :
    Presenting (showStop setup d s).1 := by
  obtain ⟨P, d₁, he, -, hP, hother⟩ := showStop_of_shown hs
  obtain ⟨Ps, hPs, hsub⟩ := Stack.pages_push (s := d.stack) (P := P)
  rw [he]
  refine update fun k hk => ?_
  rw [hPs, List.mem_append, List.mem_singleton] at hk
  by_cases hPk : P = .question k
  · subst hPk
    obtain ⟨p, q, hp, -, hq⟩ := hP
    exact ⟨p, q, hp, hq⟩
  · obtain ⟨p, q, hp, hq⟩ := h k (hsub.subset (hk.resolve_right fun he => hPk he.symm))
    exact ⟨p, q, (hother k hPk).trans hp, hq⟩

theorem touch (h : Presenting d) (ht : Touch setup d d') : Presenting d' := by
  cases ht with
  | aside hs => exact h.congr hs
  | current row hs => exact (h.setCurrentRow row).congr hs
  | check row on => exact h.setCheckedRow row on
  | tweak row => exact h.setTweakRow row
  | back => exact h.back

/-- An action keeps the pages presenting, unless it brings a page in the stack what it cannot
show. -/
theorem act {a : Action} (h : Presenting d) (hg : ¬ Garbles setup d (.act a)) :
    Presenting (d.act setup a).1 := by
  by_cases hf : (d.act setup a).2 = none
  · cases hc : d.comesTo setup a with
    | none => exact h.touch (act_of_comesTo_eq_none hc)
    | some s =>
      obtain ⟨d', hd', -, ha⟩ := act_of_comesTo hc
      rw [ha] at hf ⊢
      exact ((h.pressed a).congr hd').showStop hf
  · obtain ⟨hs, -⟩ | ⟨s, k, p, hc, hk, -, -, hs⟩ := act_of_fault hf
    · exact (h.pressed a).congr hs
    · have hnot := notMem_pressed_of_not_garbles hg hf hc hk
      exact ((h.pressed a).setPage_of_notMem hnot _).congr hs

/-- An action that brings a page in the stack what it cannot show leaves it with the rows of
one question, asked another. -/
theorem not_act {a : Action} (h : Presenting d) (hg : Garbles setup d (.act a)) :
    ¬ Presenting (d.act setup a).1 := by
  obtain ⟨hf, k, hk, hmem⟩ := hg
  obtain ⟨s, hc, hk⟩ := Option.bind_eq_some_iff.mp hk
  rw [← (pressed_frame setup d a).1] at hmem
  obtain ⟨p, q, hp, hq⟩ := h.pressed a k hmem
  obtain ⟨-, hunknown⟩ | ⟨s', k', p', hc', hk', hp', hrefused, hs⟩ := act_of_fault hf
  · have hknown := knownPage?_eq_some_iff.mpr ⟨hk, hp⟩
    rw [hunknown s hc] at hknown
    cases hknown
  · cases hc.symm.trans hc'
    cases hk.symm.trans hk'
    cases hp.symm.trans hp'
    intro hafter
    -- had the page as many rows as what it was asked has answers, it could have shown it
    obtain ⟨p₁, q₁, hp₁, hq₁⟩ := hafter k (by rw [hs.stack]; exact hmem)
    rw [hs.pages, pages_setPage, Table.get?_insert, if_pos rfl] at hp₁
    cases hp₁
    exact hrefused (QuestionPage.ask_eq_none_iff.mpr ⟨k, q₁, hq₁.asked_eq, hq₁.length_rows⟩)

end Presenting

theorem presenting_start {g : Guess} (h : start setup (blank g) = (d, none)) : Presenting d := by
  obtain ⟨P, d₁, s, rfl, -, -, hsh⟩ := start_eq_none h
  refine Presenting.update fun k hk => ?_
  rw [List.mem_singleton] at hk
  subst hk
  obtain ⟨p, q, hp, -, hq⟩ := hsh
  exact ⟨p, q, hp, hq⟩

/-- The pages in the stack present what they were asked throughout a run exactly if no event of
it brings one of them what it cannot show. -/
theorem always_presenting_iff {es : List Event} (h : Presenting d) :
    Always setup Presenting d es ↔ Along setup (fun d e => ¬ Garbles setup d e) d es :=
  always_iff_along (J := fun _ => True) (C := fun _ _ => True) (fun _ _ _ _ => trivial)
    (fun _ _ _ _ h => ⟨fun hafter hg => h.not_act hg hafter, h.act⟩) (fun _ _ => id) trivial
    (along_of_forall (fun _ _ => trivial) es) h

/-! ## What stays -/

/-- An action that fails leaves the stack and the buttons. -/
theorem frame_of_fault {a : Action} (hf : (d.act setup a).2 ≠ none) :
    (d.act setup a).1.stack = d.stack ∧ (d.act setup a).1.backEnabled = d.backEnabled ∧
      (d.act setup a).1.nextEnabled = d.nextEnabled ∧
      (d.act setup a).1.nextText = d.nextText := by
  obtain ⟨hstack, hback, hnext, htext⟩ := pressed_frame setup d a
  obtain ⟨hs, -⟩ | ⟨s, k, p, -, -, -, -, hs⟩ := act_of_fault hf
  · exact ⟨hs.stack.trans hstack, hs.backEnabled.trans hback, hs.nextEnabled.trans hnext,
      hs.nextText.trans htext⟩
  · exact ⟨hs.stack.trans hstack, hs.backEnabled.trans hback, hs.nextEnabled.trans hnext,
      hs.nextText.trans htext⟩

/-- An action that fails leaves all that is on a page, but for what the page was asked. -/
theorem exists_asked_of_fault {a : Action} (hf : (d.act setup a).2 ≠ none) {k : String}
    {p : QuestionPage} (hp : (d.pressed setup a).pages.get? k = some p) :
    ∃ s, (d.act setup a).1.pages.get? k = some { p with asked := s } := by
  obtain ⟨hs, -⟩ | ⟨s, k', p', -, -, hp', -, hs⟩ := act_of_fault hf
  · exact ⟨p.asked, by rw [hs.pages, hp]⟩
  · rw [hs.pages, pages_setPage, Table.get?_insert]
    by_cases hk : k' = k
    · subst hk
      cases hp.symm.trans hp'
      exact ⟨s, if_pos rfl⟩
    · exact ⟨p.asked, by rw [if_neg hk, hp]⟩

/-- That an action comes to a stop whose key has a page that was asked something else. -/
def Overwrites (setup : Setup) (d : Dialog) (a : Action) : Prop :=
  ∃ s ∈ d.comesTo setup a, ∃ x ∈ (d.pressed setup a).knownPage? s, x.2.asked ≠ s

instance (d : Dialog) (a : Action) : Decidable (Overwrites setup d a) :=
  inferInstanceAs (Decidable (∃ s ∈ d.comesTo setup a,
    ∃ x ∈ (d.pressed setup a).knownPage? s, x.2.asked ≠ s))

/-- An action that fails leaves the screen exactly if it overwrites nothing. -/
theorem sameScreen_iff_of_fault {a : Action} (hf : (d.act setup a).2 ≠ none) :
    SameScreen (d.pressed setup a) (d.act setup a).1 ↔ ¬ Overwrites setup d a := by
  obtain ⟨hs, hunknown⟩ | ⟨s, k, p, hc, hk, hp, -, hs⟩ := act_of_fault hf
  · refine iff_of_true hs ?_
    rintro ⟨s, hc, x, hx, -⟩
    rw [hunknown s hc] at hx
    cases hx
  · have hknown : (d.pressed setup a).knownPage? s = some (k, p) :=
      knownPage?_eq_some_iff.mpr ⟨hk, hp⟩
    constructor
    · rintro hsame ⟨s', hc', x, hx, hne⟩
      cases hc.symm.trans hc'
      cases hknown.symm.trans hx
      have hpage := hs.pages.symm.trans hsame.pages
      have hget := congrArg (Table.get? · k) hpage
      simp only [pages_setPage, Table.get?_insert, if_pos, hp, Option.some.injEq] at hget
      exact hne (congrArg QuestionPage.asked hget).symm
    · intro hkept
      have hasked : p.asked = s :=
        Decidable.byContradiction fun hne => hkept ⟨s, hc, (k, p), hknown, hne⟩
      have hsame : { p with asked := s } = p := by rw [← hasked]
      rw [hsame] at hs
      refine ⟨hs.stack, ?_, hs.backEnabled, hs.nextEnabled, hs.nextText⟩
      rw [hs.pages, pages_setPage, Table.insert_of_get?_eq_some hp]

/-- An action that fails and garbles no page leaves the pages in the stack. -/
theorem get?_of_fault_of_not_garbles {a : Action} (hf : (d.act setup a).2 ≠ none)
    (hg : ¬ Garbles setup d (.act a)) {k : String} (hk : Page.question k ∈ d.stack.pages) :
    (d.act setup a).1.pages.get? k = (d.pressed setup a).pages.get? k := by
  obtain ⟨hs, -⟩ | ⟨s, k', p, hc, hk', -, -, hs⟩ := act_of_fault hf
  · rw [hs.pages]
  · have hne : k' ≠ k := by
      rintro rfl
      exact hg ⟨hf, k', by rw [hc]; exact hk', hk⟩
    rw [hs.pages, pages_setPage, Table.get?_insert, if_neg hne]

/-- An action that fails leaves the stack and the buttons, and all that is on the pages (with the
row that a double click has made current) but for what they were asked.  It leaves that too
exactly if it comes to no stop whose key has a page that was asked something else.  Pages in the
stack that present what they were asked stay as they are, and still present it, exactly if it
comes to no stop whose key has a page in the stack. -/
theorem act_spares_iff {a : Action} {f : Fault} (h : (d.act setup a).2 = some f) :
    ((d.act setup a).1.stack = d.stack ∧ (d.act setup a).1.backEnabled = d.backEnabled ∧
      (d.act setup a).1.nextEnabled = d.nextEnabled ∧
      (d.act setup a).1.nextText = d.nextText) ∧
    (∀ k p, (d.pressed setup a).pages.get? k = some p →
      ∃ s, (d.act setup a).1.pages.get? k = some { p with asked := s }) ∧
    (SameScreen (d.pressed setup a) (d.act setup a).1 ↔ ¬ Overwrites setup d a) ∧
    (Presenting d →
      ((∀ k, Page.question k ∈ d.stack.pages →
          (d.act setup a).1.pages.get? k = (d.pressed setup a).pages.get? k) ↔
        ¬ Garbles setup d (.act a)) ∧
      (Presenting (d.act setup a).1 ↔ ¬ Garbles setup d (.act a))) := by
  have hf : (d.act setup a).2 ≠ none := by simp [h]
  refine ⟨frame_of_fault hf, fun k p => exists_asked_of_fault hf, sameScreen_iff_of_fault hf, ?_⟩
  intro hpre
  refine ⟨⟨fun hsame hg => ?_, fun hg k => get?_of_fault_of_not_garbles hf hg⟩,
    fun hafter hg => hpre.not_act hg hafter, hpre.act⟩
  -- pages that stay as they are present what they did, and a garbled page does not
  refine hpre.not_act hg fun k hk => ?_
  rw [(frame_of_fault hf).1] at hk
  rw [hsame k hk]
  exact hpre.pressed a k (by rwa [(pressed_frame setup d a).1])

/-! ### A page that cannot be made

The script asks for a graphics extender, and there is no page to say so without a script
extender. -/

namespace NoExtender

open SharedKey (organizer answer question)

def script : Script where
  start := "a"
  nodes := .ofList
    [("a", ⟨"a", .question (question "first" [answer "x" none, answer "y" none] "r")⟩),
     ("r", ⟨"r", .requirement ⟨"", "", "1.0", ""⟩ (some "e")⟩),
     ("e", ⟨"e", .done ⟨[], [], [], ∅, ∅⟩ none⟩)]

def lacking : Setup where
  organizer := organizer
  script := script
  packages := []
  images := ∅
  remembered := ∅

/-- The dialog as it is opened. -/
def opened : Dialog := (start lacking (blank ⟨"Mod", ["Mod"]⟩)).1

end NoExtender

open NoExtender in
/-- A double click on the other answer fails, and leaves the screen with that row current. -/
theorem act_spares_lacking :
    (opened.act lacking (.doubleClick 1)).2 = some .noExtender ∧
    SameScreen (opened.setCurrentRow lacking 1) (opened.act lacking (.doubleClick 1)).1 := by
  have hfault : (opened.act lacking (.doubleClick 1)).2 = some .noExtender := by decide +kernel
  have hspares : ¬ Overwrites lacking opened (.doubleClick 1) := by decide +kernel
  exact ⟨hfault, (act_spares_iff hfault).2.2.1.mpr hspares⟩

open SharedKey in
/-- Going on to the question "third" fails, and the page of "first", which is in the stack, does
not stay as it was: it has the rows of "first", and was asked "third". -/
theorem not_sameScreen_garbling :
    Reachable sharing (play sharing opened [.act .next]).2 ∧
    ((play sharing opened [.act .next]).2.act sharing .next).2 = some .answerCount ∧
    ¬ SameScreen (play sharing opened [.act .next]).2
        ((play sharing opened [.act .next]).2.act sharing .next).1 ∧
    Presenting (play sharing opened [.act .next]).2 ∧
    ¬ Presenting ((play sharing opened [.act .next]).2.act sharing .next).1 := by
  have hpresenting : Presenting (play sharing opened [.act .next]).2 :=
    ((always_presenting_iff (presenting_start start_sharing)).mpr (by decide +kernel)).last
  refine ⟨⟨_, _, _, start_sharing, rfl⟩, by decide +kernel, fun hs => ?_, hpresenting, ?_⟩
  · have hpage : ((play sharing opened [.act .next]).2.act sharing .next).1.pages ≠
        (play sharing opened [.act .next]).2.pages := by decide +kernel
    exact hpage hs.pages
  · exact hpresenting.not_act (by decide +kernel)

end ModWizard.Dialog
