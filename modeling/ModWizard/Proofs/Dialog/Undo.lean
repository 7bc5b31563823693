import ModWizard.Proofs.Dialog.Acceptance

/-!
# A step on and a step back

Going on pushes a page upon the stack, and going back takes it away again: the user sees what
was there before (`SameView`).  It is not so if the page that is to be shown is in the stack
already, as it is when a script goes round and comes to a question again.  The page moves to the
end of the stack then, and going back takes it away for good.
-/

namespace ModWizard.Dialog

open Script (Stop)

variable {setup : Setup} {d d' : Dialog}

/-! ## What the user sees -/

/-- What is on a page: all but how often it was given the focus. -/
def QuestionPage.face (p : QuestionPage) : QuestionPage := { p with focused := 0 }

@[simp] theorem QuestionPage.face_focus (p : QuestionPage) : p.focus.face = p.face := rfl

/-- What is on the page of a question. -/
def face? (d : Dialog) (k : String) : Option QuestionPage := (d.pages.get? k).map (·.face)

/-- An update leaves what is on the pages. -/
@[simp] theorem face?_update (k : String) : d.update.face? k = d.face? k := by
  rw [face?, get?_update]
  split
  · simp [face?, Function.comp_def]
  · rfl

theorem stack_back : d.back.stack = d.stack.pop := stack_update _

/-- Going back leaves what is on the pages. -/
theorem face?_back (k : String) : d.back.face? k = d.face? k := face?_update k

/-- That the user of two dialogs sees the same: the pages in the stack and what is on them, and
the buttons. -/
structure SameView (d d' : Dialog) : Prop where
  stack : d'.stack = d.stack
  faces : ∀ k, Page.question k ∈ d.stack.pages → d'.face? k = d.face? k
  backEnabled : d'.backEnabled = d.backEnabled
  nextEnabled : d'.nextEnabled = d.nextEnabled
  nextText : d'.nextText = d.nextText

/-- What is seen depends on the screen only. -/
theorem SameView.of_sameScreen {d₀ : Dialog} (h : SameView d d') (hs : SameScreen d₀ d) :
    SameView d₀ d' where
  stack := h.stack.trans hs.stack
  faces := by
    intro k hk
    rw [h.faces k (by rwa [hs.stack]), face?, hs.pages, face?]
  backEnabled := h.backEnabled.trans hs.backEnabled
  nextEnabled := h.nextEnabled.trans hs.nextEnabled
  nextText := h.nextText.trans hs.nextText

/-- Two dialogs with the same stack have the same buttons, on pages after which the button to go
on is named. -/
theorem SameView.of_lit {P : Page} {t : String} (hl : Lit d) (hl' : Lit d')
    (hs : d'.stack = d.stack)
    (hf : ∀ k, Page.question k ∈ d.stack.pages → d'.face? k = d.face? k)
    (hP : d.top? = some P) (ht : P.label? = some t) : SameView d d' := by
  have hP' : d'.top? = some P := by rw [Dialog.top?, hs]; exact hP
  refine ⟨hs, hf, ?_, ?_, ?_⟩
  · rw [Bool.eq_iff_iff, hl.back, hl'.back, hs]
  · rw [hl.next P hP, hl'.next P hP']
  · rw [hl.text P t hP ht, hl'.text P t hP' ht]

/-! ## Pushing and taking away -/

namespace Stack

variable {s : Stack} {P : Page}

/-- Taking away a page that was pushed upon a stack without it gives the stack back. -/
theorem pop_push (h : s.current = some (s.pages.length - 1)) (hn : s.pages ≠ [])
    (hP : ∀ k, P = .question k → P ∉ s.pages) : (s.push P).pop = s := by
  have hl : 0 < s.pages.length := List.length_pos_iff.mpr hn
  have hpush := pages_push_of_notMem hP
  have hlast : (s.push P).current = some ((s.push P).pages.length - 1) := current_push s P
  rw [pop_of_current_eq_last hlast (by rw [hpush, List.length_append]; simp; omega), hpush,
    List.dropLast_concat, ← h]

/-- A question's page that is in the stack moves to its end. -/
theorem pages_push_of_mem {k : String} (h : Page.question k ∈ s.pages) :
    (s.push (.question k)).pages = s.pages.erase (.question k) ++ [.question k] := by
  cases hi : s.place? (.question k) with
  | none => exact absurd h (place?_eq_none_iff.mp hi)
  | some i =>
    have hidx : s.pages.idxOf? (Page.question k) = some i := hi
    rw [pages_push_of_place?_eq_some hi, List.erase_eq_eraseIdx, hidx]

end Stack

/-! ## Going on and back -/

/-- A run of the script that comes to no stop is a fault. -/
theorem fault_runFrom_of_stopFrom?_eq_none {next : Option String}
    (h : stopFrom? setup (.page next) = none) : (runFrom setup d next).2 ≠ none := by
  unfold stopFrom? at h
  unfold runFrom
  cases hr : setup.script.run setup.organizer (.page next) with
  | ok s => rw [hr] at h; cases h
  | error f => simp

/-- Going on that neither fails nor accepts the dialog comes to a stop. -/
theorem exists_stopAfter_of_next (hs : Sound d) (h : d.next setup = (d', none))
    (ho : d'.verdict = none) : ∃ s, d.stopAfter? setup = some s := by
  cases hst : d.stopAfter? setup with
  | some s => exact ⟨s, rfl⟩
  | none =>
    exfalso
    obtain ⟨n, P, hl, hn, hP⟩ := hs.exists_top
    unfold next at h
    cases P with
    | question k =>
      obtain ⟨p, hp⟩ := hs.known k (List.mem_of_getElem? hn)
      simp only [hP, hp] at h
      cases hd : p.depart with
      | error f => simp only [hd] at h; cases h
      | ok exit =>
        have hnone : stopFrom? setup (.page exit.next) = none := by
          simpa [stopAfter?, hP, exit?, hp, hd, Except.toOption] using hst
        simp only [hd] at h
        exact fault_runFrom_of_stopFrom?_eq_none hnone (congrArg Prod.snd h)
    | requirement p =>
      have hnone : stopFrom? setup (.page p.next) = none := by
        simpa [stopAfter?, hP, exit?] using hst
      simp only [hP] at h
      exact fault_runFrom_of_stopFrom?_eq_none hnone (congrArg Prod.snd h)
    | complete p => simp only [hP] at h; cases h; cases ho
    | cancelled m => simp only [hP] at h; cases h; cases ho
    | failed m => simp only [hP] at h; cases h; cases ho

/-- A page that leads somewhere names the button to go on. -/
theorem exists_label_of_stopAfter {s : Stop} (h : d.stopAfter? setup = some s) :
    ∃ P t, d.top? = some P ∧ P.label? = some t := by
  simp only [stopAfter?, Option.bind_eq_some_iff] at h
  obtain ⟨id, ⟨P, hP, hid⟩, -⟩ := h
  cases P with
  | question k => exact ⟨_, _, hP, rfl⟩
  | requirement p => exact ⟨_, _, hP, rfl⟩
  | complete p => cases hid
  | cancelled m => cases hid
  | failed m => cases hid

/-- A stop whose key has no page in the stack is shown upon the stack, from where there is going
back, and going back gives the view that was there before. -/
theorem sameView_back_showStop {s : Stop} (hs : Sound d) (hl : Lit d)
    (hstop : d.stopAfter? setup = some s) (hsh : (showStop setup d s).2 = none)
    (hfr : ∀ k, s.key? = some k → Page.question k ∉ d.stack.pages) :
    (showStop setup d s).1.stack.pages.length = d.stack.pages.length + 1 ∧
      (showStop setup d s).1.backEnabled = true ∧ SameView d (showStop setup d s).1.back := by
  obtain ⟨P, d₁, he, -, hP, hother⟩ := showStop_of_shown hsh
  obtain ⟨Q, t, hQ, ht⟩ := exists_label_of_stopAfter hstop
  have hmem : ∀ k, P = .question k → P ∉ d.stack.pages := by
    rintro k rfl
    exact hfr k hP.key?
  have hlen : (d.stack.push P).pages.length = d.stack.pages.length + 1 := by
    rw [Stack.pages_push_of_notMem hmem, List.length_append, List.length_singleton]
  have hpos : 0 < d.stack.pages.length := List.length_pos_iff.mpr hs.ne_nil
  rw [he]
  refine ⟨by rw [stack_update, hlen], ?_, ?_⟩
  · refine backEnabled_update.mpr ⟨d.stack.pages.length - 1, ?_⟩
    rw [Stack.current_push, hlen, Nat.add_sub_cancel, Nat.sub_add_cancel hpos]
  · refine .of_lit hl (lit_update _) ?_ ?_ hQ ht
    · rw [stack_back, stack_update, Stack.pop_push hs.current hs.ne_nil hmem]
    · intro k hk
      have hne : P ≠ .question k := by
        rintro rfl
        exact hmem k rfl hk
      rw [face?_back, face?_update]
      simp only [face?, hother k hne]

/-- A stop whose key has a page in the stack is shown at the end of the stack by that page. -/
theorem pages_showStop_of_mem {s : Stop} {k : String} (hs : Sound d)
    (hsh : (showStop setup d s).2 = none) (hk : s.key? = some k)
    (hmem : Page.question k ∈ d.stack.pages) :
    (showStop setup d s).1.stack.pages = d.stack.pages.erase (.question k) ++ [.question k] := by
  obtain ⟨p, hp⟩ := hs.known k hmem
  rw [fault_showStop_of_known hk hp] at hsh
  rw [showStop_of_known_of_shown hk hp hsh, stack_update]
  exact Stack.pages_push_of_mem hmem

/-- Going on that shows a page makes the stack one page higher, and going back then, by the button
or by the keyboard, gives the view that was there before, exactly if the stop that is shown has
no page in the stack.  If it has one, that page moves to the end of the stack. -/
theorem back_next_iff (hr : Reachable setup d) (h : d.next setup = (d', none))
    (ho : d'.verdict = none) :
    ∃ s, d.stopAfter? setup = some s ∧
      ((d'.stack.pages.length = d.stack.pages.length + 1 ∧
          ∀ b ∈ [Action.back, .backspace], SameView d (d'.act setup b).1) ↔
        ∀ k, s.key? = some k → Page.question k ∉ d.stack.pages) ∧
      ∀ k, s.key? = some k → Page.question k ∈ d.stack.pages →
        d'.stack.pages = d.stack.pages.erase (.question k) ++ [.question k] := by
  obtain ⟨s, hs⟩ := exists_stopAfter_of_next hr.sound h ho
  obtain ⟨d₁, hsame, -, hnext⟩ := next_of_stopAfter?_eq_some hs
  have hshow : showStop setup d₁ s = (d', none) := hnext.symm.trans h
  have hsh : (showStop setup d₁ s).2 = none := by rw [hshow]
  have hsound : Sound d₁ := hr.sound.congr hsame
  have hlit : Lit d₁ := hr.lit.congr hsame
  have hmoved : ∀ k, s.key? = some k → Page.question k ∈ d.stack.pages →
      d'.stack.pages = d.stack.pages.erase (.question k) ++ [.question k] := by
    intro k hk hmem
    rw [← hsame.stack] at hmem ⊢
    have hpages := pages_showStop_of_mem hsound hsh hk hmem
    rwa [hshow] at hpages
  refine ⟨s, hs, ⟨?_, fun hfr => ?_⟩, hmoved⟩
  · rintro ⟨hlen, -⟩ k hk hmem
    have hpos : 0 < d.stack.pages.length := List.length_pos_of_mem hmem
    rw [hmoved k hk hmem, List.length_append, List.length_erase_of_mem hmem,
      List.length_singleton] at hlen
    omega
  · have hundone := sameView_back_showStop hsound hlit (hsame.stopAfter?.trans hs) hsh
      (by rwa [hsame.stack])
    rw [hshow, hsame.stack] at hundone
    obtain ⟨hlen, hback, hview⟩ := hundone
    have hview : SameView d d'.back := hview.of_sameScreen hsame
    refine ⟨hlen, ?_⟩
    simp only [List.forall_mem_cons, act, if_pos hback, List.not_mem_nil, false_implies,
      implies_true, and_true]
    exact ⟨hview, hview⟩

/-! ### A script that goes round

The question "where" leads to the question "sure", and that leads back to "where", unless the
user wants to stop. -/

namespace GoingRound

open SharedKey (organizer answer question)

def script : Script where
  start := "a"
  nodes := .ofList
    [("a", ⟨"a", .question (question "where" [answer "on" none, answer "stop" (some "e")] "b")⟩),
     ("b", ⟨"b", .question (question "sure" [answer "yes" none] "a")⟩),
     ("e", ⟨"e", .done ⟨[], [], [], ∅, ∅⟩ none⟩)]

def round : Setup where
  organizer := organizer
  script := script
  packages := []
  images := ∅
  remembered := ∅

/-- The dialog as it is opened. -/
def opened : Dialog := (start round (blank ⟨"Mod", ["Mod"]⟩)).1

/-- The dialog on the question "sure". -/
def sure : Dialog := (play round opened [.act .next]).2

/-- The dialog on the question "where" for the second time, where the user wants to stop. -/
def stopping : Dialog := (play round opened [.act .next, .act .next, .act (.setCurrent 1)]).2

theorem start_round : start round (blank ⟨"Mod", ["Mod"]⟩) = (opened, none) :=
  Prod.ext rfl (by decide +kernel)

end GoingRound

open GoingRound in
/-- The step to the end can be undone, also after going round. -/
theorem back_next_stopping :
    Reachable round stopping ∧ (stopping.next round).2 = none ∧
    (stopping.next round).1.verdict = none ∧
    ∀ b ∈ [Action.back, .backspace], SameView stopping ((stopping.next round).1.act round b).1 := by
  have hreach : Reachable round stopping := ⟨_, _, _, start_round, rfl⟩
  have hnone : (stopping.next round).2 = none := by decide +kernel
  have hopen : (stopping.next round).1.verdict = none := by decide +kernel
  have hstop : (stopping.stopAfter? round).bind Stop.key? = some "e" := by decide +kernel
  have hfresh : Page.question "e" ∉ stopping.stack.pages := by decide +kernel
  obtain ⟨s, hs, hiff, -⟩ := back_next_iff hreach (Prod.ext rfl hnone) hopen
  rw [hs, Option.bind_some] at hstop
  refine ⟨hreach, hnone, hopen, (hiff.mpr fun k hk => ?_).2⟩
  cases hstop.symm.trans hk
  exact hfresh

open GoingRound in
/-- The step from "sure" round to "where" shows a page, but the stack does not grow, and going back
does not give the view back: the first page is gone. -/
theorem not_sameView_round :
    Reachable round sure ∧ (sure.next round).2 = none ∧ (sure.next round).1.verdict = none ∧
    (sure.next round).1.stack.pages.length = sure.stack.pages.length ∧
    ∀ b ∈ [Action.back, .backspace], ¬ SameView sure ((sure.next round).1.act round b).1 := by
  refine ⟨⟨_, _, _, start_round, rfl⟩, by decide +kernel, by decide +kernel, by decide +kernel,
    fun b hb h => ?_⟩
  have hgone : ∀ b ∈ [Action.back, .backspace],
      ((sure.next round).1.act round b).1.stack ≠ sure.stack := by decide +kernel
  exact hgone b hb h.stack

end ModWizard.Dialog
