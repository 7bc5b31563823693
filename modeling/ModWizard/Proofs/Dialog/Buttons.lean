import ModWizard.Proofs.Dialog.Acceptance

/-!
# Stack and buttons

Three parts of the dialog are kept in line by hand: the stack, the button to go back, and the
button to go on with its text.  `Navigable` says how they belong together, and it holds of every
dialog of every run.

On the page of a cancelled or failed script the button to go on keeps the text that it had, so
the text depends on more than the current page.  It is that of the last page which names it
(`wording`), for such a page stands only on top of pages that lead on (`Lettered`).
-/

namespace ModWizard.Dialog

open Script (Stop)

variable {setup : Setup} {d d' : Dialog}

/-! ## What the button to go on says -/

/-- Whether a page leads to another one. -/
def Page.leadsOn : Page → Bool
  | .question _ => true
  | .requirement _ => true
  | _ => false

/-- What the button to go on says over some pages, the last of which is current.  On the page of
a cancelled or failed script it says what it says on the page below, and at first "Next". -/
def wording (pages : List Page) : String := pages.foldl (fun t P => P.label?.getD t) "Next"

@[simp] theorem wording_nil : wording [] = "Next" := rfl

@[simp] theorem wording_concat (Ps : List Page) (P : Page) :
    wording (Ps ++ [P]) = P.label?.getD (wording Ps) := by
  simp [wording]

theorem Page.label?_ne_none_of_leadsOn {P : Page} (h : P.leadsOn) : P.label? ≠ none := by
  cases P <;> simp_all [leadsOn, label?]

/-- An update leaves what the button to go on says on a page that does not name it. -/
theorem nextText_update_eq {P : Page} (h : d.top? = some P) :
    d.update.nextText = P.label?.getD d.nextText := by
  cases hl : P.label? with
  | some t => exact nextText_update h hl
  | none =>
    have htop : d.updateBack.top? = some P := h
    rw [update, nextText_updateFocus]
    cases P with
    | cancelled m => simp only [updateNext, htop]; rfl
    | failed m => simp only [updateNext, htop]; rfl
    | _ => cases hl

/-- A page is made without a change of anything but the pages of questions. -/
theorem exists_pages_of_makePage {P : Page} {s : Stop} (h : makePage setup d s = .ok (P, d')) :
    ∃ pages, d' = { d with pages := pages } := by
  cases s with
  | question k q =>
    simp only [makePage] at h
    cases hc : QuestionPage.create setup.images (setup.remembered.get? q.description) k q with
    | error f => rw [hc] at h; cases h
    | ok p => rw [hc] at h; cases h; exact ⟨_, rfl⟩
  | requirement k r next =>
    simp only [makePage] at h
    cases hc : RequirementPage.create setup.organizer r next with
    | error f => rw [hc] at h; cases h
    | ok p => rw [hc] at h; cases h; exact ⟨_, rfl⟩
  | done k o next => cases h; exact ⟨_, rfl⟩
  | cancel k m next => cases h; exact ⟨_, rfl⟩
  | error m => cases h; exact ⟨_, rfl⟩
  | stuck k next => cases h

/-! ## Pages that lead on -/

/-- A change of the current page, where that is the last. -/
theorem Stack.modifyTop_concat (Ps : List Page) (P : Page) (f : Page → Page) :
    (Stack.mk (Ps ++ [P]) (some Ps.length)).modifyTop f = ⟨Ps ++ [f P], some Ps.length⟩ := by
  have hl : Ps.length < (Ps ++ [P]).length := by simp
  simp only [modifyTop, List.modify_eq_take_cons_drop hl]
  simp

/-- A page but for the tweak file that is looked at. -/
def Page.still : Page → Page
  | .complete p => .complete { p with row := none, text := "" }
  | P => P

@[simp] theorem Page.isDeadEnd_still (P : Page) : P.still.isDeadEnd = P.isDeadEnd := by
  cases P <;> rfl

@[simp] theorem Page.label?_still (P : Page) : P.still.label? = P.label? := by
  cases P <;> rfl

/-- Looking at another tweak file leaves the pages below the current one, and that but for what is
looked at. -/
theorem exists_stack_setTweakRow {Ps : List Page} {P : Page}
    (hst : d.stack = ⟨Ps ++ [P], some Ps.length⟩) (row : Nat) :
    ∃ Q, (d.setTweakRow row).stack = ⟨Ps ++ [Q], some Ps.length⟩ ∧ Q.still = P.still := by
  refine ⟨_, by rw [setTweakRow, hst, Stack.modifyTop_concat], ?_⟩
  cases P with
  | complete p => rw [Page.still, Page.still, CompletePage.setRow_eq p row]
  | _ => rfl

/-- A pushed page is the last and the current one, and those below it were there. -/
theorem Stack.exists_push (s : Stack) (P : Page) :
    ∃ Ps, s.push P = ⟨Ps ++ [P], some Ps.length⟩ ∧ Ps.Sublist s.pages := by
  obtain ⟨Ps, hPs, hsub⟩ := pages_push (s := s) (P := P)
  have hc : (s.push P).current = some Ps.length := by
    rw [current_push, hPs, List.length_append, List.length_singleton, Nat.add_sub_cancel]
  exact ⟨Ps, by rw [← hPs, ← hc], hsub⟩

/-- The pages of a sound dialog, the current one last. -/
theorem Sound.exists_stack (h : Sound d) :
    ∃ Ps P, d.stack = ⟨Ps ++ [P], some Ps.length⟩ ∧ d.top? = some P := by
  refine ⟨d.stack.pages.dropLast, d.stack.pages.getLast h.ne_nil, ?_, h.top?⟩
  rw [List.dropLast_concat_getLast, List.length_dropLast, ← h.current]

/-- That only the current page may be one that leads nowhere, and that the button to go on has
its text from the last page that names it. -/
structure Lettered (d : Dialog) : Prop where
  /-- every page below the current one leads on -/
  leading : ∀ P ∈ d.stack.pages.dropLast, P.leadsOn = true
  /-- the button to go on is named by the pages -/
  text : d.nextText = wording d.stack.pages

namespace Lettered

theorem congr (h : Lettered d) (hs : SameScreen d d') : Lettered d' where
  leading := by rw [hs.stack]; exact h.leading
  text := by rw [hs.stack, hs.nextText]; exact h.text

theorem setPage (h : Lettered d) (k : String) (p : QuestionPage) : Lettered (d.setPage k p) :=
  ⟨h.leading, h.text⟩

theorem setCurrentRow (h : Lettered d) (row : Nat) : Lettered (d.setCurrentRow setup row) := by
  unfold Dialog.setCurrentRow
  split
  · exact h.setPage _ _
  · exact h

theorem setCheckedRow (h : Lettered d) (row : Nat) (on : Bool) :
    Lettered (d.setCheckedRow row on) := by
  unfold Dialog.setCheckedRow
  split
  · exact h.setPage _ _
  · exact h

/-- Looking at another tweak file leaves the pages below and the kind of the current page. -/
theorem setTweakRow (h : Lettered d) (hs : Sound d) (row : Nat) :
    Lettered (d.setTweakRow row) := by
  obtain ⟨Ps, P, hst, -⟩ := hs.exists_stack
  obtain ⟨Q, hQ, hstill⟩ := exists_stack_setTweakRow hst row
  have hleading := h.leading
  have htext := h.text
  rw [hst] at hleading htext
  refine ⟨by rw [hQ]; simpa using hleading, ?_⟩
  rw [hQ, wording_concat, ← Q.label?_still, hstill, P.label?_still, ← wording_concat]
  exact htext

/-- An update names the button after the current page if that has a name for it. -/
theorem of_update (Ps : List Page) (P : Page) (hs : d.stack = ⟨Ps ++ [P], some Ps.length⟩)
    (hl : ∀ Q ∈ Ps, Q.leadsOn = true) (ht : P.label? = none → d.nextText = wording Ps) :
    Lettered d.update where
  leading := by rw [stack_update, hs]; simpa using hl
  text := by
    have htop : d.top? = some P := by simp [Dialog.top?, Stack.top?, hs]
    rw [stack_update, hs, wording_concat, nextText_update_eq htop]
    cases hP : P.label? with
    | none => exact ht hP
    | some t => rfl

theorem back (h : Lettered d) (hs : Sound d) : Lettered d.back := by
  obtain ⟨Ps, P, hst, -⟩ := hs.exists_stack
  have hleading := h.leading
  rw [hst, List.dropLast_concat] at hleading
  obtain rfl | ⟨Qs, Q, rfl⟩ := List.eq_nil_or_concat Ps
  · -- the first page stays, and with it the text
    refine of_update [] P ?_ (by simp) fun hP => ?_
    · simp [Stack.pop, hst]
    · have htext := h.text
      rw [hst, wording_concat, hP] at htext
      exact htext
  · -- the page below leads on, so it names the button itself
    refine of_update Qs Q ?_ (fun R hR => hleading R (by simp [hR])) fun hQ => ?_
    · have hlast : d.stack.current = some (d.stack.pages.length - 1) := hs.current
      rw [Stack.pop_of_current_eq_last hlast (by simp [hst])]
      simp [hst]
    · exact absurd hQ (Page.label?_ne_none_of_leadsOn (hleading Q (by simp)))

/-- All pages lead on where going on comes to a stop. -/
theorem leadsOn_of_stopAfter {s : Stop} (h : Lettered d) (hs : Sound d)
    (hstop : d.stopAfter? setup = some s) : ∀ P ∈ d.stack.pages, P.leadsOn = true := by
  obtain ⟨Ps, P, hst, htop⟩ := hs.exists_stack
  have hleading := h.leading
  rw [hst, List.dropLast_concat] at hleading
  intro Q hQ
  rw [hst, List.mem_append, List.mem_singleton] at hQ
  obtain hQ | rfl := hQ
  · exact hleading Q hQ
  · simp only [stopAfter?, htop, Option.bind_some, Option.bind_eq_some_iff] at hstop
    obtain ⟨id, hid, -⟩ := hstop
    cases Q with
    | question k => rfl
    | requirement p => rfl
    | complete p => cases hid
    | cancelled m => cases hid
    | failed m => cases hid

theorem showStop {s : Stop} (h : Lettered d) (hs : Sound d)
    (hstop : d.stopAfter? setup = some s) : Lettered (showStop setup d s).1 := by
  have hall := h.leadsOn_of_stopAfter hs hstop
  by_cases hsh : (Dialog.showStop setup d s).2 = none
  · cases hk : d.knownPage? s with
    | some x =>
      obtain ⟨k, p⟩ := x
      obtain ⟨hkey, hp⟩ := knownPage?_eq_some_iff.mp hk
      rw [fault_showStop_of_known hkey hp] at hsh
      rw [showStop_of_known_of_shown hkey hp hsh]
      obtain ⟨Ps, hpush, hsub⟩ := d.stack.exists_push (.question k)
      refine of_update Ps (.question k) hpush (fun Q hQ => hall Q (hsub.subset hQ)) fun hnone => ?_
      cases hnone
    | none =>
      obtain ⟨P, d₁, hm, he⟩ := exists_makePage_of_shown hk hsh
      obtain ⟨pages, rfl⟩ := exists_pages_of_makePage hm
      obtain ⟨Ps, hpush, hsub⟩ := d.stack.exists_push P
      rw [he]
      refine of_update Ps P hpush (fun Q hQ => hall Q (hsub.subset hQ)) fun hnone => ?_
      -- a page that does not name the button is no question's, so it is pushed upon all others
      have hnot : ∀ k, P = .question k → P ∉ d.stack.pages := by
        rintro k rfl
        cases hnone
      have hpages := Stack.pages_push_of_notMem hnot
      rw [hpush] at hpages
      obtain ⟨rfl, -⟩ := List.append_inj' hpages rfl
      exact h.text
  · obtain he | ⟨k, p, -, -, he⟩ := showStop_of_refused hsh <;> rw [he]
    · exact h
    · exact h.setPage _ _

theorem touch (h : Lettered d) (hs : Sound d) (ht : Touch setup d d') : Lettered d' := by
  cases ht with
  | aside hsame => exact h.congr hsame
  | current row hsame => exact (h.setCurrentRow row).congr hsame
  | check row on => exact h.setCheckedRow row on
  | tweak row => exact h.setTweakRow hs row
  | back => exact h.back hs

/-- Every action keeps the text of the button to go on in line with the stack. -/
theorem act (h : Lettered d) (hs : Sound d) (a : Action) : Lettered (d.act setup a).1 := by
  cases hc : d.comesTo setup a with
  | none => exact h.touch hs (act_of_comesTo_eq_none hc)
  | some s =>
    obtain ⟨d', hd', hstop, ha⟩ := act_of_comesTo_eq_some hc
    rw [ha]
    obtain hd' | ⟨row, hd'⟩ := hd'
    · exact (h.congr hd').showStop (hs.congr hd') hstop
    · exact ((h.setCurrentRow row).congr hd').showStop ((hs.setCurrentRow row).congr hd') hstop

end Lettered

theorem lettered_start {g : Guess} (h : start setup (blank g) = (d, none)) : Lettered d := by
  obtain ⟨P, d₁, s, -, hm, rfl⟩ := exists_makePage_of_start h
  obtain ⟨pages, rfl⟩ := exists_pages_of_makePage hm
  exact .of_update [] P rfl (by simp) fun _ => rfl

/-! ## Navigation -/

/-- That the last page of the stack is the current one and that the buttons belong to it: there
is going back if a page stands below, there is going on unless the script was cancelled or has
failed, and the button to go on says what the pages make it say. -/
def Navigable (d : Dialog) : Prop :=
  ∃ Ps P, d.stack = ⟨Ps ++ [P], some Ps.length⟩ ∧
    (d.backEnabled = true ↔ 0 < Ps.length) ∧
    (d.nextEnabled = false ↔ P.isDeadEnd = true) ∧
    d.nextText = P.label?.getD (wording Ps) ∧ ∀ Q ∈ Ps, Q.label? ≠ none

theorem navigable_of_lettered (hs : Sound d) (hl : Lit d) (ht : Lettered d) : Navigable d := by
  obtain ⟨Ps, P, hst, htop⟩ := hs.exists_stack
  refine ⟨Ps, P, hst, ?_, ?_, ?_, fun Q hQ => ?_⟩
  · rw [hl.back, hst]
    cases Ps <;> simp
  · rw [hl.next P htop]
    simp
  · rw [ht.text, hst, wording_concat]
  · exact Page.label?_ne_none_of_leadsOn (ht.leading Q (by simpa [hst] using hQ))

/-- In every dialog of every run the last page is the current one, and the buttons belong to it,
whether the actions of the run succeed or fail. -/
theorem always_navigable {g : Guess} (h : start setup (blank g) = (d, none)) (es : List Event) :
    Always setup Navigable d es := by
  have hall : Always setup (fun d => Sound d ∧ Lit d ∧ Lettered d) d es := by
    refine always_of_act ?_ ⟨sound_start h, lit_start h, lettered_start h⟩ es
    rintro d a - ⟨hs, hl, ht⟩
    exact ⟨hs.act a, hl.act a, ht.act hs a⟩
  exact .mono (fun d ⟨hs, hl, ht⟩ => navigable_of_lettered hs hl ht) hall

/-! ### Ways that end badly

The user may leave the script, go on to requirements that are not met and from there to a
failure, or choose an answer that leads to no node. -/

namespace DeadEnds

open SharedKey (answer question)

def organizer : Organizer := { SharedKey.organizer with extender := some ⟨true, "1.0"⟩ }

def script : Script where
  start := "a"
  nodes := .ofList
    [("a", ⟨"a", .question (question "where"
       [answer "leave" (some "c"), answer "on" none, answer "astray" (some "nowhere")] "r")⟩),
     ("c", ⟨"c", .cancel "as you wish" none⟩),
     ("r", ⟨"r", .requirement ⟨"9.0", "", "", ""⟩ (some "x")⟩),
     ("x", ⟨"x", .error "broken"⟩)]

def ending : Setup where
  organizer := organizer
  script := script
  packages := []
  images := ∅
  remembered := ∅

/-- The dialog as it is opened. -/
def opened : Dialog := (start ending (blank ⟨"Mod", ["Mod"]⟩)).1

/-- Back on the first page, on to the cancelled script and on from there, back, astray, and on to
the requirements and to the failure. -/
def touring : List Event :=
  [.act .backspace, .act .next, .act .next, .act .back, .act (.doubleClick 2),
   .act (.setCurrent 1), .act .next, .act .next]

theorem start_ending : start ending (blank ⟨"Mod", ["Mod"]⟩) = (opened, none) :=
  Prod.ext rfl (by decide +kernel)

end DeadEnds

open DeadEnds in
/-- The tour comes to the page of a failed script, where the button says what it said on the page
of requirements below. -/
theorem always_navigable_touring :
    start ending (blank ⟨"Mod", ["Mod"]⟩) = (opened, none) ∧
    Always ending Navigable opened touring ∧
    (play ending opened touring).2.top? = some (.failed "broken") ∧
    (play ending opened touring).2.nextText = "Install anyway" :=
  ⟨start_ending, always_navigable start_ending touring, by decide +kernel, by decide +kernel⟩

end ModWizard.Dialog
