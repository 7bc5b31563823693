import ModWizard.Proofs.Dialog.Coherence

/-!
# Accepting

Going on accepts the dialog on every page that leads nowhere, so what keeps the dialog from being
accepted on the page of a cancelled or failed script is its button.  The buttons are in line
with the stack all along (`Lit`), and a session is accepted exactly if its user, at some time,
went on from the page at the end.
-/

namespace ModWizard.Dialog

open Script (Stop)

variable {setup : Setup} {d d' : Dialog}

/-! ## The buttons -/

/-- What the button to go on says on a page.  On the page of a cancelled or failed script it
says what it said before. -/
def Page.label? : Page → Option String
  | .question _ => some "Next"
  | .requirement _ => some "Install anyway"
  | .complete _ => some "Install"
  | .cancelled _ => none
  | .failed _ => none

/-- That the buttons are in line with the stack. -/
structure Lit (d : Dialog) : Prop where
  /-- there is going back from all pages but the first -/
  back : d.backEnabled = true ↔ ∃ i, d.stack.current = some (i + 1)
  /-- there is going on from all pages but those of a cancelled or failed script -/
  next : ∀ P, d.top? = some P → d.nextEnabled = !P.isDeadEnd
  /-- the button to go on is named after the current page -/
  text : ∀ P t, d.top? = some P → P.label? = some t → d.nextText = t

theorem Lit.congr (h : Lit d) (hs : SameScreen d d') : Lit d' where
  back := by rw [hs.backEnabled, hs.stack]; exact h.back
  next := by rw [hs.top?, hs.nextEnabled]; exact h.next
  text := by rw [hs.top?, hs.nextText]; exact h.text

@[simp] theorem backEnabled_updateNext : d.updateNext.backEnabled = d.backEnabled := by
  unfold updateNext
  split <;> rfl

@[simp] theorem backEnabled_updateFocus : d.updateFocus.backEnabled = d.backEnabled := by
  unfold updateFocus
  split <;> rfl

@[simp] theorem nextText_updateFocus : d.updateFocus.nextText = d.nextText := by
  unfold updateFocus
  split <;> rfl

/-- After an update there is going back exactly if the current page is not the first. -/
theorem backEnabled_update : d.update.backEnabled = true ↔ ∃ i, d.stack.current = some (i + 1) := by
  rw [update, backEnabled_updateFocus, backEnabled_updateNext, updateBack]
  cases d.stack.current with
  | none => simp
  | some i => cases i <;> simp

/-- After an update the button to go on is named after the current page. -/
theorem nextText_update {P : Page} {t : String} (h : d.top? = some P) (ht : P.label? = some t) :
    d.update.nextText = t := by
  have htop : d.updateBack.top? = some P := h
  rw [update, nextText_updateFocus]
  cases P with
  | question k => cases ht; simp [updateNext, htop]
  | requirement p => cases ht; simp [updateNext, htop]
  | complete p => cases ht; simp [updateNext, htop]
  | cancelled m => cases ht
  | failed m => cases ht

/-- An update brings the buttons in line with the stack. -/
theorem lit_update (d : Dialog) : Lit d.update where
  back := by rw [stack_update]; exact backEnabled_update
  next := by rw [top?_update]; exact fun P => nextEnabled_update
  text := by rw [top?_update]; exact fun P t => nextText_update

theorem Lit.setPage (h : Lit d) (k : String) (p : QuestionPage) : Lit (d.setPage k p) :=
  ⟨h.back, h.next, h.text⟩

theorem Lit.setCurrentRow (h : Lit d) (row : Nat) : Lit (d.setCurrentRow setup row) := by
  unfold Dialog.setCurrentRow
  split
  · exact h.setPage _ _
  · exact h

theorem Lit.setCheckedRow (h : Lit d) (row : Nat) (on : Bool) : Lit (d.setCheckedRow row on) := by
  unfold Dialog.setCheckedRow
  split
  · exact h.setPage _ _
  · exact h

/-- Looking at another tweak file leaves the kind of the current page. -/
theorem Lit.setTweakRow (h : Lit d) (row : Nat) : Lit (d.setTweakRow row) := by
  have htop : ∀ P, (d.setTweakRow row).top? = some P →
      ∃ Q, d.top? = some Q ∧ P.isDeadEnd = Q.isDeadEnd ∧ P.label? = Q.label? := by
    intro P hP
    rw [Dialog.top?, Dialog.setTweakRow, Stack.top?_modifyTop] at hP
    obtain ⟨Q, hQ, rfl⟩ := Option.map_eq_some_iff.mp hP
    cases Q <;> exact ⟨_, hQ, rfl, rfl⟩
  refine ⟨?_, fun P hP => ?_, fun P t hP ht => ?_⟩
  · simpa [Dialog.setTweakRow] using h.back
  · obtain ⟨Q, hQ, hd, -⟩ := htop P hP
    rw [hd]
    exact h.next Q hQ
  · obtain ⟨Q, hQ, -, hl⟩ := htop P hP
    exact h.text Q t hQ (hl ▸ ht)

theorem Lit.showStop (h : Lit d) (s : Stop) : Lit (showStop setup d s).1 := by
  by_cases hsh : (Dialog.showStop setup d s).2 = none
  · obtain ⟨P, d₁, he, -⟩ := showStop_of_shown hsh
    rw [he]
    exact lit_update _
  · obtain he | ⟨k, p, -, -, he⟩ := showStop_of_refused hsh <;> rw [he]
    · exact h
    · exact h.setPage _ _

theorem Lit.touch (h : Lit d) (ht : Touch setup d d') : Lit d' := by
  cases ht with
  | aside hs => exact h.congr hs
  | current row hs => exact (h.setCurrentRow row).congr hs
  | check row on => exact h.setCheckedRow row on
  | tweak row => exact h.setTweakRow row
  | back => exact lit_update _

/-- Every action keeps the buttons in line with the stack. -/
theorem Lit.act (h : Lit d) (a : Action) : Lit (d.act setup a).1 := by
  cases hc : d.comesTo setup a with
  | none => exact h.touch (act_of_comesTo_eq_none hc)
  | some s =>
    obtain ⟨d', hd', -, ha⟩ := act_of_comesTo_eq_some hc
    rw [ha]
    refine showStop ?_ s
    obtain hd' | ⟨row, hd'⟩ := hd'
    · exact h.congr hd'
    · exact (h.setCurrentRow row).congr hd'

theorem lit_start {g : Guess} (h : start setup (blank g) = (d, none)) : Lit d := by
  obtain ⟨P, d₁, s, rfl, -⟩ := start_eq_none h
  exact lit_update _

/-- A dialog that a run comes to is sound. -/
theorem Reachable.sound (h : Reachable setup d) : Sound d :=
  h.invariant (fun _ _ => sound_start) fun _ a _ hs => hs.act a

/-- The buttons of a dialog that a run comes to are in line with its stack. -/
theorem Reachable.lit (h : Reachable setup d) : Lit d :=
  h.invariant (fun _ _ => lit_start) fun _ a _ hl => hl.act a

/-! ## Accepted sessions -/

/-- An action accepts the dialog exactly if it goes on from the page at the end. -/
theorem act_accepted_iff {a : Action} (hs : Sound d) (hl : Lit d) (hv : d.verdict = none) :
    (d.act setup a).1.verdict = some .accepted ↔ a = .next ∧ ∃ p, d.top? = some (.complete p) := by
  constructor
  · intro ha
    obtain ⟨rfl, hp, -⟩ := eq_next_of_accepted hs hv ha
    exact ⟨rfl, hp⟩
  · rintro ⟨rfl, p, hp⟩
    have hn : d.nextEnabled = true := hl.next _ hp
    rw [act, if_pos hn, Dialog.next, hp]

/-- That a run from a dialog goes on from the page at the end while the dialog is open. -/
def GoesOnAtEnd (setup : Setup) (d : Dialog) (es : List Event) : Prop :=
  ∃ before after p, es = before ++ .act .next :: after ∧
    (play setup d before).2.verdict = none ∧ (play setup d before).2.top? = some (.complete p)

/-- After its first event a run goes on from the page at the end, or its first event does so. -/
theorem goesOnAtEnd_cons {e : Event} {es : List Event} (hv : d.verdict = none) :
    GoesOnAtEnd setup d (e :: es) ↔
      (e = .act .next ∧ ∃ p, d.top? = some (.complete p)) ∨
        GoesOnAtEnd setup (happen setup d e).2 es := by
  constructor
  · rintro ⟨before, after, p, he, ho, hp⟩
    cases before with
    | nil =>
      cases he
      exact .inl ⟨rfl, p, hp⟩
    | cons e' before =>
      cases he
      rw [play_cons_of_verdict_eq_none hv] at ho hp
      exact .inr ⟨before, after, p, rfl, ho, hp⟩
  · rintro (⟨rfl, p, hp⟩ | ⟨before, after, p, rfl, ho, hp⟩)
    · exact ⟨[], es, p, rfl, hv, hp⟩
    · refine ⟨e :: before, after, p, rfl, ?_, ?_⟩ <;> rwa [play_cons_of_verdict_eq_none hv]

/-- To a closed dialog nothing happens. -/
theorem not_goesOnAtEnd_of_verdict_ne_none {es : List Event} (hv : d.verdict ≠ none) :
    ¬ GoesOnAtEnd setup d es := by
  rintro ⟨before, after, p, -, ho, -⟩
  rw [play_of_verdict_ne_none hv] at ho
  exact hv ho

/-- A run accepts the dialog exactly if it goes on from the page at the end. -/
theorem play_accepted_iff {es : List Event} (hs : Sound d) (hl : Lit d) (hv : d.verdict = none) :
    (play setup d es).2.verdict = some .accepted ↔ GoesOnAtEnd setup d es := by
  induction es generalizing d with
  | nil =>
    refine iff_of_false (by simp [hv]) ?_
    rintro ⟨before, after, p, he, -⟩
    simp at he
  | cons e es ih =>
    rw [play_cons_of_verdict_eq_none hv, goesOnAtEnd_cons hv]
    cases e with
    | ask q => simpa using ih hs hl hv
    | act a =>
      have haccept : (d.act setup a).1.verdict = some .accepted ↔ _ := act_accepted_iff hs hl hv
      rw [happen_act, Event.act.injEq, ← haccept]
      by_cases hv' : (d.act setup a).1.verdict = none
      · rw [ih (hs.act a) (hl.act a) hv', hv']
        simp
      · -- the action has closed the dialog, and the rest of the run does nothing
        rw [play_of_verdict_ne_none hv']
        simp [not_goesOnAtEnd_of_verdict_ne_none hv']

/-- On the page at the end the dialog says what is to be installed. -/
theorem query_of_topComplete {p : CompletePage} (h : d.top? = some (.complete p)) :
    d.query .packages = .ok (.packages p.checkedPackages) ∧
    d.query .plugins = .ok (.plugins p.checkedPlugins) ∧
    d.query .renames = .ok (.renames p.renames) ∧
    d.query .tweaks = .ok (.tweaks p.tweaks) := by
  have hc : d.completePage = .ok p := by simp [completePage, topComplete?, h]
  simp [query, hc, Except.map]

/-- A session is accepted exactly if the dialog could be opened and its user, at some time, went
on from the page at the end; and then that page is the current one, and the dialog says what is
to be installed. -/
theorem exec_accepted_iff (setup : Setup) (g : Guess) (es : List Event) :
    ((exec setup g es).verdict = .ok .accepted ↔
      ∃ d, start setup (blank g) = (d, none) ∧ GoesOnAtEnd setup d es) ∧
    ((exec setup g es).verdict = .ok .accepted →
      ∃ p, (exec setup g es).dialog.top? = some (.complete p) ∧
        (exec setup g es).dialog.query .packages = .ok (.packages p.checkedPackages) ∧
        (exec setup g es).dialog.query .plugins = .ok (.plugins p.checkedPlugins) ∧
        (exec setup g es).dialog.query .renames = .ok (.renames p.renames) ∧
        (exec setup g es).dialog.query .tweaks = .ok (.tweaks p.tweaks)) := by
  rw [verdict_exec_eq_accepted_iff]
  constructor
  · refine exists_congr fun d => and_congr_right fun hstart => ?_
    exact play_accepted_iff (sound_start hstart) (lit_start hstart) (verdict_start hstart)
  · rintro ⟨d, hstart, hv⟩
    obtain ⟨p, hp⟩ := (always_sound hstart es).last.2 hv
    rw [exec_of_start hstart]
    exact ⟨p, hp, query_of_topComplete hp⟩

namespace SharedKey

/-- Going on twice, to the question that cannot be shown, then going on by a double click on the
other answer, back by the keyboard and on again, and accepting. -/
def insisting : List Event :=
  [.act .next, .act .next, .act (.doubleClick 1), .act .backspace, .ask .packages, .act .next,
   .act .next]

theorem start_sharing : start sharing (blank ⟨"Mod", ["Mod"]⟩) = (opened, none) :=
  Prod.ext rfl (by decide +kernel)

end SharedKey

open SharedKey in
/-- A session in which an action fails on the way is accepted on the page at the end. -/
theorem exec_accepted_insisting :
    (exec sharing ⟨"Mod", ["Mod"]⟩ insisting).verdict = .ok .accepted ∧
    ∃ p, (exec sharing ⟨"Mod", ["Mod"]⟩ insisting).dialog.top? = some (.complete p) ∧
      (exec sharing ⟨"Mod", ["Mod"]⟩ insisting).dialog.query .packages =
        .ok (.packages p.checkedPackages) := by
  have hopen : (play sharing opened (insisting.take 6)).2.verdict = none := by decide +kernel
  have hend : ((play sharing opened (insisting.take 6)).2.topComplete?).isSome := by
    decide +kernel
  have htop : ∃ p, (play sharing opened (insisting.take 6)).2.top? = some (.complete p) := by
    unfold topComplete? at hend
    split at hend
    · exact ⟨_, by assumption⟩
    · cases hend
  obtain ⟨p, hp⟩ := htop
  have haccepted := (exec_accepted_iff sharing ⟨"Mod", ["Mod"]⟩ insisting).1.mpr
    ⟨opened, start_sharing, insisting.take 6, [], p, rfl, hopen, hp⟩
  obtain ⟨p, hp, hpackages, -⟩ := (exec_accepted_iff sharing ⟨"Mod", ["Mod"]⟩ insisting).2 haccepted
  exact ⟨haccepted, p, hp, hpackages⟩

end ModWizard.Dialog
