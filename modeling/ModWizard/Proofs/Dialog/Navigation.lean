import ModWizard.Proofs.Dialog.Step

/-!
# Navigation

The last page of the stack is the current one, every question in the stack has its page, the
button to go on is off on the pages of a cancelled or failed script, and the dialog is accepted
on the page at the end only: a dialog is `Sound` when it is opened, and every action keeps it
so.
-/

namespace ModWizard.Dialog

open Script (Stop)

variable {setup : Setup} {d d' : Dialog}

/-! ## The stack -/

namespace Stack

variable {s : Stack} {P Q : Page}

/-- A page is in the stack at a place or not at all. -/
theorem place?_eq_none_iff {k : String} :
    s.place? (.question k) = none ↔ Page.question k ∉ s.pages := by
  simp only [place?, List.findIdx?_eq_none_iff, decide_eq_false_iff_not]
  exact ⟨fun h hm => h _ hm rfl, fun h P hP he => h (he ▸ hP)⟩

/-- A pushed page is the last. -/
theorem pages_push : ∃ Ps, (s.push P).pages = Ps ++ [P] ∧ Ps.Sublist s.pages := by
  cases h : s.place? P with
  | none => exact ⟨s.pages, pages_push_of_place?_eq_none h, .refl _⟩
  | some i => exact ⟨_, pages_push_of_place?_eq_some h, List.eraseIdx_sublist _ _⟩

/-- A pushed page is the current one. -/
@[simp] theorem top?_push : (s.push P).top? = some P := by
  obtain ⟨Ps, hp, _⟩ := pages_push (s := s) (P := P)
  rw [top?, current_push, hp]
  simp

/-- A page that is not in the stack is pushed upon it. -/
theorem pages_push_of_notMem (h : ∀ k, P = .question k → P ∉ s.pages) :
    (s.push P).pages = s.pages ++ [P] := by
  apply pages_push_of_place?_eq_none
  cases P with
  | question k => exact place?_eq_none_iff.mpr (h k rfl)
  | _ => rfl

/-- The first page of a stack becomes current. -/
theorem add_empty : empty.add P = ⟨[P], some 0⟩ := by
  cases P <;> rfl

/-- Taking away the last page, which is current, leaves the pages below it, with the last of
them current. -/
theorem pop_of_current_eq_last (h : s.current = some (s.pages.length - 1))
    (hl : 1 < s.pages.length) : s.pop = ⟨s.pages.dropLast, some (s.pages.dropLast.length - 1)⟩ := by
  obtain ⟨n, hn⟩ : ∃ n, s.pages.length = n + 2 := ⟨s.pages.length - 2, by omega⟩
  have hc : s.current = some (n + 1) := by rw [h, hn]; rfl
  rw [pop_of_current_eq_succ hc, remove]
  congr 1
  · rw [List.eraseIdx_eq_dropLast]
    exact hn.symm
  · simp [currentAfterRemoval, hc, hn]

/-- Taking away a page brings none into the stack. -/
theorem pages_pop_sublist : s.pop.pages.Sublist s.pages := by
  unfold pop
  split
  · exact List.eraseIdx_sublist _ _
  · exact .refl _

/-- The only page of a stack is not taken away. -/
theorem pop_of_length_eq_one (h : s.current = some (s.pages.length - 1))
    (hl : s.pages.length = 1) : s.pop = s :=
  pop_of_current_eq_zero (by rw [h, hl])

/-- The current page of a stack whose last page is current. -/
theorem top?_of_current_eq_last (h : s.current = some (s.pages.length - 1)) :
    s.top? = s.pages.getLast? := by
  rw [top?, h, Option.bind_some, List.getLast?_eq_getElem?]

@[simp] theorem current_modifyTop (f : Page → Page) : (s.modifyTop f).current = s.current := by
  unfold modifyTop
  split <;> rfl

theorem pages_modifyTop {i : Nat} (h : s.current = some i) (f : Page → Page) :
    (s.modifyTop f).pages = s.pages.modify i f := by
  simp [modifyTop, h]

@[simp] theorem length_modifyTop (f : Page → Page) :
    (s.modifyTop f).pages.length = s.pages.length := by
  unfold modifyTop
  split <;> simp

/-- A change of the current page changes the current page. -/
theorem top?_modifyTop (f : Page → Page) : (s.modifyTop f).top? = s.top?.map f := by
  cases h : s.current with
  | none => simp [top?, h]
  | some i => simp [top?, h, pages_modifyTop h]

end Stack

/-- The page of the current question is known by its key. -/
theorem get?_of_topQuestion? {k : String} {p : QuestionPage} (h : d.topQuestion? = some (k, p)) :
    d.top? = some (.question k) ∧ d.pages.get? k = some p := by
  unfold topQuestion? at h
  cases htop : d.top? with
  | none => rw [htop] at h; cases h
  | some P =>
    rw [htop] at h
    cases P with
    | question k' =>
      obtain ⟨p', hp', he⟩ := Option.map_eq_some_iff.mp h
      cases he
      exact ⟨rfl, hp'⟩
    | _ => cases h

/-! ## Buttons and focus -/

theorem top?_update : d.update.top? = d.top? := by simp [top?]

@[simp] theorem verdict_updateNext : d.updateNext.verdict = d.verdict := by
  unfold updateNext
  split <;> rfl

@[simp] theorem verdict_updateFocus : d.updateFocus.verdict = d.verdict := by
  unfold updateFocus
  split <;> rfl

@[simp] theorem verdict_update : d.update.verdict = d.verdict := by simp [update, updateBack]

@[simp] theorem pages_updateNext : d.updateNext.pages = d.pages := by
  unfold updateNext
  split <;> rfl

@[simp] theorem nextEnabled_updateFocus : d.updateFocus.nextEnabled = d.nextEnabled := by
  unfold updateFocus
  split <;> rfl

/-- That there is no going on from a page. -/
def Page.isDeadEnd : Page → Bool
  | .cancelled _ => true
  | .failed _ => true
  | _ => false

/-- After an update the button to go on is off on the pages of a cancelled or failed script. -/
theorem nextEnabled_update {P : Page} (h : d.top? = some P) :
    d.update.nextEnabled = !P.isDeadEnd := by
  have ht : d.updateBack.top? = some P := h
  rw [update, nextEnabled_updateFocus]
  cases P <;> simp [updateNext, ht, Page.isDeadEnd]

/-- The focus goes to the current page, and no other page is changed. -/
theorem get?_updateFocus (k : String) : d.updateFocus.pages.get? k =
    if d.top? = some (.question k) then (d.pages.get? k).map (·.focus) else d.pages.get? k := by
  unfold updateFocus topQuestion?
  cases htop : d.top? with
  | none => simp
  | some P =>
    cases P with
    | question k' =>
      cases hk' : d.pages.get? k' with
      | none =>
        by_cases h : k' = k
        · subst h
          simp [hk']
        · simp [hk', h]
      | some p =>
        by_cases h : k' = k
        · subst h
          simp [hk']
        · simp [hk', h]
    | _ => simp

/-- An update gives the focus to the current page, and changes no other. -/
theorem get?_update (k : String) : d.update.pages.get? k =
    if d.top? = some (.question k) then (d.pages.get? k).map (·.focus) else d.pages.get? k := by
  have ht : d.updateBack.updateNext.top? = d.top? := by simp [top?]
  have hp : d.updateBack.updateNext.pages = d.pages := by rw [pages_updateNext]; rfl
  rw [update, get?_updateFocus, ht, hp]

/-! ## Showing a stop -/

/-- What it is for a page in a dialog to show a stop: a question by its page, requirements by
the page made for them, an outcome by the page for it with some tweak file looked at. -/
def Shows (setup : Setup) (d : Dialog) : Page → Stop → Prop
  | .question k, s => ∃ p q, d.pages.get? k = some p ∧ s = .question k q ∧ p.Presents k q
  | .requirement p, s => ∃ k r next,
    s = .requirement k r next ∧ RequirementPage.create setup.organizer r next = .ok p
  | .complete p, s => ∃ k o next row,
    s = .done k o next ∧ p = (CompletePage.create setup.packages o).setRow row
  | .cancelled m, s => ∃ k next, s = .cancel k m next
  | .failed m, s => s = .error m

/-- The page of a question shows a stop with its key. -/
theorem Shows.key? {k : String} {s : Stop} (h : Shows setup d (.question k) s) :
    s.key? = some k := by
  obtain ⟨_, _, _, rfl, _⟩ := h
  rfl

/-- What a page shows depends on the page of its question only. -/
theorem Shows.congr {P : Page} {s : Stop} (h : Shows setup d P s)
    (hp : ∀ k, P = .question k → d'.pages.get? k = d.pages.get? k) : Shows setup d' P s := by
  cases P with
  | question k =>
    obtain ⟨p, q, hk, hs, hq⟩ := h
    exact ⟨p, q, (hp k rfl).trans hk, hs, hq⟩
  | _ => exact h

/-- An update leaves what a page shows. -/
theorem Shows.update {P : Page} {s : Stop} (h : Shows setup d P s) :
    Shows setup d.update P s := by
  cases P with
  | question k =>
    obtain ⟨p, q, hk, hs, hq⟩ := h
    by_cases ht : d.top? = some (.question k)
    · exact ⟨p.focus, q, by rw [get?_update, if_pos ht, hk, Option.map_some], hs, hq.focus⟩
    · exact ⟨p, q, by rw [get?_update, if_neg ht, hk], hs, hq⟩
  | _ => exact h

/-- A page made for a stop shows it, and no other page is written. -/
theorem shows_makePage {P : Page} {s : Stop} (h : makePage setup d s = .ok (P, d')) :
    d'.stack = d.stack ∧ d'.verdict = d.verdict ∧ Shows setup d' P s ∧
      ∀ k, P ≠ .question k → d'.pages.get? k = d.pages.get? k := by
  cases s with
  | question k q =>
    simp only [makePage] at h
    cases hc : QuestionPage.create setup.images (setup.remembered.get? q.description) k q with
    | error f => rw [hc] at h; cases h
    | ok p =>
      rw [hc] at h
      cases h
      refine ⟨rfl, rfl, ⟨p, q, by simp, rfl, QuestionPage.presents_create hc⟩, fun k' hk' => ?_⟩
      have hne : k ≠ k' := fun he => hk' (by rw [he])
      simp [hne]
  | requirement k r next =>
    simp only [makePage] at h
    cases hc : RequirementPage.create setup.organizer r next with
    | error f => rw [hc] at h; cases h
    | ok p =>
      rw [hc] at h
      cases h
      exact ⟨rfl, rfl, ⟨k, r, next, rfl, hc⟩, fun _ _ => rfl⟩
  | done k o next =>
    cases h
    refine ⟨rfl, rfl, ⟨k, o, next, 0, rfl, ?_⟩, fun _ _ => rfl⟩
    obtain ⟨p, hp, hc⟩ : ∃ p : CompletePage,
        p.row = none ∧ CompletePage.create setup.packages o = p.setRow 0 := ⟨_, rfl, rfl⟩
    rw [hc, CompletePage.setRow_setRow hp 0 0, ite_self]
  | cancel k m next =>
    cases h
    exact ⟨rfl, rfl, ⟨k, next, rfl⟩, fun _ _ => rfl⟩
  | error m =>
    cases h
    exact ⟨rfl, rfl, rfl, fun _ _ => rfl⟩
  | stuck k next => cases h

/-- The page that a stop already has, by its key. -/
theorem knownPage?_eq_some_iff {s : Stop} {k : String} {p : QuestionPage} :
    d.knownPage? s = some (k, p) ↔ s.key? = some k ∧ d.pages.get? k = some p := by
  unfold knownPage?
  cases s.key? with
  | none => simp
  | some k' =>
    cases hk : d.pages.get? k' with
    | none =>
      simp only [Option.bind_some, hk, Option.map_none, reduceCtorEq, false_iff, not_and]
      rintro he
      cases he
      rw [hk]
      intro hsome
      cases hsome
    | some p' =>
      simp only [Option.bind_some, hk, Option.map_some, Option.some.injEq, Prod.mk.injEq]
      constructor
      · rintro ⟨rfl, rfl⟩
        exact ⟨rfl, hk⟩
      · rintro ⟨rfl, hp⟩
        rw [hk] at hp
        exact ⟨rfl, Option.some.inj hp⟩

/-- A stop whose key has a page is shown if the page can show it. -/
theorem fault_showStop_of_known {s : Stop} {k : String} {p : QuestionPage}
    (hk : s.key? = some k) (hp : d.pages.get? k = some p) :
    (showStop setup d s).2 = (p.ask setup.images s).2 := by
  unfold showStop
  rw [knownPage?_eq_some_iff.mpr ⟨hk, hp⟩]
  cases ha : p.ask setup.images s with
  | mk p' f => cases f <;> simp only [ha]

/-- A page that can show a stop is pushed upon the stack. -/
theorem showStop_of_known_of_shown {s : Stop} {k : String} {p : QuestionPage}
    (hk : s.key? = some k) (hp : d.pages.get? k = some p)
    (h : (p.ask setup.images s).2 = none) :
    (showStop setup d s).1 = { d.setPage k (p.ask setup.images s).1 with
      stack := d.stack.push (.question k) }.update := by
  unfold showStop
  rw [knownPage?_eq_some_iff.mpr ⟨hk, hp⟩]
  cases ha : p.ask setup.images s with
  | mk p' f =>
    rw [ha] at h
    cases h
    simp only [ha]
    rfl

/-- A stop whose key has no page is shown by a new one. -/
theorem exists_makePage_of_shown {s : Stop} (hk : d.knownPage? s = none)
    (h : (showStop setup d s).2 = none) :
    ∃ P d₁, makePage setup d s = .ok (P, d₁) ∧
      (showStop setup d s).1 = { d₁ with stack := d.stack.push P }.update := by
  unfold showStop at h ⊢
  rw [hk] at h
  cases hm : makePage setup d s with
  | error f => simp only [hm] at h; cases h
  | ok x =>
    obtain ⟨P, d₁⟩ := x
    obtain ⟨hst, -⟩ := shows_makePage hm
    exact ⟨P, d₁, rfl, by simp only [hk, hst]⟩

/-- A stop that is shown is shown by a page pushed upon the stack, and no other page is
written. -/
theorem showStop_of_shown {s : Stop} (h : (showStop setup d s).2 = none) :
    ∃ P d₁, (showStop setup d s).1 = { d₁ with stack := d.stack.push P }.update ∧
      d₁.verdict = d.verdict ∧ Shows setup d₁ P s ∧
      ∀ k, P ≠ .question k → d₁.pages.get? k = d.pages.get? k := by
  cases hk : d.knownPage? s with
  | some x =>
    obtain ⟨k, p⟩ := x
    obtain ⟨hkey, hp⟩ := knownPage?_eq_some_iff.mp hk
    rw [fault_showStop_of_known hkey hp] at h
    obtain ⟨k', q, rfl, _⟩ := QuestionPage.ask_eq_none_iff.mp h
    cases hkey
    refine ⟨_, _, showStop_of_known_of_shown rfl hp h, rfl,
      ⟨_, q, by simp, rfl, QuestionPage.presents_ask h⟩, fun k₂ hk₂ => ?_⟩
    have hne : k ≠ k₂ := fun he => hk₂ (by rw [he])
    simp [hne]
  | none =>
    obtain ⟨P, d₁, hm, he⟩ := exists_makePage_of_shown hk h
    obtain ⟨-, hv, hsh, hfr⟩ := shows_makePage hm
    exact ⟨P, d₁, he, hv, hsh, hfr⟩

/-- A page that cannot show a stop takes note of it, and nothing else changes. -/
theorem showStop_of_known_of_refused {s : Stop} {k : String} {p : QuestionPage}
    (hk : s.key? = some k) (hp : d.pages.get? k = some p)
    (h : (p.ask setup.images s).2 ≠ none) :
    (showStop setup d s).1 = d.setPage k { p with asked := s } := by
  rw [← QuestionPage.ask_of_refused h]
  unfold showStop
  rw [knownPage?_eq_some_iff.mpr ⟨hk, hp⟩]
  cases ha : p.ask setup.images s with
  | mk p' f =>
    cases f with
    | none => exact absurd (by rw [ha]) h
    | some f => simp only [ha]

/-- A stop whose key has no page and for which none can be made leaves the dialog. -/
theorem showStop_of_unknown_of_refused {s : Stop} (hk : d.knownPage? s = none)
    (h : (showStop setup d s).2 ≠ none) : (showStop setup d s).1 = d := by
  unfold showStop at h ⊢
  rw [hk] at h ⊢
  cases hm : makePage setup d s with
  | error f => simp
  | ok x => simp [hm] at h

/-- A stop that is not shown leaves the dialog, but for the page of its key, which takes note of
what it was asked. -/
theorem showStop_of_refused {s : Stop} (h : (showStop setup d s).2 ≠ none) :
    (showStop setup d s).1 = d ∨
      ∃ k p, s.key? = some k ∧ d.pages.get? k = some p ∧
        (showStop setup d s).1 = d.setPage k { p with asked := s } := by
  cases hk : d.knownPage? s with
  | some x =>
    obtain ⟨k, p⟩ := x
    obtain ⟨hkey, hp⟩ := knownPage?_eq_some_iff.mp hk
    rw [fault_showStop_of_known hkey hp] at h
    exact .inr ⟨k, p, hkey, hp, showStop_of_known_of_refused hkey hp h⟩
  | none => exact .inl (showStop_of_unknown_of_refused hk h)

/-- Showing a stop neither closes nor opens the dialog. -/
theorem verdict_showStop (s : Stop) : (showStop setup d s).1.verdict = d.verdict := by
  by_cases h : (showStop setup d s).2 = none
  · obtain ⟨P, d₁, he, hv, _⟩ := showStop_of_shown h
    rw [he, verdict_update]
    exact hv
  · obtain he | ⟨k, p, _, _, he⟩ := showStop_of_refused h <;> rw [he]
    rfl

/-- Running the script neither closes nor opens the dialog. -/
theorem verdict_runFrom (next : Option String) :
    (runFrom setup d next).1.verdict = d.verdict := by
  unfold runFrom
  cases setup.script.run setup.organizer (.page next) with
  | ok s => exact verdict_showStop s
  | error f => rfl

/-! ## Soundness -/

/-- What holds of every dialog that is in use. -/
structure Sound (d : Dialog) : Prop where
  /-- there is a page -/
  ne_nil : d.stack.pages ≠ []
  /-- the last page is current -/
  current : d.stack.current = some (d.stack.pages.length - 1)
  /-- every question in the stack has its page -/
  known : ∀ k, Page.question k ∈ d.stack.pages → ∃ p, d.pages.get? k = some p
  /-- there is no going on from the page of a cancelled or failed script -/
  barred : ∀ P, d.top? = some P → P.isDeadEnd → d.nextEnabled = false

/-- The current page of a sound dialog is the last. -/
theorem Sound.top? (h : Sound d) : d.top? = some (d.stack.pages.getLast h.ne_nil) := by
  rw [Dialog.top?, Stack.top?_of_current_eq_last h.current, List.getLast?_eq_some_getLast]

/-- A sound dialog has a place for its current page, and the current page at it. -/
theorem Sound.exists_top (h : Sound d) : ∃ n P, d.stack.pages.length = n + 1 ∧
    d.stack.pages[n]? = some P ∧ d.top? = some P := by
  have hl : 0 < d.stack.pages.length := List.length_pos_iff.mpr h.ne_nil
  refine ⟨d.stack.pages.length - 1, d.stack.pages.getLast h.ne_nil, by omega, ?_, h.top?⟩
  rw [← List.getLast?_eq_getElem?, List.getLast?_eq_some_getLast]

theorem Sound.congr (h : Sound d) (hs : SameScreen d d') : Sound d' where
  ne_nil := by rw [hs.stack]; exact h.ne_nil
  current := by rw [hs.stack]; exact h.current
  known := by rw [hs.stack, hs.pages]; exact h.known
  barred := by rw [hs.top?, hs.nextEnabled]; exact h.barred

/-- Writing a page of a question keeps a dialog sound. -/
theorem Sound.setPage (h : Sound d) (k : String) (p : QuestionPage) : Sound (d.setPage k p) where
  ne_nil := h.ne_nil
  current := h.current
  known := by
    intro k' hk'
    by_cases he : k = k'
    · exact ⟨p, by simp [he]⟩
    · obtain ⟨p', hp'⟩ := h.known k' hk'
      exact ⟨p', by simp [he, hp']⟩
  barred := h.barred

theorem Sound.setCurrentRow (h : Sound d) (row : Nat) : Sound (d.setCurrentRow setup row) := by
  unfold Dialog.setCurrentRow
  split
  · exact h.setPage _ _
  · exact h

theorem Sound.setCheckedRow (h : Sound d) (row : Nat) (on : Bool) :
    Sound (d.setCheckedRow row on) := by
  unfold Dialog.setCheckedRow
  split
  · exact h.setPage _ _
  · exact h

/-- Looking at another tweak file changes no page but the one at the end. -/
theorem mem_of_setTweakRow {P : Page} {row : Nat} (h : P ∈ (d.setTweakRow row).stack.pages) :
    P ∈ d.stack.pages ∨ ∃ p, Page.complete p ∈ d.stack.pages ∧ P = .complete (p.setRow row) := by
  cases hc : d.stack.current with
  | none => exact .inl (by simpa only [setTweakRow, Stack.modifyTop, hc] using h)
  | some n =>
    simp only [setTweakRow, Stack.pages_modifyTop hc] at h
    obtain ⟨i, hi⟩ := List.mem_iff_getElem?.mp h
    rw [List.getElem?_modify] at hi
    cases hQ : d.stack.pages[i]? with
    | none => simp [hQ] at hi
    | some Q =>
      have hmem := List.mem_iff_getElem?.mpr ⟨i, hQ⟩
      rw [hQ] at hi
      split at hi
      · cases Q with
        | complete p =>
          cases hi
          exact .inr ⟨p, hmem, rfl⟩
        | _ =>
          cases hi
          exact .inl hmem
      · cases hi
        exact .inl hmem

theorem question_mem_of_setTweakRow {k : String} {row : Nat}
    (h : Page.question k ∈ (d.setTweakRow row).stack.pages) : Page.question k ∈ d.stack.pages := by
  obtain h | ⟨p, -, hp⟩ := mem_of_setTweakRow h
  · exact h
  · cases hp

theorem Sound.setTweakRow (h : Sound d) (row : Nat) : Sound (d.setTweakRow row) := by
  refine ⟨?_, ?_, ?_, ?_⟩
  · have hl : 0 < d.stack.pages.length := List.length_pos_iff.mpr h.ne_nil
    exact List.length_pos_iff.mp (by simpa [Dialog.setTweakRow] using hl)
  · simpa [Dialog.setTweakRow] using h.current
  · exact fun k hk => h.known k (question_mem_of_setTweakRow hk)
  · intro P hP hdead
    rw [Dialog.top?, Dialog.setTweakRow, Stack.top?_modifyTop] at hP
    obtain ⟨P', hP', rfl⟩ := Option.map_eq_some_iff.mp hP
    refine h.barred P' hP' ?_
    cases P' with
    | complete p => cases hdead
    | _ => exact hdead

/-- An update brings the button to go on in line with the current page. -/
theorem Sound.of_update (hn : d.stack.pages ≠ [])
    (hc : d.stack.current = some (d.stack.pages.length - 1))
    (hk : ∀ k, Page.question k ∈ d.stack.pages → ∃ p, d.pages.get? k = some p) :
    Sound d.update where
  ne_nil := by rw [stack_update]; exact hn
  current := by rw [stack_update]; exact hc
  known := by
    intro k hmem
    rw [stack_update] at hmem
    obtain ⟨p, hp⟩ := hk k hmem
    rw [get?_update, hp]
    split
    · exact ⟨p.focus, rfl⟩
    · exact ⟨p, rfl⟩
  barred := by
    intro P hP hdead
    rw [top?_update] at hP
    rw [nextEnabled_update hP, hdead]
    rfl

theorem Sound.back (h : Sound d) : Sound d.back := by
  have hl : 0 < d.stack.pages.length := List.length_pos_iff.mpr h.ne_nil
  by_cases hone : d.stack.pages.length = 1
  · have hp := Stack.pop_of_length_eq_one h.current hone
    refine of_update ?_ ?_ ?_ <;> simp only [hp]
    · exact h.ne_nil
    · exact h.current
    · exact h.known
  · have hp := Stack.pop_of_current_eq_last h.current (by omega)
    refine of_update ?_ ?_ ?_ <;> simp only [hp]
    · apply List.length_pos_iff.mp
      rw [List.length_dropLast]
      omega
    · intro k hk
      exact h.known k ((List.dropLast_sublist _).subset hk)

/-- A dialog on whose stack a page is pushed that shows a stop is sound. -/
theorem Sound.showStop (h : Sound d) (s : Stop) : Sound (showStop setup d s).1 := by
  by_cases hsh : (Dialog.showStop setup d s).2 = none
  · obtain ⟨P, d₁, he, _, hP, hfr⟩ := showStop_of_shown hsh
    obtain ⟨Ps, hPs, hsub⟩ := Stack.pages_push (s := d.stack) (P := P)
    rw [he]
    refine of_update (by simp [hPs]) (by simp) ?_
    intro k hk
    rw [hPs, List.mem_append, List.mem_singleton] at hk
    by_cases hPk : P = .question k
    · subst hPk
      obtain ⟨p, _, hp, _⟩ := hP
      exact ⟨p, hp⟩
    · obtain ⟨p, hp⟩ := h.known k (hsub.subset (hk.resolve_right fun he => hPk he.symm))
      exact ⟨p, (hfr k hPk).trans hp⟩
  · obtain he | ⟨k, p, _, _, he⟩ := showStop_of_refused hsh <;> rw [he]
    · exact h
    · exact h.setPage _ _

theorem Sound.touch (h : Sound d) (ht : Touch setup d d') : Sound d' := by
  cases ht with
  | aside hs => exact h.congr hs
  | current row hs => exact (h.setCurrentRow row).congr hs
  | check row on => exact h.setCheckedRow row on
  | tweak row => exact h.setTweakRow row
  | back => exact h.back

/-- Every action keeps a dialog sound. -/
theorem Sound.act (h : Sound d) (a : Action) : Sound (d.act setup a).1 := by
  cases hc : d.comesTo setup a with
  | none => exact h.touch (act_of_comesTo_eq_none hc)
  | some s =>
    obtain ⟨d', hd', _, ha⟩ := act_of_comesTo_eq_some hc
    rw [ha]
    refine showStop ?_ s
    obtain hd' | ⟨row, hd'⟩ := hd'
    · exact h.congr hd'
    · exact (h.setCurrentRow row).congr hd'

/-- The opened dialog holds the page made for what the script first stops at. -/
theorem exists_makePage_of_start {g : Guess} (h : start setup (blank g) = (d, none)) :
    ∃ P d₁ s, stopFrom? setup .opening = some s ∧
      makePage setup (blank g) s = .ok (P, d₁) ∧
      d = { d₁ with stack := ⟨[P], some 0⟩ }.update := by
  unfold start at h
  cases hr : setup.script.run setup.organizer .opening with
  | error f => rw [hr] at h; cases h
  | ok s =>
    rw [hr] at h
    cases hm : makePage setup (blank g) s with
    | error f => simp only [hm] at h; cases h
    | ok x =>
      obtain ⟨P, d₁⟩ := x
      obtain ⟨hst, -⟩ := shows_makePage hm
      have hadd : d₁.stack.add P = ⟨[P], some 0⟩ := by rw [hst]; exact Stack.add_empty
      simp only [hm, hadd] at h
      cases h
      exact ⟨P, d₁, s, by simp [stopFrom?, hr, Except.toOption], hm, rfl⟩

/-- What the opened dialog holds: one page, which shows what the script first stops at. -/
theorem start_eq_none {g : Guess} (h : start setup (blank g) = (d, none)) :
    ∃ P d₁ s, d = { d₁ with stack := ⟨[P], some 0⟩ }.update ∧ d₁.verdict = none ∧
      stopFrom? setup .opening = some s ∧ Shows setup d₁ P s := by
  obtain ⟨P, d₁, s, hs, hm, hd⟩ := exists_makePage_of_start h
  obtain ⟨-, hv, hsh, -⟩ := shows_makePage hm
  exact ⟨P, d₁, s, hd, hv, hs, hsh⟩

/-- The opened dialog is sound. -/
theorem sound_start {g : Guess} (h : start setup (blank g) = (d, none)) : Sound d := by
  obtain ⟨P, d₁, s, rfl, _, _, hsh⟩ := start_eq_none h
  refine .of_update (List.cons_ne_nil _ _) rfl ?_
  intro k hk
  rw [List.mem_singleton] at hk
  subst hk
  obtain ⟨p, _, hp, _⟩ := hsh
  exact ⟨p, hp⟩

/-- The opened dialog is open. -/
theorem verdict_start {g : Guess} (h : start setup (blank g) = (d, none)) : d.verdict = none := by
  obtain ⟨P, d₁, s, rfl, hv, _⟩ := start_eq_none h
  rw [verdict_update]
  exact hv

/-! ## Accepting -/

@[simp] theorem verdict_setCurrentRow (row : Nat) :
    (d.setCurrentRow setup row).verdict = d.verdict := by
  unfold setCurrentRow
  split <;> rfl

@[simp] theorem verdict_setCheckedRow (row : Nat) (on : Bool) :
    (d.setCheckedRow row on).verdict = d.verdict := by
  unfold setCheckedRow
  split <;> rfl

@[simp] theorem verdict_back : d.back.verdict = d.verdict := verdict_update

@[simp] theorem top?_setCurrentRow (row : Nat) : (d.setCurrentRow setup row).top? = d.top? := by
  unfold setCurrentRow
  split <;> rfl

/-- A double click goes on from the page of a question only. -/
theorem topQuestion_of_goesOnAt {row : Nat} (h : d.goesOnAt row) :
    ∃ k, d.top? = some (.question k) := by
  unfold goesOnAt topQuestion? at h
  cases hP : d.top? with
  | none => simp [hP] at h
  | some P =>
    cases P with
    | question k => exact ⟨k, rfl⟩
    | _ => simp [hP] at h

/-- Going on accepts the dialog on pages that lead nowhere, and only there. -/
theorem next_of_accepted (hv : d.verdict = none)
    (h : (d.next setup).1.verdict = some .accepted) :
    (∀ k, d.top? ≠ some (.question k)) ∧ (d.next setup).1.top? = d.top? ∧
      ∀ p, d.top? ≠ some (.requirement p) := by
  unfold next at h ⊢
  split at h
  · split at h
    · rw [hv] at h; cases h
    · split at h
      · rw [hv] at h; cases h
      · rw [verdict_runFrom] at h
        simp only [hv] at h
        cases h
  · rw [verdict_runFrom, hv] at h; cases h
  · rename_i hq hr
    exact ⟨fun k hk => hq k hk, rfl, fun p hp => hr p hp⟩

/-- An action that accepts the dialog goes on from the page at the end, and stays on it. -/
theorem eq_next_of_accepted {a : Action} (h : Sound d) (hv : d.verdict = none)
    (ha : (d.act setup a).1.verdict = some .accepted) :
    a = .next ∧ (∃ p, d.top? = some (.complete p)) ∧ (d.act setup a).1.top? = d.top? := by
  cases a with
  | next =>
    by_cases hn : d.nextEnabled
    · rw [act, if_pos hn] at ha ⊢
      obtain ⟨hq, ht, hr⟩ := next_of_accepted hv ha
      obtain ⟨_, P, _, _, hP⟩ := h.exists_top
      refine ⟨rfl, ?_, ht⟩
      cases P with
      | question k => exact absurd hP (hq k)
      | requirement p => exact absurd hP (hr p)
      | complete p => exact ⟨p, hP⟩
      | cancelled m => exact absurd (h.barred _ hP rfl) (by simp [hn])
      | failed m => exact absurd (h.barred _ hP rfl) (by simp [hn])
    · simp [act, if_neg hn, hv] at ha
  | doubleClick row =>
    cases row with
    | ofNat row =>
      by_cases hn : d.goesOnAt row
      · rw [act, if_pos hn] at ha
        obtain ⟨hq, -, -⟩ := next_of_accepted (by simpa using hv) ha
        obtain ⟨k, hk⟩ := topQuestion_of_goesOnAt hn
        exact absurd (by simpa using hk) (hq k)
      · simp [act, if_neg hn, hv] at ha
    | negSucc n => simp [act, hv] at ha
  | back =>
    by_cases hb : d.backEnabled
    · simp [act, if_pos hb, hv] at ha
    · simp [act, if_neg hb, hv] at ha
  | backspace => simp [act, hv] at ha
  | cancel => simp [act] at ha
  | manual => simp [act] at ha
  | showScript => simp [act, hv] at ha
  | typeName s => simp [act, hv] at ha
  | setCurrent row => cases row <;> simp [act, hv] at ha
  | setChecked row on => cases row <;> simp [act, hv] at ha
  | showTweaks row => cases row <;> simp [act, setTweakRow, hv] at ha

/-- An action that accepts the dialog is done on the page at the end. -/
theorem topComplete_of_accepted {a : Action} (h : Sound d) (hv : d.verdict = none)
    (ha : (d.act setup a).1.verdict = some .accepted) :
    ∃ p, (d.act setup a).1.top? = some (.complete p) := by
  obtain ⟨-, hp, ht⟩ := eq_next_of_accepted h hv ha
  rwa [ht]

/-- Soundness, and that a dialog is accepted on the page at the end only, along every run. -/
theorem always_sound {g : Guess} (h : start setup (blank g) = (d, none)) (es : List Event) :
    Always setup (fun d => Sound d ∧
      (d.verdict = some .accepted → ∃ p, d.top? = some (.complete p))) d es := by
  refine always_of_act ?_ ⟨sound_start h, fun hv => ?_⟩ es
  · rintro d a hv ⟨hs, -⟩
    exact ⟨hs.act a, topComplete_of_accepted hs hv⟩
  · rw [verdict_start h] at hv
    cases hv

end ModWizard.Dialog
