import ModWizard.Proofs.Dialog.Navigation
import ModWizard.Proofs.Host

/-!
# Coherence of the stack

The pages in the stack tell one way through the script: the first shows what the script first
stops at, and every other shows what the page below it leads to with what is chosen there now.

Pages of questions are shared by all stops with the same key, so the way is told truly only as
long as no stop is brought to a page that is in the stack.  A run that shows no question on
such a page is coherent throughout exactly if no stop is brought to a page of the stack that
cannot show it: the page would keep its rows and take note of a question that is not on it.
-/

namespace ModWizard

/-- From where a script is run on behind a stop at which some answers are given.  There is no such
place at an end. -/
def Script.Stop.leave? : Script.Stop → List Answer → Option Script.Source
  | .question _ q, as => some (.page (if q.kind = .display then q.next else q.follow as))
  | .requirement _ _ next, _ => some (.page next)
  | _, _ => none

/-- The key of a question.  Other stops have none that counts here. -/
def Script.Stop.questionKey? : Script.Stop → Option String
  | .question k _ => some k
  | _ => none

namespace Dialog

open Script (Source Stop)

variable {setup : Setup} {d d' : Dialog}

/-- From where the script is run for the page at a place of the stack: from its first node, or from
where the page below leads. -/
def source? (d : Dialog) : Nat → Option Source
  | 0 => some .opening
  | i + 1 => d.stack.pages[i]?.bind d.exit?

/-- What the page at a place of the stack has to show. -/
def due? (setup : Setup) (d : Dialog) (i : Nat) : Option Stop :=
  (source? d i).bind (stopFrom? setup)

/-- That the pages in the stack tell one way through the script. -/
structure Coherent (setup : Setup) (d : Dialog) : Prop where
  /-- there is a page -/
  ne_nil : d.stack.pages ≠ []
  /-- every page shows what it has to show -/
  shown : ∀ i P, d.stack.pages[i]? = some P → ∃ s, due? setup d i = some s ∧ Shows setup d P s
  /-- the key of what a page has to show is that of no page below it -/
  fresh : ∀ i s k, i < d.stack.pages.length → due? setup d i = some s → s.key? = some k →
    Page.question k ∉ d.stack.pages.take i

/-! ## Dialogs that agree below a place -/

/-- That two dialogs have the same pages below a place of their stacks. -/
structure AgreeBelow (n : Nat) (d d' : Dialog) : Prop where
  pages : ∀ i < n, d'.stack.pages[i]? = d.stack.pages[i]?
  questions : ∀ i < n, ∀ k, d.stack.pages[i]? = some (.question k) →
    d'.pages.get? k = d.pages.get? k

namespace AgreeBelow

variable {n i : Nat}

theorem exit? (h : AgreeBelow n d d') (hi : i < n) {P : Page} (hP : d.stack.pages[i]? = some P) :
    d'.exit? P = d.exit? P := by
  cases P with
  | question k => simp only [Dialog.exit?, h.questions i hi k hP]
  | _ => rfl

/-- What a page has to show depends on the pages below it only. -/
theorem due? (h : AgreeBelow n d d') (hi : i ≤ n) : due? setup d' i = due? setup d i := by
  cases i with
  | zero => rfl
  | succ i =>
    rw [Dialog.due?, Dialog.due?, source?, source?, h.pages i hi]
    cases hP : d.stack.pages[i]? with
    | none => rfl
    | some P => rw [Option.bind_some, Option.bind_some, h.exit? hi hP]

theorem shows (h : AgreeBelow n d d') (hi : i < n) {P : Page} {s : Stop}
    (hP : d.stack.pages[i]? = some P) (hs : Shows setup d P s) : Shows setup d' P s :=
  hs.congr fun k hk => h.questions i hi k (hk ▸ hP)

theorem take (h : AgreeBelow n d d') (hi : i ≤ n) :
    d'.stack.pages.take i = d.stack.pages.take i := by
  apply List.ext_getElem?
  intro j
  rw [List.getElem?_take, List.getElem?_take]
  split
  · exact h.pages j (by omega)
  · rfl

end AgreeBelow

/-- A dialog is coherent that agrees with a coherent one below its last page, if that page shows
what it has to show. -/
theorem Coherent.of_agreeBelow {n : Nat} (h : Coherent setup d) (ha : AgreeBelow n d d')
    (hn : n ≤ d.stack.pages.length) (hne : d'.stack.pages ≠ [])
    (hl : d'.stack.pages.length ≤ n + 1)
    (htop : ∀ P, d'.stack.pages[n]? = some P → ∃ s, due? setup d n = some s ∧
      Shows setup d' P s ∧ ∀ k, s.key? = some k → Page.question k ∉ d.stack.pages.take n) :
    Coherent setup d' where
  ne_nil := hne
  shown := by
    intro i P hP
    have hi : i < d'.stack.pages.length := (List.getElem?_eq_some_iff.mp hP).1
    by_cases hin : i < n
    · rw [ha.pages i hin] at hP
      obtain ⟨s, hs, hsh⟩ := h.shown i P hP
      exact ⟨s, (ha.due? (Nat.le_of_lt hin)).trans hs, ha.shows hin hP hsh⟩
    · obtain rfl : i = n := by omega
      obtain ⟨s, hs, hsh, _⟩ := htop P hP
      exact ⟨s, (ha.due? (Nat.le_refl i)).trans hs, hsh⟩
  fresh := by
    intro i s k hi hs hk
    rw [ha.due? (by omega)] at hs
    rw [ha.take (by omega)]
    by_cases hin : i < n
    · exact h.fresh i s k (by omega) hs hk
    · obtain rfl : i = n := by omega
      obtain ⟨P, hP⟩ : ∃ P, d'.stack.pages[i]? = some P := ⟨_, List.getElem?_eq_getElem hi⟩
      obtain ⟨s', hs', _, hfr⟩ := htop P hP
      rw [hs] at hs'
      cases hs'
      exact hfr k hk

/-- Pages of questions below a place are not that at the place. -/
theorem Coherent.ne_of_lt {i n : Nat} {k k' : String} (h : Coherent setup d)
    (hn : d.stack.pages[n]? = some (.question k)) (hi : i < n)
    (hi' : d.stack.pages[i]? = some (.question k')) : k' ≠ k := by
  rintro rfl
  obtain ⟨s, hs, hsh⟩ := h.shown n _ hn
  have hlt : n < d.stack.pages.length := (List.getElem?_eq_some_iff.mp hn).1
  refine h.fresh n s k' hlt hs hsh.key? ?_
  refine List.mem_iff_getElem?.mpr ⟨i, ?_⟩
  rw [List.getElem?_take, if_pos hi, hi']

/-! ## Changes of the current page -/

theorem Coherent.congr (h : Coherent setup d) (hs : SameScreen d d') : Coherent setup d' := by
  refine h.of_agreeBelow (n := d.stack.pages.length) ⟨fun i _ => by rw [hs.stack],
    fun i _ k _ => by rw [hs.pages]⟩ (Nat.le_refl _) ?_ ?_ ?_
  · rw [hs.stack]; exact h.ne_nil
  · rw [hs.stack]; exact Nat.le_succ _
  · intro P hP
    rw [hs.stack, List.getElem?_eq_none (Nat.le_refl _)] at hP
    cases hP

/-- A change of the current question's page that leaves what it presents keeps the stack
coherent: the page stands in the stack only once, and nothing stands upon it. -/
theorem Coherent.setPage {k : String} {p p' : QuestionPage} (h : Coherent setup d)
    (hd : Sound d) (ht : d.topQuestion? = some (k, p))
    (hp' : ∀ q, p.Presents k q → p'.Presents k q) : Coherent setup (d.setPage k p') := by
  obtain ⟨n, P, hl, hP, htop⟩ := hd.exists_top
  obtain ⟨hk, hp⟩ := get?_of_topQuestion? ht
  cases htop.symm.trans hk
  refine h.of_agreeBelow (n := n) ⟨fun i _ => rfl, fun i hi k' hk' => ?_⟩ (by omega) h.ne_nil
    (Nat.le_of_eq (by rw [stack_setPage, hl])) ?_
  · have hne : k ≠ k' := fun he => h.ne_of_lt hP hi hk' he.symm
    simp [hne]
  · intro P' hP'
    rw [stack_setPage, hP] at hP'
    cases hP'
    obtain ⟨s, hs, hsh⟩ := h.shown n _ hP
    refine ⟨s, hs, ?_, fun k hk => h.fresh n s k (by omega) hs hk⟩
    obtain ⟨p₁, q, hp₁, hsq, hpre⟩ := hsh
    rw [hp] at hp₁
    cases hp₁
    exact ⟨p', q, by simp, hsq, hp' q hpre⟩

theorem Coherent.setCurrentRow (h : Coherent setup d) (hd : Sound d) (row : Nat) :
    Coherent setup (d.setCurrentRow setup row) := by
  unfold Dialog.setCurrentRow
  split
  · rename_i k p ht
    exact h.setPage hd ht fun q hq => hq.setCurrent row
  · exact h

theorem Coherent.setCheckedRow (h : Coherent setup d) (hd : Sound d) (row : Nat) (on : Bool) :
    Coherent setup (d.setCheckedRow row on) := by
  unfold Dialog.setCheckedRow
  split
  · rename_i k p ht
    exact h.setPage hd ht fun q hq => hq.setChecked row on
  · exact h

/-- Looking at another tweak file keeps the stack coherent. -/
theorem Coherent.setTweakRow (h : Coherent setup d) (hd : Sound d) (row : Nat) :
    Coherent setup (d.setTweakRow row) := by
  obtain ⟨n, P, hl, hP, htop⟩ := hd.exists_top
  have hc : d.stack.current = some n := by rw [hd.current, hl]; rfl
  refine h.of_agreeBelow (n := n) ⟨fun i hi => ?_, fun i _ k _ => rfl⟩ (by omega)
    (hd.setTweakRow row).ne_nil (by simp [Dialog.setTweakRow, hl]) ?_
  · have hne : n ≠ i := by omega
    rw [Dialog.setTweakRow, Stack.pages_modifyTop hc, List.getElem?_modify_ne _ _ hne]
  · intro P' hP'
    rw [Dialog.setTweakRow, Stack.pages_modifyTop hc, List.getElem?_modify_eq, hP] at hP'
    cases hP'
    obtain ⟨s, hs, hsh⟩ := h.shown n _ hP
    refine ⟨s, hs, ?_, fun k hk => h.fresh n s k (by omega) hs hk⟩
    cases P with
    | complete p =>
      obtain ⟨k, o, next, i, hso, rfl⟩ := hsh
      obtain ⟨j, hj⟩ := CompletePage.setRow_setRow_create setup.packages o i row
      exact ⟨k, o, next, j, hso, hj⟩
    | _ => exact hsh

/-! ## Pages taken away and pushed -/

/-- A dialog with the lower pages of a coherent one is coherent after an update. -/
theorem Coherent.update_of_take {n : Nat} (h : Coherent setup d) (hn : n < d.stack.pages.length)
    (hs : d'.stack.pages = d.stack.pages.take (n + 1)) (hc : d'.stack.current = some n)
    (hp : d'.pages = d.pages) : Coherent setup d'.update := by
  have hpage : ∀ i, i < n + 1 → d'.stack.pages[i]? = d.stack.pages[i]? := by
    intro i hi
    rw [hs, List.getElem?_take, if_pos hi]
  have htop : d'.top? = d.stack.pages[n]? := by
    rw [top?, Stack.top?, hc, Option.bind_some, hpage n (Nat.lt_succ_self n)]
  have hlen : d'.stack.pages.length = n + 1 := by rw [hs, List.length_take]; omega
  refine h.of_agreeBelow (n := n) ⟨fun i hi => ?_, fun i hi k hk => ?_⟩ (by omega) ?_
    (Nat.le_of_eq (by rw [stack_update, hlen])) ?_
  · rw [stack_update, hpage i (by omega)]
  · -- only the last of the lower pages is given the focus, and it stands there once
    rw [get?_update, if_neg, hp]
    intro he
    exact h.ne_of_lt (htop ▸ he) hi hk rfl
  · rw [stack_update]
    exact List.length_pos_iff.mp (by omega)
  · intro P hP
    rw [stack_update, hpage n (Nat.lt_succ_self n)] at hP
    obtain ⟨s, hs, hsh⟩ := h.shown n P hP
    refine ⟨s, hs, Shows.update (hsh.congr fun k _ => by rw [hp]), ?_⟩
    exact fun k hk => h.fresh n s k hn hs hk

theorem Coherent.back (h : Coherent setup d) (hd : Sound d) : Coherent setup d.back := by
  obtain ⟨n, P, hl, hP, _⟩ := hd.exists_top
  cases n with
  | zero =>
    have hpop := Stack.pop_of_length_eq_one hd.current hl
    refine h.update_of_take (n := 0) (by omega) ?_ ?_ rfl
    · rw [hpop, List.take_of_length_le (Nat.le_of_eq hl)]
    · rw [hpop, hd.current, hl]
  | succ n =>
    have hpop := Stack.pop_of_current_eq_last hd.current (by omega)
    refine h.update_of_take (n := n) (by omega) ?_ ?_ rfl
    · rw [hpop, List.dropLast_eq_take, hl]
      rfl
    · rw [hpop, List.length_dropLast, hl]
      rfl

/-- What the next page will have to show is what going on from the current page comes to. -/
theorem due?_length (hd : Sound d) :
    due? setup d d.stack.pages.length = d.stopAfter? setup := by
  obtain ⟨n, P, hl, hP, htop⟩ := hd.exists_top
  rw [hl, due?, source?, stopAfter?, hP, htop]

/-- Showing what going on comes to, with a key that has no page in the stack, keeps the stack
coherent, whether it succeeds or not. -/
theorem Coherent.showStop {s : Stop} (h : Coherent setup d) (hd : Sound d)
    (hs : d.stopAfter? setup = some s)
    (hfr : ∀ k, s.key? = some k → Page.question k ∉ d.stack.pages) :
    Coherent setup (showStop setup d s).1 := by
  by_cases hsh : (Dialog.showStop setup d s).2 = none
  · obtain ⟨P, d₁, he, _, hP, hother⟩ := showStop_of_shown hsh
    have hpush : (d.stack.push P).pages = d.stack.pages ++ [P] := by
      apply Stack.pages_push_of_notMem
      rintro k rfl
      exact hfr k hP.key?
    rw [he]
    refine h.of_agreeBelow (n := d.stack.pages.length) ⟨fun i hi => ?_, fun i hi k hk => ?_⟩
      (Nat.le_refl _) ?_ ?_ ?_
    · rw [stack_update, hpush, List.getElem?_append_left hi]
    · have hne : P ≠ .question k := by
        rintro rfl
        exact hfr k hP.key? (List.mem_of_getElem? hk)
      rw [get?_update, if_neg, hother k hne]
      rw [top?, Stack.top?_push]
      exact fun hc => hne (Option.some.inj hc)
    · rw [stack_update, hpush]
      simp
    · rw [stack_update, hpush]
      simp
    · intro P' hP'
      rw [stack_update, hpush, List.getElem?_append_right (Nat.le_refl _), Nat.sub_self] at hP'
      cases hP'
      refine ⟨s, (due?_length hd).trans hs, Shows.update (hP.congr fun k _ => rfl), ?_⟩
      rw [List.take_length]
      exact hfr
  · obtain he | ⟨k, p, hk, _, he⟩ := showStop_of_refused hsh <;> rw [he]
    · exact h
    · refine h.of_agreeBelow (n := d.stack.pages.length)
        ⟨fun i _ => rfl, fun i hi k' hk' => ?_⟩ (Nat.le_refl _) h.ne_nil (Nat.le_succ _) ?_
      · have hne : k ≠ k' := by
          rintro rfl
          exact hfr k hk (List.mem_of_getElem? hk')
        simp [hne]
      · intro P hP
        rw [stack_setPage, List.getElem?_eq_none (Nat.le_refl _)] at hP
        cases hP

/-! ## Actions -/

theorem Coherent.touch (h : Coherent setup d) (hd : Sound d) (ht : Touch setup d d') :
    Coherent setup d' := by
  cases ht with
  | aside hs => exact h.congr hs
  | current row hs => exact (h.setCurrentRow hd row).congr hs
  | check row on => exact h.setCheckedRow hd row on
  | tweak row => exact h.setTweakRow hd row
  | back => exact h.back hd

@[simp] theorem stack_setCurrentRow (row : Nat) :
    (d.setCurrentRow setup row).stack = d.stack := by
  unfold setCurrentRow
  split <;> rfl

/-- An action that comes to a stop shows it from a dialog that is sound and coherent too, with
the same pages in its stack. -/
theorem exists_showStop {a : Action} {s : Stop} (h : Coherent setup d) (hd : Sound d)
    (hc : d.comesTo setup a = some s) :
    ∃ d', Sound d' ∧ Coherent setup d' ∧ d'.stack = d.stack ∧ d'.stopAfter? setup = some s ∧
      d.act setup a = showStop setup d' s := by
  obtain ⟨d', hd', hs, ha⟩ := act_of_comesTo_eq_some hc
  obtain hd' | ⟨row, hd'⟩ := hd'
  · exact ⟨d', hd.congr hd', h.congr hd', hd'.stack, hs, ha⟩
  · exact ⟨d', (hd.setCurrentRow row).congr hd', (h.setCurrentRow hd row).congr hd',
      hd'.stack.trans (stack_setCurrentRow row), hs, ha⟩

/-- An action that brings no stop to a page in the stack keeps the stack coherent. -/
theorem Coherent.act {a : Action} (h : Coherent setup d) (hd : Sound d)
    (hfr : ∀ s k, d.comesTo setup a = some s → s.key? = some k →
      Page.question k ∉ d.stack.pages) : Coherent setup (d.act setup a).1 := by
  cases hc : d.comesTo setup a with
  | none => exact h.touch hd (act_of_comesTo_eq_none hc)
  | some s =>
    obtain ⟨d', hd', h', hst, hs, ha⟩ := exists_showStop h hd hc
    rw [ha]
    refine h'.showStop hd' hs fun k hk => ?_
    rw [hst]
    exact hfr s k hc hk

/-- An action that brings a stop to a page in the stack and fails leaves a stack that is not
coherent: the page was asked what it does not have to show. -/
theorem Coherent.not_coherent_act {a : Action} {s : Stop} {k : String} (h : Coherent setup d)
    (hd : Sound d) (hc : d.comesTo setup a = some s) (hk : s.key? = some k)
    (hmem : Page.question k ∈ d.stack.pages) (hf : (d.act setup a).2 ≠ none) :
    ¬ Coherent setup (d.act setup a).1 := by
  obtain ⟨d', hd', h', hst, hs, ha⟩ := exists_showStop h hd hc
  rw [ha] at hf ⊢
  rw [← hst] at hmem
  obtain ⟨p, hp⟩ := hd'.known k hmem
  have hrefused : (p.ask setup.images s).2 ≠ none := by
    rwa [fault_showStop_of_known hk hp] at hf
  rw [showStop_of_known_of_refused hk hp hrefused]
  intro hcoh
  obtain ⟨i, hi⟩ := List.mem_iff_getElem?.mp hmem
  -- before and after, the page has to show the same, for nothing below it has changed
  obtain ⟨s₀, hs₀, p₀, q₀, hp₀, rfl, hpre₀⟩ := h'.shown i _ hi
  obtain ⟨s₁, hs₁, p₁, q₁, hp₁, rfl, hpre₁⟩ := hcoh.shown i _ hi
  have hagree : AgreeBelow i d' (d'.setPage k { p with asked := s }) := by
    refine ⟨fun j _ => rfl, fun j hj k' hk' => ?_⟩
    have hne : k ≠ k' := fun he => h'.ne_of_lt hi hj hk' he.symm
    simp [hne]
  rw [hagree.due? (Nat.le_refl i), hs₀] at hs₁
  cases hs₁
  rw [hp] at hp₀
  cases hp₀
  -- but the page cannot show what it was asked, and it could show that
  simp only [pages_setPage, Table.get?_insert, if_pos] at hp₁
  cases hp₁
  refine hrefused (QuestionPage.ask_eq_none_iff.mpr ⟨k, q₀, hpre₁.asked_eq, hpre₀.length_rows⟩)

/-- The opened dialog is coherent. -/
theorem coherent_start {g : Guess} (h : start setup (blank g) = (d, none)) : Coherent setup d := by
  obtain ⟨P, d₁, s, rfl, _, hs, hsh⟩ := start_eq_none h
  refine ⟨by simp, ?_, ?_⟩
  · intro i P' hP'
    rw [stack_update] at hP'
    obtain ⟨rfl, rfl⟩ : i = 0 ∧ P' = P := by
      cases i with
      | zero => exact ⟨rfl, (Option.some.inj hP').symm⟩
      | succ i => cases hP'
    exact ⟨s, hs, Shows.update (hsh.congr fun k _ => rfl)⟩
  · intro i s k hi _ _
    rw [stack_update] at hi ⊢
    obtain rfl : i = 0 := by simpa using hi
    simp

/-! ## Replaying the choices -/

/-- The answers that are chosen on a page. -/
def held (d : Dialog) : Page → List Answer
  | .question k => ((d.pages.get? k).bind fun p => p.chosen.toOption).getD []
  | _ => []

/-- What the script stops at when it is run and some answers are given at the stops on the way. -/
def replay (setup : Setup) : Source → List (List Answer) → Option Stop
  | source, [] => stopFrom? setup source
  | source, as :: rest =>
    (stopFrom? setup source).bind fun s => (s.leave? as).bind fun source => replay setup source rest

theorem replay_snoc (source : Source) (xs : List (List Answer)) (as : List Answer) :
    replay setup source (xs ++ [as]) =
      (replay setup source xs).bind fun s => (s.leave? as).bind (stopFrom? setup) := by
  induction xs generalizing source with
  | nil => rfl
  | cons x xs ih =>
    simp only [List.cons_append, replay, ih, Option.bind_assoc]

/-- A page that shows a stop leads where the script goes on from the stop with the answers
chosen on the page. -/
theorem leave?_held {P : Page} {s : Stop} {source : Source} (h : Shows setup d P s)
    (hid : d.exit? P = some source) : s.leave? (d.held P) = some source := by
  cases P with
  | question k =>
    obtain ⟨p, q, hp, rfl, hpre⟩ := h
    simp only [exit?, hp, Option.bind_some, QuestionPage.depart, hpre.asked_eq] at hid
    simp only [Script.Stop.leave?, held, hp, Option.bind_some]
    cases hk : q.kind with
    | display =>
      rw [hk] at hid
      cases hid
      rfl
    | _ =>
      rw [hk] at hid
      cases hc : p.chosen with
      | error f => rw [hc] at hid; cases hid
      | ok as =>
        rw [hc] at hid
        cases hid
        rfl
  | requirement p =>
    obtain ⟨k, r, next, rfl, hc⟩ := h
    cases hid
    unfold RequirementPage.create at hc
    split at hc <;> cases hc
    rfl
  | complete p => cases hid
  | cancelled m => cases hid
  | failed m => cases hid

/-- What a page of a coherent stack has to show is what the script stops at when the choices
held by the pages below are replayed from the start. -/
theorem Coherent.replay_take (h : Coherent setup d) {n : Nat} (hn : n < d.stack.pages.length) :
    replay setup .opening ((d.stack.pages.take n).map d.held) =
      due? setup d n := by
  induction n with
  | zero => rfl
  | succ n ih =>
    obtain ⟨Q, hQ⟩ : ∃ Q, d.stack.pages[n]? = some Q :=
      ⟨_, List.getElem?_eq_getElem (Nat.lt_of_succ_lt hn)⟩
    obtain ⟨P, hP⟩ : ∃ P, d.stack.pages[n + 1]? = some P := ⟨_, List.getElem?_eq_getElem hn⟩
    obtain ⟨s, hs, hsh⟩ := h.shown n Q hQ
    obtain ⟨s', hs', _⟩ := h.shown (n + 1) P hP
    rw [List.take_add_one, hQ, Option.toList_some, List.map_append, List.map_singleton,
      replay_snoc, ih (Nat.lt_of_succ_lt hn), hs, Option.bind_some]
    rw [due?, source?, hQ, Option.bind_some] at hs' ⊢
    cases hid : d.exit? Q with
    | none => rw [hid] at hs'; cases hs'
    | some source => rw [leave?_held hsh hid]

/-! ## Runs -/

/-- That an event shows no question whose key already has a page in the stack. -/
def ShowsAnew (setup : Setup) (d : Dialog) : Event → Prop
  | .act a => (d.act setup a).2 = none →
    ∀ k ∈ (d.comesTo setup a).bind Stop.questionKey?, Page.question k ∉ d.stack.pages
  | .ask _ => True

/-- That an event brings a stop to a page in the stack that cannot show it: something other than
a question, or a question with another number of answers. -/
def Garbles (setup : Setup) (d : Dialog) : Event → Prop
  | .act a => (d.act setup a).2 ≠ none ∧
    ∃ k ∈ (d.comesTo setup a).bind Stop.key?, Page.question k ∈ d.stack.pages
  | .ask _ => False

instance (d : Dialog) : ∀ e, Decidable (ShowsAnew setup d e)
  | .act a => inferInstanceAs (Decidable ((d.act setup a).2 = none →
      ∀ k ∈ (d.comesTo setup a).bind Stop.questionKey?, Page.question k ∉ d.stack.pages))
  | .ask _ => inferInstanceAs (Decidable True)

instance (d : Dialog) : ∀ e, Decidable (Garbles setup d e)
  | .act a => inferInstanceAs (Decidable ((d.act setup a).2 ≠ none ∧
      ∃ k ∈ (d.comesTo setup a).bind Stop.key?, Page.question k ∈ d.stack.pages))
  | .ask _ => inferInstanceAs (Decidable False)

/-- An event that shows no question anew and garbles no page brings no stop to a page in the
stack. -/
theorem notMem_of_not_garbles {a : Action} (hcoherent : Coherent setup d) (hd : Sound d)
    (h : ShowsAnew setup d (.act a)) (hg : ¬ Garbles setup d (.act a)) {s : Stop} {k : String}
    (hc : d.comesTo setup a = some s) (hk : s.key? = some k) :
    Page.question k ∉ d.stack.pages := by
  intro hmem
  by_cases hf : (d.act setup a).2 = none
  · -- the page of the key could show the stop, so the stop is a question of that key
    obtain ⟨d', hs', -, hst, -, ha⟩ := exists_showStop hcoherent hd hc
    obtain ⟨p, hp⟩ := hs'.known k (hst ▸ hmem)
    have hask : (p.ask setup.images s).2 = none := by
      rw [← fault_showStop_of_known hk hp, ← ha, hf]
    obtain ⟨k', q, rfl, _⟩ := QuestionPage.ask_eq_none_iff.mp hask
    cases hk
    exact h hf k (by rw [hc]; rfl) hmem
  · exact hg ⟨hf, k, by rw [hc]; exact hk, hmem⟩

/-- A run without questions shown on pages of the stack is coherent throughout exactly if no
event of it garbles a page. -/
theorem always_coherent_iff_of_coherent (hd : Sound d) (h : Coherent setup d) {es : List Event}
    (hanew : Along setup (ShowsAnew setup) d es) :
    Always setup (Coherent setup) d es ↔ Along setup (fun d e => ¬ Garbles setup d e) d es := by
  refine always_iff_along (fun _ a hd _ => hd.act a) (fun d a hd he h => ?_) (fun _ _ => id) hd
    hanew h
  constructor
  · rintro hafter ⟨hf, k, hk, hmem⟩
    obtain ⟨s, hc, hk⟩ := Option.bind_eq_some_iff.mp hk
    exact h.not_coherent_act hd hc hk hmem hf hafter
  · intro hg
    exact h.act hd fun s k hc hk => notMem_of_not_garbles h hd he hg hc hk

/-! ## What is accepted -/

/-- That a dialog, asked what is to be installed, answers with an outcome: the sub-packages of
the archive that the outcome names, its renamings, and its tweaks by file. -/
structure Delivers (setup : Setup) (d : Dialog) (o : Outcome) : Prop where
  packages : d.query .packages =
    .ok (.packages ((setup.packages.map (·.name)).filter o.packages.contains))
  renames : d.query .renames = .ok (.renames o.renames)
  tweaks : d.query .tweaks =
    .ok (.tweaks (Table.ofList (o.tweaks.entries.map fun f => (CompletePage.slashed f.1, f.2))))

/-- A dialog whose current page shows an outcome delivers it. -/
theorem delivers_of_shows {p : CompletePage} {k : String} {o : Outcome} {next : Option String}
    (ht : d.top? = some (.complete p)) (h : Shows setup d (.complete p) (.done k o next)) :
    Delivers setup d o := by
  obtain ⟨_, _, _, row, hs, rfl⟩ := h
  cases hs
  have hc : d.completePage = .ok ((CompletePage.create setup.packages o).setRow row) := by
    simp [completePage, topComplete?, ht]
  refine ⟨?_, ?_, ?_⟩
  · simp only [query, hc, Except.map, CompletePage.checkedPackages_setRow,
      CompletePage.checkedPackages_create]
  · simp only [query, hc, Except.map, CompletePage.renames_setRow, CompletePage.renames_create]
  · simp only [query, hc, Except.map, CompletePage.tweaks_setRow, CompletePage.tweaks_create]

/-- An accepted dialog with a coherent stack delivers the outcome at which the script stops when
the choices held by the pages in the stack are replayed from the start. -/
theorem Coherent.delivers (h : Coherent setup d) (hd : Sound d)
    (hc : ∃ p, d.top? = some (.complete p)) :
    ∃ k o next, replay setup .opening (d.stack.pages.dropLast.map d.held) =
      some (.done k o next) ∧ Delivers setup d o := by
  obtain ⟨p, hp⟩ := hc
  obtain ⟨n, P, hl, hP, htop⟩ := hd.exists_top
  rw [hp] at htop
  cases htop
  obtain ⟨s, hs, hsh⟩ := h.shown n _ hP
  obtain ⟨k, o, next, row, rfl, hpo⟩ := hsh
  refine ⟨k, o, next, ?_, delivers_of_shows hp ⟨k, o, next, row, rfl, hpo⟩⟩
  rw [List.dropLast_eq_take, hl, Nat.add_sub_cancel, h.replay_take (by omega), hs]

/-- A run that shows no question whose key already has a page in the stack is coherent
throughout exactly if none of its events brings a stop to a page in the stack that cannot show
it; and if such a run ends with the dialog accepted, the dialog delivers the outcome at which
the script stops when the choices held by the pages in the stack are replayed from the
start. -/
theorem always_coherent_iff {g : Guess} {es : List Event}
    (h : start setup (blank g) = (d, none)) (hanew : Along setup (ShowsAnew setup) d es) :
    (Always setup (Coherent setup) d es ↔ Along setup (fun d e => ¬ Garbles setup d e) d es) ∧
    (Along setup (fun d e => ¬ Garbles setup d e) d es →
      (play setup d es).2.verdict = some .accepted →
      ∃ k o next, replay setup .opening
          ((play setup d es).2.stack.pages.dropLast.map (play setup d es).2.held) =
          some (.done k o next) ∧
        Delivers setup (play setup d es).2 o) := by
  have hiff := always_coherent_iff_of_coherent (sound_start h) (coherent_start h) hanew
  refine ⟨hiff, fun hung hv => ?_⟩
  obtain ⟨hd, hc⟩ := (always_sound h es).last
  exact (hiff.mpr hung).last.delivers hd (hc hv)

/-! ### Two questions with one key

The question "third" has the key of the question "first", but another number of answers.  The
user goes on from "first" to "second" and there chooses the answer that leads to "third". -/

namespace SharedKey

def organizer : Organizer where
  host := .plain 9
  gameName := "Game"
  version := "1.0"
  gameVersion := "1.0"
  extender := none
  checker := some ∅
  settings := []
  files := []
  loadOrder := ∅
  states := ∅

def answer (name : String) (leadsTo : Option String) : Answer := ⟨name, "", none, leadsTo⟩

def question (description : String) (answers : List Answer) (next : String) : Question :=
  ⟨.one, description, answers, [0], some next⟩

def script : Script where
  start := "a"
  nodes := .ofList
    [("a", ⟨"k", .question (question "first" [answer "x" none] "b")⟩),
     ("b", ⟨"b", .question (question "second" [answer "p" (some "c"), answer "r" none] "e")⟩),
     ("c", ⟨"k", .question (question "third" [answer "u" none, answer "v" none] "e")⟩),
     ("e", ⟨"e", .done ⟨["Core"], [], [], ∅, ∅⟩ none⟩)]

def sharing : Setup where
  organizer := organizer
  script := script
  packages := [⟨"Core", [], []⟩]
  images := ∅
  remembered := ∅

/-- The dialog as it is opened. -/
def opened : Dialog := (start sharing (blank ⟨"Mod", ["Mod"]⟩)).1

/-- Going on twice, to the question that cannot be shown. -/
def garbling : List Event := [.act .next, .act .next]

/-- Choosing the other answer, going back and on again, and accepting. -/
def accepting : List Event :=
  [.act .next, .act (.setCurrent 1), .act .next, .act .back, .act .back, .act .next, .act .next,
   .act .next]

end SharedKey

open SharedKey in
/-- The run with the other answer meets the conditions, and it is accepted. -/
theorem always_coherent_iff_accepting :
    start sharing (blank ⟨"Mod", ["Mod"]⟩) = (opened, none) ∧
    Along sharing (ShowsAnew sharing) opened accepting ∧
    (play sharing opened accepting).2.verdict = some .accepted ∧
    Always sharing (Coherent sharing) opened accepting ∧
    ∃ k o next, replay sharing .opening
        ((play sharing opened accepting).2.stack.pages.dropLast.map
          (play sharing opened accepting).2.held) = some (.done k o next) ∧
      Delivers sharing (play sharing opened accepting).2 o := by
  have hopened : start sharing (blank ⟨"Mod", ["Mod"]⟩) = (opened, none) :=
    Prod.ext rfl (by decide +kernel)
  have hanew : Along sharing (ShowsAnew sharing) opened accepting := by
    decide +kernel
  have hung : Along sharing (fun d e => ¬ Garbles sharing d e) opened accepting := by
    decide +kernel
  have hverdict : (play sharing opened accepting).2.verdict = some .accepted := by
    decide +kernel
  obtain ⟨hiff, hdelivers⟩ := always_coherent_iff hopened hanew
  exact ⟨hopened, hanew, hverdict, hiff.mpr hung, hdelivers hung hverdict⟩

open SharedKey in
/-- The other run shows no question on a page in the stack, and yet its stack is not coherent in
the end: the first page was asked the question "third". -/
theorem not_coherent_garbling :
    start sharing (blank ⟨"Mod", ["Mod"]⟩) = (opened, none) ∧
    Along sharing (ShowsAnew sharing) opened garbling ∧
    ¬ Coherent sharing (play sharing opened garbling).2 := by
  refine ⟨Prod.ext rfl (by decide +kernel), by decide +kernel, fun h => ?_⟩
  have hpage : (play sharing opened garbling).2.stack.pages[0]? =
      some (.question "k") := by decide +kernel
  have hdue : (due? sharing (play sharing opened garbling).2 0) =
      some (.question "k" (question "first" [answer "x" none] "b")) := by decide +kernel
  have hasked : ((play sharing opened garbling).2.pages.get? "k").map (·.asked) =
      some (.question "k" (question "third" [answer "u" none, answer "v" none] "e")) := by
    decide +kernel
  obtain ⟨s, hs, p, q, hp, rfl, hpre⟩ := h.shown 0 _ hpage
  rw [hdue] at hs
  rw [hp, Option.map_some, hpre.asked_eq, ← hs] at hasked
  exact absurd hasked (by decide +kernel)

end Dialog

end ModWizard
