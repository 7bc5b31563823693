import Mathlib.Data.List.Forall2
import ModWizard.Proofs.Dialog.Coherence

/-!
# Giving the same answers again

A dialog that was accepted is opened again with its answers remembered, and the user does nothing
but go on.  Every page that is made then has the answers chosen that were chosen on the page at
the same place before, so it leads to the same page as before (`Follows`), and the dialog is
accepted with the same answers.

A page remembers what was chosen on it by the names of the answers, and it does not remember
that nothing was chosen; `Repeatable` says when that is enough.
-/

namespace ModWizard.Dialog

open Script (Stop)

/-- A part of a list is what has one of its names, if no name is in the list twice. -/
theorem filter_contains_of_sublist {α : Type} (name : α → String) {part whole : List α}
    (h : part.Sublist whole) (hn : (whole.map name).Nodup) :
    (whole.filter fun a => (part.map name).contains (name a)) = part := by
  induction h with
  | slnil => rfl
  | @cons part whole a h ih =>
    obtain ⟨ha, hn⟩ := List.nodup_cons.mp hn
    have hpart : name a ∉ part.map name := fun hm => ha ((h.map name).subset hm)
    rw [List.filter_cons_of_neg (by simpa using hpart)]
    exact ih hn
  | @cons_cons part whole a h ih =>
    obtain ⟨ha, hn⟩ := List.nodup_cons.mp hn
    have hother : ∀ b ∈ whole, ((a :: part).map name).contains (name b) =
        (part.map name).contains (name b) := by
      intro b hb
      have hne : name b ≠ name a := fun he => ha (List.mem_map.mpr ⟨b, hb, he⟩)
      simp [hne]
    rw [List.filter_cons_of_pos (by simp), List.filter_congr hother, ih hn]

namespace QuestionPage

variable {images : Images} {p : QuestionPage} {k : String} {q : Question} {as : List Answer}

/-! ## Choosing by name -/

theorem rows_blank : (blank images k q).rows = q.answers.map fun a => ⟨a, none⟩ := by
  rw [blank, rows_fill]
  simp [List.zipWith_map_left, List.zipWith_self]

theorem takesOne_of_presents (h : p.Presents k q) : p.takesOne = (q.kind = .one : Bool) := by
  rw [takesOne, h.asked_eq]

/-- A page that takes one answer has an answer of its question chosen. -/
theorem exists_place_of_chosen (h : p.Presents k q) (hk : q.kind = .one)
    (hc : p.chosen = .ok as) : ∃ (i : Nat) (a : Answer), q.answers[i]? = some a ∧ as = [a] := by
  have ht : p.takesOne = true := by simp [takesOne_of_presents h, hk]
  rw [chosen, if_pos ht] at hc
  cases ha : p.currentAnswer? with
  | none => rw [ha] at hc; cases hc
  | some a =>
    rw [ha] at hc
    cases hc
    obtain ⟨r, hr, rfl⟩ := Option.map_eq_some_iff.mp ha
    obtain ⟨i, -, hi⟩ := Option.bind_eq_some_iff.mp hr
    refine ⟨i, r.answer, ?_, rfl⟩
    rw [← h.answers_eq, answers, List.getElem?_map, hi, Option.map_some]

theorem chosen_of_kind_ne_one (h : p.Presents k q) (hk : q.kind ≠ .one) :
    p.chosen = .ok ((p.rows.filter (·.isChecked)).map (·.answer)) := by
  have ht : ¬ p.takesOne = true := by simp [takesOne_of_presents h, hk]
  rw [chosen, if_neg ht]

/-- The answers chosen by their check marks are some of the question's. -/
theorem sublist_of_chosen (h : p.Presents k q) (hk : q.kind ≠ .one) (hc : p.chosen = .ok as) :
    as.Sublist q.answers := by
  rw [chosen_of_kind_ne_one h hk] at hc
  cases hc
  rw [← h.answers_eq]
  exact List.filter_sublist.map _

/-- The only place of an answer's name is that of the answer. -/
theorem placesOf_singleton (hn : (q.answers.map (·.name)).Nodup) {i : Nat} {a : Answer}
    (ha : q.answers[i]? = some a) : placesOf q [a.name] = [i] := by
  have hmem : (a, i) ∈ q.answers.zipIdx := List.mem_zipIdx_iff_getElem?.mpr ha
  have hnodup : (q.answers.zipIdx.map fun x => x.1.name).Nodup := by
    rw [← List.zipIdx_map_fst 0 q.answers, List.map_map] at hn
    exact hn
  have hfilter := filter_contains_of_sublist (fun x : Answer × Nat => x.1.name)
    (List.singleton_sublist.mpr hmem) hnodup
  simp only [List.map_singleton] at hfilter
  rw [placesOf, hfilter, List.map_singleton]

theorem placesOf_nil : placesOf q [] = [] := by
  simp [placesOf]

theorem proposedPlaces_of_proposed_eq_nil (h : q.proposed = []) : proposedPlaces q = .ok [] := by
  have hnone : (List.range q.answers.length).filter ([] : List Nat).contains = [] := by
    simp [List.filter_eq_nil_iff]
  cases hk : q.kind <;> simp [proposedPlaces, Question.proposals?, hk, h, hnone]

/-- Check marks at some places choose the answers at these places. -/
theorem chosen_choose_many (hk : q.kind = .many) (places : List Nat) :
    ((blank images k q).choose images .many places).chosen =
      .ok ((q.answers.zipIdx.filter fun x => places.contains x.2).map (·.1)) := by
  have hpre : ((blank images k q).choose images .many places).Presents k q :=
    presents_blank.choose .many places
  rw [chosen_of_kind_ne_one hpre (by simp [hk]), choose, rows_blank]
  simp [List.zipIdx_map, List.filter_map, Row.isChecked, Function.comp_def]

/-- A place is one of some names if the answer at it has one of them. -/
theorem mem_placesOf {names : List String} {i : Nat} :
    i ∈ placesOf q names ↔ ∃ a, q.answers[i]? = some a ∧ a.name ∈ names := by
  simp [placesOf, List.mem_zipIdx_iff_getElem?]

/-- The answers at the places of some names are those with the names. -/
theorem filter_placesOf (names : List String) :
    (q.answers.zipIdx.filter fun x => (placesOf q names).contains x.2).map (·.1) =
      q.answers.filter fun a => names.contains a.name := by
  have hplace : ∀ x ∈ q.answers.zipIdx,
      (placesOf q names).contains x.2 = names.contains x.1.name := by
    intro x hx
    rw [List.mem_zipIdx_iff_getElem?] at hx
    rw [Bool.eq_iff_iff, List.contains_iff_mem, mem_placesOf, hx, List.contains_iff_mem]
    simp
  rw [List.filter_congr hplace]
  calc
    _ = (q.answers.zipIdx.map Prod.fst).filter fun a => names.contains a.name := by
      rw [List.filter_map]
      rfl
    _ = q.answers.filter fun a => names.contains a.name := by rw [List.zipIdx_map_fst]

/-- A new page on which the names of the answers chosen on another page are remembered has the
same answers chosen. -/
theorem exists_create_of_chosen (images : Images) (h : p.Presents k q)
    (hn : (q.answers.map (·.name)).Nodup) (hc : p.chosen = .ok as)
    (hmany : q.kind = .many → as = [] → q.proposed = [])
    (hdisplay : q.kind = .display → as = []) :
    ∃ p', create images (some (as.map (·.name))) k q = .ok p' ∧ p'.Presents k q ∧
      p'.chosen = .ok as := by
  suffices hp : ∃ p', create images (some (as.map (·.name))) k q = .ok p' ∧
      p'.chosen = .ok as by
    obtain ⟨p', hp', hc'⟩ := hp
    exact ⟨p', hp', presents_create hp', hc'⟩
  cases hk : q.kind with
  | one =>
    obtain ⟨i, a, ha, rfl⟩ := exists_place_of_chosen h hk hc
    have hpre : ((blank images k q).setCurrent images i).Presents k q := presents_blank.setCurrent i
    refine ⟨(blank images k q).setCurrent images i, ?_, ?_⟩
    · simp only [create, List.map_singleton, presets, placesOf_singleton hn ha, hk]
      rfl
    · have hi : i < (blank images k q).rows.length := by
        rw [rows_blank, List.length_map]
        exact (List.getElem?_eq_some_iff.mp ha).1
      have ht : ((blank images k q).setCurrent images i).takesOne = true := by
        simp [takesOne_of_presents hpre, hk]
      rw [chosen, if_pos ht, currentAnswer?, current_setCurrent hi, Option.bind_some,
        rows_setCurrent, rows_blank, List.getElem?_map, ha]
      rfl
  | many =>
    refine ⟨(blank images k q).choose images .many (placesOf q (as.map (·.name))), ?_, ?_⟩
    · cases as with
      | nil =>
        simp only [create, List.map_nil, presets, proposedPlaces_of_proposed_eq_nil (hmany hk rfl),
          placesOf_nil, hk]
        rfl
      | cons a as =>
        simp only [create, List.map_cons, presets, hk]
        rfl
    · rw [chosen_choose_many hk, filter_placesOf,
        filter_contains_of_sublist _ (sublist_of_chosen h (by simp [hk]) hc) hn]
  | display =>
    have has := hdisplay hk
    subst has
    refine ⟨blank images k q, ?_, ?_⟩
    · simp only [create, List.map_nil, presets, proposedPlaces, hk]
      rfl
    · rw [chosen_of_kind_ne_one presents_blank (by simp [hk]), rows_blank]
      simp [List.filter_map, Row.isChecked]

/-- Where a page leads depends on what it was asked and what is chosen on it. -/
theorem depart_congr {p' : QuestionPage} (ha : p'.asked = p.asked) (hc : p'.chosen = p.chosen) :
    p'.depart = p.depart := by
  simp only [depart, ha, hc]

end QuestionPage

variable {setup : Setup} {d e : Dialog}

/-! ## What can be repeated -/

/-- The question that a page was last asked. -/
def asked? (d : Dialog) : Page → Option Question
  | .question k => (d.pages.get? k).bind fun p =>
    match p.asked with
    | .question _ q => some q
    | _ => none
  | _ => none

/-- That the questions on the pages in the stack are told apart by their descriptions, and the
answers to each by their names. -/
structure Distinct (d : Dialog) : Prop where
  descriptions : ((d.stack.pages.filterMap d.asked?).map (·.description)).Nodup
  names : ∀ P ∈ d.stack.pages, ∀ q ∈ d.asked? P, (q.answers.map (·.name)).Nodup

instance (d : Dialog) : Decidable (Distinct d) :=
  decidable_of_iff
    (((d.stack.pages.filterMap d.asked?).map (·.description)).Nodup ∧
      ∀ P ∈ d.stack.pages, ∀ q ∈ d.asked? P, (q.answers.map (·.name)).Nodup)
    ⟨fun h => ⟨h.1, h.2⟩, fun h => ⟨h.1, h.2⟩⟩

/-- That the names of the answers chosen on the pages in the stack are enough to choose them
again. -/
structure Repeatable (d : Dialog) : Prop extends Distinct d where
  /-- where nothing is chosen, nothing is proposed -/
  proposed : ∀ P ∈ d.stack.pages, ∀ q ∈ d.asked? P,
    q.kind = .many → d.held P = [] → q.proposed = []
  /-- nothing is chosen where the answers are only shown -/
  display : ∀ P ∈ d.stack.pages, ∀ q ∈ d.asked? P, q.kind = .display → d.held P = []

theorem asked?_of_presents {k : String} {p : QuestionPage} {q : Question}
    (hp : d.pages.get? k = some p) (h : p.Presents k q) : d.asked? (.question k) = some q := by
  simp only [asked?, hp, Option.bind_some, h.asked_eq]

/-! ## Collecting the answers -/

/-- Answers that are collected from a page are entered under the description of its question. -/
theorem collectChosen_of_question {k : String} {p : QuestionPage} {Ps : List Page}
    {t t' : Table String (List String)} (hp : d.pages.get? k = some p)
    (h : collectChosen d t (.question k :: Ps) = .ok t') :
    ∃ as q, p.chosen = .ok as ∧ d.asked? (.question k) = some q ∧
      collectChosen d (t.insert q.description (as.map (·.name))) Ps = .ok t' := by
  simp only [collectChosen, hp, chosenOn] at h
  cases hc : p.chosen with
  | error f => rw [hc] at h; cases h
  | ok as =>
    cases ha : p.asked with
    | question k' q =>
      simp only [hc, QuestionPage.description?, ha] at h
      exact ⟨as, q, rfl, by simp only [asked?, hp, Option.bind_some, ha], h⟩
    | _ =>
      simp only [hc, QuestionPage.description?, ha] at h
      cases h

/-- Collecting answers leaves those to questions that are not on the pages. -/
theorem get?_collectChosen_of_notMem {s : String} {Ps : List Page}
    {t t' : Table String (List String)} (h : collectChosen d t Ps = .ok t')
    (hs : s ∉ (Ps.filterMap d.asked?).map (·.description)) : t'.get? s = t.get? s := by
  induction Ps generalizing t with
  | nil =>
    cases h
    rfl
  | cons P Ps ih =>
    cases P with
    | question k =>
      cases hp : d.pages.get? k with
      | none =>
        have hq : d.asked? (.question k) = none := by simp only [asked?, hp, Option.bind_none]
        simp only [collectChosen, hp] at h
        rw [List.filterMap_cons_none hq] at hs
        exact ih h hs
      | some p =>
        obtain ⟨as, q, -, hq, h⟩ := collectChosen_of_question hp h
        rw [List.filterMap_cons_some hq, List.map_cons, List.mem_cons, not_or] at hs
        rw [ih h hs.2, Table.get?_insert, if_neg (Ne.symm hs.1)]
    | _ => exact ih h hs

/-- The answers collected from pages with different questions are, for each question, those that
are chosen on its page. -/
theorem get?_collectChosen {k : String} {p : QuestionPage} {q : Question} {Ps : List Page}
    {t t' : Table String (List String)} (h : collectChosen d t Ps = .ok t')
    (hn : ((Ps.filterMap d.asked?).map (·.description)).Nodup) (hk : Page.question k ∈ Ps)
    (hp : d.pages.get? k = some p) (hq : d.asked? (.question k) = some q) :
    ∃ as, p.chosen = .ok as ∧ t'.get? q.description = some (as.map (·.name)) := by
  induction Ps generalizing t with
  | nil => cases hk
  | cons P Ps ih =>
    have hn' : ((Ps.filterMap d.asked?).map (·.description)).Nodup :=
      hn.sublist (((List.sublist_cons_self P Ps).filterMap _).map _)
    rcases List.mem_cons.mp hk with rfl | hmem
    · obtain ⟨as, q', hc, hq', h⟩ := collectChosen_of_question hp h
      cases hq.symm.trans hq'
      rw [List.filterMap_cons_some hq, List.map_cons, List.nodup_cons] at hn
      refine ⟨as, hc, ?_⟩
      rw [get?_collectChosen_of_notMem h hn.1, Table.get?_insert, if_pos rfl]
    · cases P with
      | question k' =>
        cases hp' : d.pages.get? k' with
        | none =>
          simp only [collectChosen, hp'] at h
          exact ih h hn' hmem
        | some p' =>
          obtain ⟨_, _, -, -, h⟩ := collectChosen_of_question hp' h
          exact ih h hn' hmem
      | _ => exact ih h hn' hmem

/-! ## Following a dialog -/

/-- That a page of one dialog is as a page of another: it shows the same, and on it the same
answers are chosen. -/
inductive Matches (d e : Dialog) : Page → Page → Prop
  | question {k : String} {p p' : QuestionPage} {q : Question} (hp : d.pages.get? k = some p)
    (hp' : e.pages.get? k = some p') (h : p.Presents k q) (h' : p'.Presents k q)
    (hc : p'.chosen = p.chosen) : Matches d e (.question k) (.question k)
  | requirement (p : RequirementPage) : Matches d e (.requirement p) (.requirement p)
  | complete (p p' : CompletePage) : Matches d e (.complete p) (.complete p')

namespace Matches

variable {P P' : Page}

/-- Pages that match lead to the same node. -/
theorem exit? (h : Matches d e P P') : e.exit? P' = d.exit? P := by
  cases h with
  | question hp hp' h h' hc =>
    have hdepart := QuestionPage.depart_congr (h'.asked_eq.trans h.asked_eq.symm) hc
    simp only [Dialog.exit?, hp, hp', Option.bind_some, hdepart]
  | requirement p => rfl
  | complete p p' => rfl

theorem isDeadEnd (h : Matches d e P P') : P'.isDeadEnd = false := by
  cases h <;> rfl

theorem eq_question {k : String} (h : Matches d e P (.question k)) : P = .question k := by
  cases h
  rfl

/-- A page of a question still matches if the dialog has the same page for it. -/
theorem congr {e' : Dialog} (h : Matches d e P P')
    (hp : ∀ k p, P' = .question k → e.pages.get? k = some p → e'.pages.get? k = some p) :
    Matches d e' P P' := by
  cases h with
  | question hd he h h' hc => exact .question hd (hp _ _ rfl he) h h' hc
  | requirement p => exact .requirement p
  | complete p p' => exact .complete p p'

/-- A page still matches when it gets the focus. -/
theorem update (h : Matches d e P P') : Matches d e.update P P' := by
  cases h with
  | @question k p p' q hp hp' h h' hc =>
    by_cases ht : e.top? = some (.question k)
    · have hfocus : e.update.pages.get? k = some p'.focus := by
        rw [get?_update, if_pos ht, hp', Option.map_some]
      exact .question hp hfocus h h'.focus hc
    · have hsame : e.update.pages.get? k = some p' := by rw [get?_update, if_neg ht, hp']
      exact .question hp hsame h h' hc
  | requirement p => exact .requirement p
  | complete p p' => exact .complete p p'

end Matches

/-- Pages that match have the same answers to collect. -/
theorem collectChosen_of_matches {Ps Ps' : List Page} (h : List.Forall₂ (Matches d e) Ps Ps')
    (t : Table String (List String)) : collectChosen e t Ps' = collectChosen d t Ps := by
  induction h generalizing t with
  | nil => rfl
  | cons hP hPs ih =>
    cases hP with
    | question hp hp' h h' hc =>
      simp only [collectChosen, hp, hp', chosenOn, QuestionPage.description?, hc, h.asked_eq,
        h'.asked_eq, ih]
    | requirement p => exact ih t
    | complete p p' => exact ih t

theorem question_mem_of_matches {Ps Ps' : List Page} (h : List.Forall₂ (Matches d e) Ps Ps')
    {k : String} (hk : Page.question k ∈ Ps') : Page.question k ∈ Ps := by
  induction h with
  | nil => exact hk
  | cons hP hPs ih =>
    rcases List.mem_cons.mp hk with rfl | hk
    · rw [hP.eq_question]
      exact List.mem_cons_self
    · exact List.mem_cons_of_mem _ (ih hk)

/-- That a dialog has come along the way of another as far as its first pages. -/
structure Follows (d e : Dialog) (n : Nat) : Prop where
  /-- the pages are as the first pages of the other -/
  pages : List.Forall₂ (Matches d e) (d.stack.pages.take n) e.stack.pages
  /-- the last of them is current -/
  current : 0 < n → e.stack.current = some (n - 1)
  /-- no other questions have pages -/
  known : ∀ k p, e.pages.get? k = some p → Page.question k ∈ e.stack.pages
  nextEnabled : e.nextEnabled = true
  verdict : e.verdict = none

theorem Follows.congr {e' : Dialog} {n : Nat} (h : Follows d e n) (hs : SameScreen e e')
    (hv : e'.verdict = e.verdict) : Follows d e' n where
  pages := by
    rw [hs.stack]
    refine h.pages.imp fun P P' hP => hP.congr fun k p _ hp => ?_
    rw [hs.pages, hp]
  current := by rw [hs.stack]; exact h.current
  known := by rw [hs.stack, hs.pages]; exact h.known
  nextEnabled := hs.nextEnabled.trans h.nextEnabled
  verdict := hv.trans h.verdict

/-- A dialog that has shown nothing follows every other. -/
theorem follows_blank (d : Dialog) (g : Guess) : Follows d (blank g) 0 where
  pages := .nil
  current := fun h => absurd h (Nat.lt_irrefl 0)
  known := by
    intro k p hp
    cases hp
  nextEnabled := rfl
  verdict := rfl

/-- The key of what is to be shown next is not known to a dialog that follows. -/
theorem Follows.get?_eq_none {n : Nat} {s : Stop} {k : String} (h : Follows d e n)
    (hd : Coherent setup d) (hn : n < d.stack.pages.length) (hs : due? setup d n = some s)
    (hk : s.key? = some k) : e.pages.get? k = none := by
  cases hp : e.pages.get? k with
  | none => rfl
  | some p =>
    have hmem := question_mem_of_matches h.pages (h.known k p hp)
    exact absurd hmem (hd.fresh n s k hn hs hk)

theorem Follows.length_pages {n : Nat} (h : Follows d e n) (hn : n ≤ d.stack.pages.length) :
    e.stack.pages.length = n := by
  rw [← h.pages.length_eq, List.length_take, Nat.min_eq_left hn]

/-- The current page of a dialog that follows matches the last page that it has reached. -/
theorem Follows.exists_top {n : Nat} (h : Follows d e (n + 1)) (hn : n < d.stack.pages.length) :
    ∃ P P', d.stack.pages[n]? = some P ∧ e.top? = some P' ∧ Matches d e P P' := by
  have hl := h.length_pages hn
  have htake : n < (d.stack.pages.take (n + 1)).length := by
    rw [List.length_take]
    omega
  have hm := h.pages.get htake (by omega)
  refine ⟨d.stack.pages[n], e.stack.pages[n], List.getElem?_eq_getElem hn, ?_, ?_⟩
  · rw [top?, Stack.top?, h.current (Nat.succ_pos n), Option.bind_some, Nat.add_sub_cancel,
      List.getElem?_eq_getElem (by omega)]
  · simpa using hm

/-! ## Going on -/

section Repeated

variable {a : Table String (List String)} (hd : Coherent setup d) (hr : Repeatable d)
  (ha : d.chosenAnswers = .ok a) (hlive : ∀ P ∈ d.stack.pages, P.isDeadEnd = false)

/-- What the dialog is opened with when it is opened again, with some answers remembered. -/
def Setup.remembering (setup : Setup) (a : Table String (List String)) : Setup :=
  { setup with remembered := a }

include hr ha hlive in
/-- A new page for what a page shows matches that page. -/
theorem exists_makePage {P : Page} {s : Stop} (hP : P ∈ d.stack.pages) (hs : Shows setup d P s)
    (e : Dialog) :
    ∃ P' e', makePage (setup.remembering a) e s = .ok (P', e') ∧ Matches d e' P P' := by
  cases P with
  | question k =>
    obtain ⟨p, q, hp, rfl, hpre⟩ := hs
    have hq : d.asked? (.question k) = some q := asked?_of_presents hp hpre
    obtain ⟨as, hc, hget⟩ := get?_collectChosen ha hr.descriptions hP hp hq
    have hheld : d.held (.question k) = as := by
      simp only [held, hp, Option.bind_some, hc, Except.toOption, Option.getD_some]
    obtain ⟨p', hp', hpre', hc'⟩ := QuestionPage.exists_create_of_chosen setup.images
      hpre (hr.names _ hP q hq) hc
      (fun hk has => hr.proposed _ hP q hq hk (hheld.trans has))
      (fun hk => hheld.symm.trans (hr.display _ hP q hq hk))
    refine ⟨.question k, e.setPage k p', ?_, ?_⟩
    · simp only [makePage, Setup.remembering, hget, hp']
      rfl
    · exact .question hp (by simp) hpre hpre' (hc'.trans hc.symm)
  | requirement p =>
    obtain ⟨k, r, next, rfl, hp⟩ := hs
    refine ⟨.requirement p, e, ?_, .requirement p⟩
    simp only [makePage, Setup.remembering, hp]
    rfl
  | complete p =>
    obtain ⟨k, o, next, row, rfl, -⟩ := hs
    exact ⟨_, e, rfl, .complete p _⟩
  | cancelled m => cases hlive _ hP
  | failed m => cases hlive _ hP

/-- A page upon the others brings a dialog one step further along the way. -/
theorem Follows.push {n : Nat} {s : Stop} {P P' : Page} {e' : Dialog} (h : Follows d e n)
    (hd : Coherent setup d) (hP : d.stack.pages[n]? = some P) (hs : due? setup d n = some s)
    (hmake : makePage (setup.remembering a) e s = .ok (P', e')) (hm : Matches d e' P P')
    {stack : Stack} (hpages : stack.pages = e.stack.pages ++ [P'])
    (hcurrent : stack.current = some n) :
    Follows d { e' with stack := stack }.update (n + 1) := by
  have hn : n < d.stack.pages.length := (List.getElem?_eq_some_iff.mp hP).1
  obtain ⟨-, hverdict, hshows, hframe⟩ := shows_makePage hmake
  have htop : { e' with stack := stack }.top? = some P' := by
    rw [top?, Stack.top?, hcurrent, Option.bind_some, hpages,
      List.getElem?_append_right (Nat.le_of_eq (h.length_pages (Nat.le_of_lt hn))),
      h.length_pages (Nat.le_of_lt hn), Nat.sub_self]
    rfl
  have hkeep : ∀ k, P' ≠ .question k →
      { e' with stack := stack }.update.pages.get? k = e.pages.get? k := by
    intro k hk
    rw [get?_update, htop, if_neg (fun he => hk (Option.some.inj he))]
    exact hframe k hk
  have hold : ∀ k p, e.pages.get? k = some p → P' ≠ .question k := by
    rintro k p hp rfl
    rw [h.get?_eq_none hd hn hs hshows.key?] at hp
    cases hp
  have hmatch : Matches d { e' with stack := stack } P P' := hm.congr fun k p _ hp => hp
  refine ⟨?_, ?_, ?_, ?_, ?_⟩
  · rw [stack_update, hpages, List.take_add_one, hP]
    refine List.rel_append (h.pages.imp fun Q Q' hQ => ?_) (.cons hmatch.update .nil)
    exact hQ.congr fun k p _ hp => (hkeep k (hold k p hp)).trans hp
  · intro _
    rw [stack_update]
    exact hcurrent
  · intro k p hp
    rw [stack_update, hpages]
    by_cases hk : P' = .question k
    · rw [hk]
      exact List.mem_append_right _ List.mem_cons_self
    · rw [hkeep k hk] at hp
      exact List.mem_append_left _ (h.known k p hp)
  · rw [nextEnabled_update htop, hm.isDeadEnd]
    rfl
  · rw [verdict_update]
    exact hverdict.trans h.verdict

include ha in
/-- From the page at the end, going on accepts the dialog, with the same answers. -/
theorem Follows.accept {n : Nat} {p : CompletePage} (h : Follows d e (n + 1))
    (hn : d.stack.pages.length = n + 1) (hp : d.stack.pages[n]? = some (.complete p)) :
    (e.act (setup.remembering a) .next).1.verdict = some .accepted ∧
      (e.act (setup.remembering a) .next).1.chosenAnswers = .ok a := by
  obtain ⟨P, P', hP, htop, hm⟩ := h.exists_top (by omega)
  cases hP.symm.trans hp
  cases hm with
  | complete p p' =>
    rw [act, if_pos h.nextEnabled, Dialog.next, htop]
    refine ⟨rfl, ?_⟩
    have hpages := h.pages
    rw [List.take_of_length_le (Nat.le_of_eq hn)] at hpages
    rw [← ha, chosenAnswers, chosenAnswers]
    exact collectChosen_of_matches (hpages.imp fun Q Q' hQ => hQ.congr fun k p _ hp => hp) ∅

include hd hr ha hlive

/-- The dialog is opened again on its first page. -/
theorem exists_start (g : Guess) :
    ∃ e, start (setup.remembering a) (blank g) = (e, none) ∧ Follows d e 1 := by
  obtain ⟨P, hP⟩ : ∃ P, d.stack.pages[0]? = some P :=
    ⟨_, List.getElem?_eq_getElem (List.length_pos_iff.mpr hd.ne_nil)⟩
  obtain ⟨s, hs, hsh⟩ := hd.shown 0 P hP
  obtain ⟨P', e', hmake, hm⟩ :=
    exists_makePage hr ha hlive (List.mem_of_getElem? hP) hsh (blank g)
  have hstack : e'.stack = .empty := (shows_makePage hmake).1
  have hrun := run_of_stopFrom?_eq_some hs
  have h : Follows d { e' with stack := ⟨[P'], some 0⟩ }.update 1 :=
    (follows_blank d g).push hd hP hs hmake hm rfl rfl
  refine ⟨_, ?_, h⟩
  simp only [start, Setup.remembering] at hmake ⊢
  rw [hrun]
  simp only [hmake, hstack, Stack.add_empty]

/-- Going on brings the dialog to the next page. -/
theorem Follows.next {n : Nat} (h : Follows d e (n + 1)) (hn : n + 1 < d.stack.pages.length) :
    ∃ e', e.act (setup.remembering a) .next = (e', none) ∧ Follows d e' (n + 2) := by
  obtain ⟨Q, Q', hQ, htop, hmQ⟩ := h.exists_top (Nat.lt_of_succ_lt hn)
  obtain ⟨P, hP⟩ : ∃ P, d.stack.pages[n + 1]? = some P := ⟨_, List.getElem?_eq_getElem hn⟩
  obtain ⟨s, hs, hsh⟩ := hd.shown (n + 1) P hP
  have hafter : e.stopAfter? (setup.remembering a) = some s := by
    rw [due?, source?, hQ, Option.bind_some, ← hmQ.exit?] at hs
    rw [stopAfter?, htop, Option.bind_some]
    exact hs
  obtain ⟨e₁, hsame, hverdict, hnext⟩ := next_of_stopAfter?_eq_some hafter
  have h₁ := h.congr hsame hverdict
  obtain ⟨P', e', hmake, hm⟩ := exists_makePage hr ha hlive (List.mem_of_getElem? hP) hsh e₁
  have hunknown : e₁.knownPage? s = none := by
    unfold knownPage?
    cases hk : s.key? with
    | none => rfl
    | some k => rw [Option.bind_some, h₁.get?_eq_none hd hn hs hk, Option.map_none]
  obtain ⟨hstack, -, hshows, -⟩ := shows_makePage hmake
  have hpush : (e₁.stack.push P').pages = e₁.stack.pages ++ [P'] := by
    refine Stack.pages_push_of_notMem ?_
    rintro k rfl hmem
    exact hd.fresh _ s k hn hs hshows.key? (question_mem_of_matches h₁.pages hmem)
  have hcurrent : (e₁.stack.push P').current = some (n + 1) := by
    rw [Stack.current_push, hpush, List.length_append, h₁.length_pages (Nat.le_of_lt hn)]
    rfl
  refine ⟨_, ?_, h₁.push hd hP hs hmake hm hpush hcurrent⟩
  rw [act, if_pos h.nextEnabled, hnext, showStop]
  simp only [hunknown, hmake, hstack]

/-- Going on again and again accepts the dialog once all its pages were shown. -/
theorem Follows.play {l n : Nat} {p : CompletePage} (h : Follows d e (n + 1)) (hn : n ≤ l)
    (hl : d.stack.pages.length = l + 1) (hp : d.stack.pages[l]? = some (.complete p)) (m : Nat) :
    (play (setup.remembering a) e (List.replicate m (.act .next))).2.verdict =
        (if l < n + m then some .accepted else none) ∧
      (l < n + m →
        (play (setup.remembering a) e (List.replicate m (.act .next))).2.chosenAnswers =
          .ok a) := by
  induction m generalizing e n with
  | zero =>
    rw [List.replicate_zero, play_nil, if_neg (by omega)]
    exact ⟨h.verdict, fun hlt => absurd hlt (by omega)⟩
  | succ m ih =>
    rw [List.replicate_succ, play_cons_of_verdict_eq_none h.verdict, happen_act]
    rcases Nat.lt_or_eq_of_le hn with hlt | rfl
    · obtain ⟨e', hact, h'⟩ := h.next hd hr ha hlive (by omega)
      rw [hact, show n + (m + 1) = n + 1 + m by omega]
      exact ih h' hlt
    · obtain ⟨hverdict, hchosen⟩ := h.accept ha hl hp
      rw [play_of_verdict_ne_none (by rw [hverdict]; exact Option.some_ne_none _),
        if_pos (by omega)]
      exact ⟨hverdict, fun _ => hchosen⟩

end Repeated

/-- There is a way on from every page of a coherent stack with the page at the end upon it. -/
theorem Coherent.isDeadEnd_eq_false {n : Nat} {p : CompletePage} (hd : Coherent setup d)
    (hn : d.stack.pages.length = n + 1) (hp : d.stack.pages[n]? = some (.complete p)) :
    ∀ P ∈ d.stack.pages, P.isDeadEnd = false := by
  intro P hP
  obtain ⟨i, hi⟩ := List.mem_iff_getElem?.mp hP
  have hlt : i < n + 1 := hn ▸ (List.getElem?_eq_some_iff.mp hi).1
  rcases Nat.lt_or_eq_of_le (Nat.le_of_lt_succ hlt) with hlt | rfl
  · -- the page above has something to show, so this one leads somewhere
    obtain ⟨Q, hQ⟩ : ∃ Q, d.stack.pages[i + 1]? = some Q :=
      ⟨_, List.getElem?_eq_getElem (by omega)⟩
    obtain ⟨s, hs, -⟩ := hd.shown (i + 1) Q hQ
    rw [due?, source?, hi, Option.bind_some] at hs
    cases P with
    | cancelled m => cases hs
    | failed m => cases hs
    | _ => rfl
  · cases hi.symm.trans hp
    rfl

/-- The dialog of an accepted session is on the page at the end. -/
theorem sound_of_accepted {g : Guess} {es : List Event}
    (h : (exec setup g es).verdict = .ok .accepted) :
    Sound (exec setup g es).dialog ∧ ∃ p, (exec setup g es).dialog.top? = some (.complete p) := by
  obtain ⟨d, hstart, hv⟩ := verdict_exec_eq_accepted_iff.mp h
  obtain ⟨hs, hc⟩ := (always_sound hstart es).last
  rw [exec_of_start hstart]
  exact ⟨hs, hc hv⟩

/-- A session in which no stop is brought to a page in the stack ends with a coherent stack. -/
theorem coherent_exec {g : Guess} {es : List Event} (h : (start setup (blank g)).2 = none)
    (hanew : Along setup (ShowsAnew setup) (start setup (blank g)).1 es)
    (hung : Along setup (fun d e => ¬ Garbles setup d e) (start setup (blank g)).1 es) :
    Coherent setup (exec setup g es).dialog := by
  have hstart : start setup (blank g) = ((start setup (blank g)).1, none) := Prod.ext rfl h
  have halways := (always_coherent_iff_of_coherent (sound_start hstart) (coherent_start hstart)
    hanew).mpr hung
  rw [exec, hstart]
  exact halways.last

/-- A dialog that was accepted is accepted again, with the same answers, if it is opened with
these remembered and the user goes on as often as there are pages; and it is not before. -/
theorem exec_remembering {a : Table String (List String)} (hd : Coherent setup d) (hs : Sound d)
    (hc : ∃ p, d.top? = some (.complete p)) (hr : Repeatable d) (ha : d.chosenAnswers = .ok a)
    (g : Guess) (m : Nat) :
    (exec (setup.remembering a) g (List.replicate m (.act .next))).verdict =
        .ok (if d.stack.pages.length ≤ m then .accepted else .rejected) ∧
      (d.stack.pages.length ≤ m →
        (exec (setup.remembering a) g (List.replicate m (.act .next))).dialog.chosenAnswers =
          .ok a) := by
  obtain ⟨p, hp⟩ := hc
  obtain ⟨l, P, hl, hP, htop⟩ := hs.exists_top
  cases hp.symm.trans htop
  have hlive := hd.isDeadEnd_eq_false hl hP
  obtain ⟨e, hstart, h⟩ := exists_start hd hr ha hlive g
  obtain ⟨hverdict, hchosen⟩ := h.play hd hr ha hlive (Nat.zero_le l) hl hP m
  rw [Nat.zero_add] at hverdict hchosen
  simp only [exec, hstart, hverdict, hl]
  refine ⟨?_, hchosen⟩
  by_cases hm : l < m
  · rw [if_pos hm, if_pos (Nat.succ_le_of_lt hm)]
    rfl
  · rw [if_neg hm, if_neg (by omega)]
    rfl

end ModWizard.Dialog
