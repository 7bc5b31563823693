import ModWizard.Proofs.Dialog.Repeat
import ModWizard.Proofs.Dialog.Requirement

/-!
# Answers chosen at first

When the page of a question is made, answers may be chosen on it: those whose names are remembered,
or those that the script proposes.  If names are remembered, the proposals are not looked at, even
if no answer has one of the names (`create_of_stale`).  Then the page opens with nothing chosen, and
that is how it would open without remembered names only if the script proposes nothing
(`create_none_eq_iff`).
-/

namespace ModWizard

/-- That the answer at a place has one of some names. -/
def Question.Named (q : Question) (names : List String) (i : Nat) : Prop :=
  ∃ a, q.answers[i]? = some a ∧ a.name ∈ names

/-- That the script proposes the answer at a place. -/
def Question.Proposed (q : Question) (i : Nat) : Prop := ∃ n ∈ q.proposed, q.place? n = some i

/-- That the script proposes nothing but what a page shows anyway: no answer to be checked, or none
but the first to be current. -/
def Question.ProposesNothing (q : Question) : Prop :=
  match q.kind with
  | .many => q.proposed = []
  | .one => ∀ n ∈ q.proposed, q.place? n = some 0
  | .display => True

theorem Question.lt_of_place? {q : Question} {n : Int} {i : Nat} (h : q.place? n = some i) :
    i < q.answers.length := by
  simp only [place?] at h
  split at h <;> grind

/-- All values are there if each of them is. -/
theorem mapM_eq_some_iff {α β : Type} {f : α → Option β} {l : List α} {bs : List β} :
    l.mapM f = some bs ↔ l.map f = bs.map some := by
  induction l generalizing bs with
  | nil => cases bs <;> simp
  | cons a l ih =>
    rw [List.mapM_cons]
    cases ha : f a with
    | none => cases bs <;> simp [ha]
    | some b =>
      cases bs with
      | nil => simp [Option.bind_eq_some_iff]
      | cons c bs =>
        simp only [Option.pure_def, Option.bind_eq_bind, Option.bind_some, Option.bind_eq_some_iff,
          Option.some.injEq, List.cons.injEq, List.map_cons, ha, ← ih]
        constructor
        · rintro ⟨_, hbs, hb, rfl⟩
          exact ⟨hb, hbs⟩
        · rintro ⟨hb, hbs⟩
          exact ⟨bs, hbs, hb, rfl⟩

theorem mapM_eq_none_iff {α β : Type} {f : α → Option β} {l : List α} :
    l.mapM f = none ↔ ∃ a ∈ l, f a = none := by
  induction l with
  | nil => simp
  | cons a l ih =>
    rw [List.mapM_cons, List.exists_mem_cons_iff, ← ih]
    cases f a with
    | none => simp
    | some b => cases l.mapM f <;> simp

namespace Dialog

namespace QuestionPage

variable {images : Images} {p : QuestionPage} {k : String} {q : Question} {names : List String}
  {places : List Nat}

/-! ### Places of proposals -/

/-- That places are those of the proposals, in order, and that each proposal has its place. -/
structure ArePlaces (q : Question) (places : List Nat) : Prop where
  sorted : places.Pairwise (· < ·)
  mem_iff : ∀ i, i ∈ places ↔ q.Proposed i
  placed : ∀ n ∈ q.proposed, ∃ i, q.place? n = some i

theorem ArePlaces.lt (h : ArePlaces q places) : ∀ i ∈ places, i < q.answers.length := by
  intro i hi
  obtain ⟨_, -, hi⟩ := (h.mem_iff i).mp hi
  exact Question.lt_of_place? hi

theorem ArePlaces.eq_nil_iff (h : ArePlaces q places) : places = [] ↔ q.proposed = [] := by
  simp only [List.eq_nil_iff_forall_not_mem, h.mem_iff]
  constructor
  · intro hnone n hn
    obtain ⟨i, hi⟩ := h.placed n hn
    exact hnone i ⟨n, hn, hi⟩
  · rintro hnone i ⟨n, hn, -⟩
    exact hnone n hn

theorem ArePlaces.forall_eq_iff (h : ArePlaces q places) (j : Nat) :
    (∀ i ∈ places, i = j) ↔ ∀ n ∈ q.proposed, q.place? n = some j := by
  simp only [h.mem_iff]
  constructor
  · intro hall n hn
    obtain ⟨i, hi⟩ := h.placed n hn
    rw [hi, hall i ⟨n, hn, hi⟩]
  · rintro hall i ⟨n, hn, hi⟩
    exact Option.some.inj (hi.symm.trans (hall n hn))

theorem arePlaces_of_proposals? {ps : List Nat} (h : q.proposals? = some ps) :
    ArePlaces q ((List.range q.answers.length).filter ps.contains) := by
  have hmap : q.proposed.map q.place? = ps.map some := mapM_eq_some_iff.mp h
  refine ⟨List.pairwise_lt_range.filter _, fun i => ?_, fun n hn => ?_⟩
  · have hmem : i ∈ ps ↔ q.Proposed i := by
      rw [Question.Proposed, ← List.mem_map, hmap]
      simp
    rw [List.mem_filter, List.mem_range, List.contains_iff_mem, hmem, and_iff_right_iff_imp]
    rintro ⟨_, -, hi⟩
    exact Question.lt_of_place? hi
  · have hn := List.mem_map_of_mem (f := q.place?) hn
    rw [hmap, List.mem_map] at hn
    obtain ⟨i, -, hi⟩ := hn
    exact ⟨i, hi.symm⟩

/-- The places of the proposals are looked up, unless a proposal has none. -/
theorem proposedPlaces_cases (hk : q.kind ≠ .display) :
    (∃ places, proposedPlaces q = .ok places ∧ ArePlaces q places) ∨
    (proposedPlaces q = .error .noProposedAnswer ∧ ∃ n ∈ q.proposed, q.place? n = none) := by
  unfold proposedPlaces
  split
  next hd => exact absurd hd hk
  next =>
    split
    next ps hps => exact .inl ⟨_, rfl, arePlaces_of_proposals? hps⟩
    next hnone => exact .inr ⟨rfl, mapM_eq_none_iff.mp hnone⟩

/-! ### Chosen places -/

/-- That on the page of a question the answers at some places are chosen: exactly these are checked
if the question takes any number of answers, one of them is current if it takes one. -/
def Chooses (q : Question) (P : Nat → Prop) (p : QuestionPage) : Prop :=
  match q.kind with
  | .many => ∀ i r, p.rows[i]? = some r → (r.checked = some true ↔ P i)
  | .one => ∃ i, p.current = some i ∧ P i
  | .display => True

theorem rows_choose_many (places : List Nat) :
    ((blank images k q).choose images .many places).rows =
      q.answers.zipIdx.map fun x => ⟨x.1, some (places.contains x.2)⟩ := by
  simp only [choose, rows_blank, List.zipIdx_map, List.map_map]
  rfl

theorem getElem?_rows_choose_many (places : List Nat) (i : Nat) :
    ((blank images k q).choose images .many places).rows[i]? =
      q.answers[i]?.map fun a => ⟨a, some (places.contains i)⟩ := by
  rw [rows_choose_many, List.getElem?_map, List.getElem?_zipIdx, Option.map_map, Nat.zero_add]
  rfl

/-- Of rows made current one after the other the last is current. -/
theorem current_foldl_setCurrent (h : ∀ i ∈ places, i < p.rows.length) :
    (places.foldl (setCurrent images) p).current = places.getLast?.or p.current := by
  induction places generalizing p with
  | nil => rfl
  | cons i is ih =>
    rw [List.forall_mem_cons] at h
    rw [List.foldl_cons, ih (by rw [rows_setCurrent]; exact h.2), current_setCurrent h.1,
      List.getLast?_cons]
    cases is.getLast? <;> rfl

theorem length_rows_blank : (blank images k q).rows.length = q.answers.length := by
  rw [rows_blank, List.length_map]

theorem current_blank (h : q.answers ≠ []) : (blank images k q).current = some 0 := by
  simp only [blank, fill, Option.isNone_none, if_true]
  apply current_setCurrent
  simpa using List.length_pos_iff.mpr h

/-- A page on which answers are chosen has them chosen. -/
theorem chooses_choose (hlt : ∀ i ∈ places, i < q.answers.length)
    (hne : q.kind = .one → places ≠ []) :
    Chooses q (· ∈ places) ((blank images k q).choose images q.kind places) := by
  unfold Chooses
  split
  next hk =>
    rw [hk]
    intro i r hr
    rw [getElem?_rows_choose_many, Option.map_eq_some_iff] at hr
    obtain ⟨a, -, rfl⟩ := hr
    simp
  next hk =>
    obtain ⟨is, i, rfl⟩ := (List.eq_nil_or_concat' places).resolve_left (hne hk)
    refine ⟨i, ?_, by simp⟩
    rw [hk, choose, current_foldl_setCurrent (by rwa [length_rows_blank]), List.getLast?_concat]
    rfl
  next => trivial

theorem Chooses.congr {P Q : Nat → Prop} (h : Chooses q P p) (hPQ : ∀ i, P i ↔ Q i) :
    Chooses q Q p := by
  rwa [funext fun i => propext (hPQ i)] at h

/-! ### Pages with nothing chosen -/

/-- Without names of answers that are there nothing is chosen on a page. -/
theorem create_of_stale (hne : names ≠ []) (h : ¬ ∃ i, q.Named names i) :
    create images (some names) k q = .ok ((blank images k q).choose images q.kind []) := by
  obtain ⟨n, ns, rfl⟩ := List.exists_cons_of_ne_nil hne
  have hplaces : placesOf q (n :: ns) = [] :=
    List.eq_nil_iff_forall_not_mem.mpr fun i hi => h ⟨i, mem_placesOf.mp hi⟩
  rw [create, presets, hplaces]
  rfl

/-- The answers of remembered names are chosen, if there are any. -/
theorem create_of_named (hne : names ≠ []) (h : ∃ i, q.Named names i) :
    ∃ p, create images (some names) k q = .ok p ∧ p.Presents k q ∧ Chooses q (q.Named names) p := by
  obtain ⟨n, ns, rfl⟩ := List.exists_cons_of_ne_nil hne
  obtain ⟨i, hi⟩ := h
  refine ⟨_, rfl, presents_blank.choose q.kind _, ?_⟩
  refine (chooses_choose (fun i hi => ?_) fun _ => ?_).congr fun i => mem_placesOf
  · obtain ⟨a, ha, -⟩ := mem_placesOf.mp hi
    exact (List.getElem?_eq_some_iff.mp ha).1
  · exact List.ne_nil_of_mem (mem_placesOf.mpr hi)

theorem choose_many_eq_iff (hlt : ∀ i ∈ places, i < q.answers.length) :
    (blank images k q).choose images .many places = (blank images k q).choose images .many [] ↔
      places = [] := by
  constructor
  · intro h
    refine List.eq_nil_iff_forall_not_mem.mpr fun i hi => ?_
    have hrow := congrArg (fun p => p.rows[i]?) h
    simp [getElem?_rows_choose_many, List.getElem?_eq_getElem (hlt i hi), hi] at hrow
  · rintro rfl
    rfl

/-- The first row, which is current already, may be made current again. -/
theorem foldl_setCurrent_zero (hc : p.current = some 0) (h : ∀ i ∈ places, i = 0) :
    places.foldl (setCurrent images) p = p := by
  induction places with
  | nil => rfl
  | cons i is ih =>
    rw [List.forall_mem_cons] at h
    have hi : p.setCurrent images i = p := by
      unfold setCurrent
      rw [if_pos (by rw [hc, h.1])]
    rw [List.foldl_cons, hi, ih h.2]

theorem choose_one_eq_iff (hlt : ∀ i ∈ places, i < q.answers.length)
    (hsorted : places.Pairwise (· < ·)) :
    (blank images k q).choose images .one places = (blank images k q).choose images .one [] ↔
      ∀ i ∈ places, i = 0 := by
  obtain rfl | ⟨is, j, rfl⟩ := List.eq_nil_or_concat' places
  · simp
  · have hcurrent : (blank images k q).current = some 0 :=
      current_blank (List.ne_nil_of_length_pos (Nat.zero_lt_of_lt (hlt j (by simp))))
    constructor
    · intro h
      -- the last place is current then, and the others are below it
      have hj := congrArg current h
      simp only [choose] at hj
      rw [current_foldl_setCurrent (by rwa [length_rows_blank]), List.getLast?_concat,
        List.foldl_nil,
        hcurrent] at hj
      have hj : j = 0 := Option.some.inj hj
      subst hj
      have hbelow := (List.pairwise_append.mp hsorted).2.2
      intro i hi
      obtain hi | hi := List.mem_append.mp hi
      · exact absurd (hbelow i hi 0 (by simp)) (Nat.not_lt_zero i)
      · exact List.mem_singleton.mp hi
    · intro h
      simp only [choose]
      rw [foldl_setCurrent_zero hcurrent h, List.foldl_nil]

theorem create_none (images : Images) (k : String) (q : Question) :
    create images none k q = (proposedPlaces q).map ((blank images k q).choose images q.kind) := rfl

/-- Without remembered names the answers that the script proposes are chosen, if there is an answer
for each proposal. -/
theorem create_none_cases (images : Images) (k : String) (hk : q.kind ≠ .display) :
    (∃ places, create images none k q = .ok ((blank images k q).choose images q.kind places) ∧
      ArePlaces q places) ∨
    (create images none k q = .error .noProposedAnswer ∧ ∃ n ∈ q.proposed, q.place? n = none) := by
  rw [create_none]
  obtain ⟨places, hplaces, h⟩ | ⟨hplaces, h⟩ := proposedPlaces_cases hk
  · exact .inl ⟨places, by rw [hplaces]; rfl, h⟩
  · exact .inr ⟨by rw [hplaces]; rfl, h⟩

theorem exists_create_none (images : Images) (k : String)
    (hplaced : ∀ n ∈ q.proposed, ∃ i, q.place? n = some i)
    (hone : q.kind = .one → q.proposed ≠ []) :
    ∃ p, create images none k q = .ok p ∧ p.Presents k q ∧ Chooses q q.Proposed p := by
  by_cases hk : q.kind = .display
  · have hplaces : proposedPlaces q = .ok [] := by rw [proposedPlaces, hk]
    refine ⟨_, by rw [create_none, hplaces]; rfl, presents_blank.choose q.kind _, ?_⟩
    rw [Chooses, hk]
    trivial
  · obtain ⟨places, hok, h⟩ | ⟨-, n, hn, hnone⟩ := create_none_cases images k hk
    · exact ⟨_, hok, presents_blank.choose q.kind _,
        (chooses_choose h.lt fun hk => mt h.eq_nil_iff.mp (hone hk)).congr h.mem_iff⟩
    · obtain ⟨i, hi⟩ := hplaced n hn
      cases hnone.symm.trans hi

/-- Without remembered names a page opens with nothing chosen exactly if nothing is proposed. -/
theorem create_none_eq_iff :
    create images none k q = .ok ((blank images k q).choose images q.kind []) ↔
      q.ProposesNothing := by
  unfold Question.ProposesNothing
  split
  next hk =>
    obtain ⟨places, hok, h⟩ | ⟨herror, n, hn, -⟩ :=
      create_none_cases (q := q) images k (by simp [hk])
    · rw [hok, Except.ok.injEq, hk, choose_many_eq_iff h.lt, h.eq_nil_iff]
    · rw [herror]
      exact iff_of_false (by simp) (List.ne_nil_of_mem hn)
  next hk =>
    obtain ⟨places, hok, h⟩ | ⟨herror, n, hn, hnone⟩ :=
      create_none_cases (q := q) images k (by simp [hk])
    · rw [hok, Except.ok.injEq, hk, choose_one_eq_iff h.lt h.sorted, h.forall_eq_iff]
    · rw [herror]
      refine iff_of_false (by simp) fun hall => ?_
      cases hnone.symm.trans (hall n hn)
  next hk =>
    refine iff_of_true ?_ trivial
    rw [create_none, proposedPlaces, hk]
    rfl

/-! ### Remembered names -/

/-- That a page opens as it should where names are remembered: if there are answers of these names,
they are chosen, and if there are none, the page opens as if nothing were remembered. -/
structure Restores (images : Images) (names : List String) (k : String) (q : Question) : Prop where
  named : (∃ i, q.Named names i) →
    ∃ p, create images (some names) k q = .ok p ∧ p.Presents k q ∧ Chooses q (q.Named names) p
  stale : (¬ ∃ i, q.Named names i) → create images (some names) k q = create images none k q

theorem restores_iff (hne : names ≠ []) :
    Restores images names k q ↔ (∃ i, q.Named names i) ∨ q.ProposesNothing := by
  constructor
  · intro h
    by_cases hnamed : ∃ i, q.Named names i
    · exact .inl hnamed
    · exact .inr (create_none_eq_iff.mp ((h.stale hnamed).symm.trans (create_of_stale hne hnamed)))
  · rintro (hnamed | hnothing)
    · exact ⟨create_of_named hne, fun hstale => absurd hnamed hstale⟩
    · exact ⟨create_of_named hne,
        fun hstale => (create_of_stale hne hstale).trans (create_none_eq_iff.mpr hnothing).symm⟩

end QuestionPage

/-! ### Coming to a question -/

open QuestionPage (Chooses Restores)

variable {setup : Setup} {d : Dialog} {k : String} {q : Question} {p : QuestionPage}

theorem topQuestion?_update (h : d.top? = some (.question k)) (hk : d.pages.get? k = some p) :
    d.update.topQuestion? = some (k, p.focus) := by
  unfold topQuestion?
  rw [top?_update, h]
  simp only [get?_update, h, if_true, hk, Option.map_some]

/-- However the script came to a question, if its key has no page yet it is shown on the page that
is made for it. -/
theorem Brings.topQuestion? {x : Result} (h : Brings setup (.question k q) d x)
    (hk : d.pages.get? k = none)
    (hp : QuestionPage.create setup.images (setup.remembered.get? q.description) k q = .ok p) :
    x.2 = none ∧ x.1.topQuestion? = some (k, p.focus) := by
  cases h with
  | opening g h =>
    have hrun := run_of_stopFrom?_eq_some h
    simp only [start, hrun, makePage, hp, Except.map]
    refine ⟨trivial, topQuestion?_update ?_ (by simp)⟩
    rw [top?, stack_setPage, blank, Stack.add_empty]
    rfl
  | going d a h =>
    obtain ⟨d', hd', -, ha⟩ := act_of_comesTo h
    have hk' : d'.pages.get? k = none := by
      rwa [hd'.pages, get?_pressed_eq_none_iff]
    have hknown : d'.knownPage? (.question k q) = none := by
      simp only [knownPage?, Script.Stop.key?, Option.bind_some, hk', Option.map_none]
    rw [ha]
    simp only [showStop, hknown, makePage, hp, Except.map]
    exact ⟨trivial, topQuestion?_update Stack.top?_push (by simp)⟩

namespace Stale

/-- A question with two answers, of which the script proposes the second. -/
def asking (kind : Question.Kind) : Question :=
  ⟨kind, "A", [⟨"x", "of x", none, none⟩, ⟨"y", "of y", none, none⟩], [1], some "e"⟩

/-- A script that asks it, where one name is remembered that is there and one that is not. -/
def recalling : Setup where
  organizer := ⟨.plain 9, "Game", "1.0", "1.0", none, none, [], [], ∅, ∅⟩
  script := ⟨"a", .ofList
    [("a", ⟨"a", .question (asking .many)⟩), ("e", ⟨"e", .done ⟨[], [], [], ∅, ∅⟩ none⟩)]⟩
  packages := []
  images := ∅
  remembered := .ofList [("A", ["gone", "x"])]

/-- What comes of opening the dialog. -/
def opening : Result := start recalling (blank ⟨"Mod", ["Mod"]⟩)

/-- The check marks on the page at first, where the question takes any number of answers. -/
def marks (remembered : Option (List String)) : Option (List (Option Bool)) :=
  (QuestionPage.create ∅ remembered "a" (asking .many)).toOption.map fun p => p.rows.map (·.checked)

/-- The row that is current at first, where the question takes one answer. -/
def row (remembered : Option (List String)) : Option Nat :=
  (QuestionPage.create ∅ remembered "a" (asking .one)).toOption.bind (·.current)

theorem not_named (kind : Question.Kind) : ¬ ∃ i, (asking kind).Named ["gone"] i := by
  rintro ⟨i, a, ha, hname⟩
  obtain rfl | rfl : a = ⟨"x", "of x", none, none⟩ ∨ a = ⟨"y", "of y", none, none⟩ := by
    simpa [asking] using List.mem_of_getElem? ha
  · exact absurd hname (by decide)
  · exact absurd hname (by decide)

end Stale

/-- Where names are remembered, a page opens as it should if and only if there is an answer of these
names or the script proposes nothing.  Without remembered names a page opens with the proposals
chosen.  A dialog that comes to a question for the first time opens the page that is made so. -/
theorem remembered_restored_iff (k : String) (q : Question) :
    (∀ images names, names ≠ [] →
      (Restores images names k q ↔ (∃ i, q.Named names i) ∨ q.ProposesNothing)) ∧
    ((∀ n ∈ q.proposed, ∃ i, q.place? n = some i) → (q.kind = .one → q.proposed ≠ []) → ∀ images,
      ∃ p, QuestionPage.create images none k q = .ok p ∧ p.Presents k q ∧ Chooses q q.Proposed p) ∧
    ∀ setup d x p, Brings setup (.question k q) d x → d.pages.get? k = none →
      QuestionPage.create setup.images (setup.remembered.get? q.description) k q = .ok p →
      x.2 = none ∧ x.1.topQuestion? = some (k, p.focus) :=
  ⟨fun _ _ => QuestionPage.restores_iff,
    fun hplaces hone images => QuestionPage.exists_create_none images k hplaces hone,
    fun _ _ _ _ => Brings.topQuestion?⟩

open Stale in
theorem remembered_restored_partly :
    Restores ∅ ["gone", "x"] "a" (asking .many) ∧
      (∃ p, QuestionPage.create ∅ none "a" (asking .many) = .ok p ∧
        Chooses (asking .many) (asking .many).Proposed p) ∧
      Brings recalling (.question "a" (asking .many)) (blank ⟨"Mod", ["Mod"]⟩) opening ∧
      ∃ p, opening.1.topQuestion? = some ("a", p.focus) ∧
        Chooses (asking .many) ((asking .many).Named ["gone", "x"]) p := by
  obtain ⟨hrestores, hproposed, hopens⟩ := remembered_restored_iff "a" (asking .many)
  have hnamed : ∃ i, (asking .many).Named ["gone", "x"] i :=
    ⟨0, ⟨"x", "of x", none, none⟩, by decide, by decide⟩
  have hrestored : Restores ∅ ["gone", "x"] "a" (asking .many) :=
    (hrestores _ _ (by decide)).mpr (.inl hnamed)
  have hbrings : Brings recalling (.question "a" (asking .many)) (blank ⟨"Mod", ["Mod"]⟩) opening :=
    .opening _ (by decide +kernel)
  obtain ⟨p, hp, -, hchooses⟩ := hrestored.named hnamed
  obtain ⟨p', hp', -, hchooses'⟩ := hproposed
    (by rw [asking, List.forall_mem_singleton]; exact ⟨1, by decide⟩) (by decide) ∅
  have hnames :
      recalling.remembered.get? (asking .many).description = some ["gone", "x"] := by decide
  obtain ⟨-, htop⟩ := hopens _ _ _ p hbrings (Table.get?_empty _) (by rw [hnames]; exact hp)
  exact ⟨hrestored, ⟨p', hp', hchooses'⟩, hbrings, p, htop, hchooses⟩

open Stale in
/-- Where only names are remembered that no answer has, what the script proposes is neither checked
nor current. -/
theorem remembered_not_restored_stale :
    marks (some ["gone"]) = some [some false, some false] ∧
      marks none = some [some false, some true] ∧
      row (some ["gone"]) = some 0 ∧ row none = some 1 ∧
      ¬ Restores ∅ ["gone"] "a" (asking .many) ∧ ¬ Restores ∅ ["gone"] "a" (asking .one) := by
  refine ⟨by decide, by decide, by decide, by decide, fun h => ?_, fun h => ?_⟩
  · have hmarks : marks (some ["gone"]) = marks none := by
      rw [marks, marks, h.stale (not_named .many)]
    exact absurd hmarks (by decide)
  · have hrow : row (some ["gone"]) = row none := by
      rw [row, row, h.stale (not_named .one)]
    exact absurd hrow (by decide)

end Dialog

end ModWizard
