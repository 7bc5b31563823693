import ModWizard.Dialog.Play
import ModWizard.Proofs.Lifting

/-!
# Dialogs that differ in their pictures

The pictures of the archive are only ever looked up to be shown.  If two dialogs are opened with
different pictures and otherwise show the same at the end (`Setup.Likewise`), the same events do the
same to both: at every moment they differ in the pictures on their pages at most, and these stay
related (`act_redrawn` for one action, `exec_redrawn` for a whole session).
-/

namespace ModWizard.Dialog

open Script (Stop)

variable {Q : Picture → Picture → Prop}

/-! ### Pages -/

namespace QuestionPage

variable {images images' : Images} {p p' : QuestionPage}

/-- That a page is another with a related picture. -/
def Redrawn (Q : Picture → Picture → Prop) (p p' : QuestionPage) : Prop :=
  ∃ picture, p' = { p with picture := picture } ∧ Q p.picture picture

theorem Redrawn.picture (h : Redrawn Q p p') : Q p.picture p'.picture := by
  obtain ⟨_, rfl, h⟩ := h
  exact h

theorem Redrawn.depart_eq (h : Redrawn Q p p') : p'.depart = p.depart := by
  obtain ⟨_, rfl, -⟩ := h
  rfl

theorem Redrawn.chosenOn_eq (h : Redrawn Q p p') : chosenOn p' = chosenOn p := by
  obtain ⟨_, rfl, -⟩ := h
  rfl

theorem Redrawn.focus (h : Redrawn Q p p') : Redrawn Q p.focus p'.focus := by
  obtain ⟨picture, rfl, h⟩ := h
  exact ⟨picture, rfl, h⟩

theorem Redrawn.setChecked (h : Redrawn Q p p') (row : Nat) (on : Bool) :
    Redrawn Q (p.setChecked row on) (p'.setChecked row on) := by
  obtain ⟨picture, rfl, h⟩ := h
  exact ⟨picture, rfl, h⟩

section

variable (hQ : ∀ image, Q (.ofImage images image) (.ofImage images' image))

include hQ

theorem Redrawn.setCurrent (h : Redrawn Q p p') (row : Nat) :
    Redrawn Q (p.setCurrent images row) (p'.setCurrent images' row) := by
  obtain ⟨picture, rfl, h⟩ := h
  unfold QuestionPage.setCurrent
  simp only
  split
  · exact ⟨picture, rfl, h⟩
  · cases p.rows[row]? with
    | none => exact ⟨picture, rfl, h⟩
    | some r => exact ⟨_, rfl, hQ _⟩

theorem Redrawn.fill (h : Redrawn Q p p') (q : Question) :
    Redrawn Q (p.fill images q) (p'.fill images' q) := by
  obtain ⟨picture, rfl, h⟩ := h
  unfold QuestionPage.fill
  simp only
  split
  · refine Redrawn.setCurrent hQ ?_ 0
    exact ⟨picture, rfl, h⟩
  · exact ⟨picture, rfl, h⟩

theorem Redrawn.ask (h : Redrawn Q p p') (s : Stop) :
    ∃ a a' f, p.ask images s = (a, f) ∧ p'.ask images' s = (a', f) ∧ Redrawn Q a a' := by
  obtain ⟨picture, rfl, h⟩ := h
  have hasked : Redrawn Q { p with asked := s } { p with asked := s, picture := picture } :=
    ⟨picture, rfl, h⟩
  unfold QuestionPage.ask
  cases s with
  | question k q =>
    simp only
    split
    · exact ⟨_, _, none, rfl, rfl, hasked.fill hQ q⟩
    · exact ⟨_, _, _, rfl, rfl, hasked⟩
  | _ => exact ⟨_, _, _, rfl, rfl, hasked⟩

theorem Redrawn.choose (h : Redrawn Q p p') (kind : Question.Kind) (places : List Nat) :
    Redrawn Q (p.choose images kind places) (p'.choose images' kind places) := by
  cases kind with
  | many =>
    obtain ⟨picture, rfl, h⟩ := h
    exact ⟨picture, rfl, h⟩
  | one =>
    rw [QuestionPage.choose, QuestionPage.choose]
    induction places generalizing p p' with
    | nil => exact h
    | cons row rows ih => exact ih (h.setCurrent hQ row)
  | display => exact h

theorem create_redrawn (hunset : Q .unset .unset) (remembered : Option (List String)) (k : String)
    (q : Question) :
    SameEnd (Redrawn Q) (create images remembered k q) (create images' remembered k q) := by
  unfold create
  refine (SameEnd.of_eq rfl).map fun places _ he => ?_
  subst he
  exact Redrawn.choose hQ (Redrawn.fill hQ ⟨.unset, rfl, hunset⟩ q) q.kind _

end

end QuestionPage

/-! ### Dialogs -/

/-- That a dialog is another with related pictures on its pages. -/
def Redrawn (Q : Picture → Picture → Prop) (d d' : Dialog) : Prop :=
  ∃ pages, d' = { d with pages := pages } ∧
    ∀ k, Option.Rel (QuestionPage.Redrawn Q) (d.pages.get? k) (pages.get? k)

/-- The picture that a dialog shows, if its current page is a question's. -/
def picture? (d : Dialog) : Option Picture := d.topQuestion?.map (·.2.picture)

variable {d d' : Dialog}

namespace Redrawn

/-- What is not on the pages of questions is the same. -/
theorem rest (h : Redrawn Q d d') : d' = { d with pages := d'.pages } := by
  obtain ⟨pages, rfl, -⟩ := h
  rfl

theorem stack_eq (h : Redrawn Q d d') : d'.stack = d.stack := by rw [h.rest]

theorem top?_eq (h : Redrawn Q d d') : d'.top? = d.top? := by rw [top?, top?, h.stack_eq]

theorem verdict_eq (h : Redrawn Q d d') : d'.verdict = d.verdict := by rw [h.rest]

theorem get? (h : Redrawn Q d d') (k : String) :
    Option.Rel (QuestionPage.Redrawn Q) (d.pages.get? k) (d'.pages.get? k) := by
  obtain ⟨pages, rfl, h⟩ := h
  exact h k

theorem topQuestion? (h : Redrawn Q d d') :
    Option.Rel (fun x x' => x'.1 = x.1 ∧ x.2.Redrawn Q x'.2) d.topQuestion? d'.topQuestion? := by
  unfold Dialog.topQuestion?
  rw [h.top?_eq]
  cases d.top? with
  | none => exact .none
  | some P =>
    cases P with
    | question k => exact rel_map (h.get? k) fun p p' hp => ⟨rfl, hp⟩
    | _ => exact .none

theorem picture? (h : Redrawn Q d d') : Option.Rel Q d.picture? d'.picture? :=
  rel_map h.topQuestion? fun _ _ hp => hp.2.picture

theorem mono {Q' : Picture → Picture → Prop} (hQ : ∀ x x', Q x x' → Q' x x') (h : Redrawn Q d d') :
    Redrawn Q' d d' := by
  obtain ⟨pages, rfl, h⟩ := h
  refine ⟨pages, rfl, fun k => rel_mono (h k) fun p p' hp => ?_⟩
  obtain ⟨picture, rfl, hp⟩ := hp
  exact ⟨picture, rfl, hQ _ _ hp⟩

/-- A change beside the pages of questions that does not look at these. -/
theorem update_rest {f : Dialog → Dialog} (hf : ∀ d pages, f { d with pages := pages } =
      { f d with pages := pages }) (hpages : ∀ d, (f d).pages = d.pages) (h : Redrawn Q d d') :
    Redrawn Q (f d) (f d') := by
  obtain ⟨pages, rfl, h⟩ := h
  exact ⟨pages, hf d pages, by rwa [hpages]⟩

theorem setPage {p p' : QuestionPage} (h : Redrawn Q d d') (k : String) (hp : p.Redrawn Q p') :
    Redrawn Q (d.setPage k p) (d'.setPage k p') := by
  obtain ⟨pages, rfl, h⟩ := h
  refine ⟨pages.insert k p', rfl, fun k' => ?_⟩
  rw [pages_setPage, Table.get?_insert, Table.get?_insert]
  split
  · exact .some hp
  · exact h k'

/-- A change of the current question's page. -/
theorem changeTop {f f' : QuestionPage → QuestionPage}
    (hf : ∀ p p', p.Redrawn Q p' → (f p).Redrawn Q (f' p')) (h : Redrawn Q d d') :
    Redrawn Q
      (match d.topQuestion? with
        | some (k, p) => d.setPage k (f p)
        | none => d)
      (match d'.topQuestion? with
        | some (k, p) => d'.setPage k (f' p)
        | none => d') := by
  obtain ⟨hx, hx'⟩ | ⟨⟨k, p⟩, ⟨k', p'⟩, hx, hx', hk, hp⟩ := rel_cases h.topQuestion?
  · rw [hx, hx']
    exact h
  · cases hk
    rw [hx, hx']
    exact h.setPage k (hf p p' hp)

theorem updateNext (h : Redrawn Q d d') : Redrawn Q d.updateNext d'.updateNext := by
  obtain ⟨pages, rfl, h⟩ := h
  have htop : Dialog.top? { d with pages := pages } = d.top? := rfl
  unfold Dialog.updateNext
  rw [htop]
  cases d.top? with
  | none => exact ⟨pages, rfl, h⟩
  | some P => cases P <;> exact ⟨pages, rfl, h⟩

theorem update (h : Redrawn Q d d') : Redrawn Q d.update d'.update := by
  have hback : Redrawn Q d.updateBack d'.updateBack :=
    h.update_rest (fun _ _ => rfl) fun _ => rfl
  exact hback.updateNext.changeTop fun _ _ hp => hp.focus

theorem back (h : Redrawn Q d d') : Redrawn Q d.back d'.back :=
  (h.update_rest (f := fun d => { d with stack := d.stack.pop })
    (fun _ _ => rfl) fun _ => rfl).update

end Redrawn

/-! ### Questions to the dialog -/

theorem Redrawn.collectChosen_eq (h : Redrawn Q d d') (t : Table String (List String))
    (ps : List Page) : collectChosen d' t ps = collectChosen d t ps := by
  induction ps generalizing t with
  | nil => rfl
  | cons P ps ih =>
    cases P with
    | question k =>
      rw [collectChosen, collectChosen]
      obtain ⟨hx, hx'⟩ | ⟨p, p', hx, hx', hp⟩ := rel_cases (h.get? k)
      · rw [hx, hx']
        exact ih t
      · rw [hx, hx']
        simp only [hp.chosenOn_eq, ih]
    | _ => exact ih t

theorem Redrawn.chosenAnswers_eq (h : Redrawn Q d d') : d'.chosenAnswers = d.chosenAnswers := by
  rw [chosenAnswers, chosenAnswers, h.stack_eq, h.collectChosen_eq]

theorem Redrawn.completePage_eq (h : Redrawn Q d d') : d'.completePage = d.completePage := by
  rw [completePage, completePage, topComplete?, topComplete?, h.top?_eq]

theorem Redrawn.query_eq (h : Redrawn Q d d') (q : Query) : d'.query q = d.query q := by
  cases q with
  | name => rw [query, query, h.rest]
  | manual => rw [query, query, h.rest]
  | answers => rw [query, query, h.chosenAnswers_eq]
  | _ => rw [query, query, h.completePage_eq]

/-! ### Actions -/

/-- That two dialogs are opened alike up to pictures, which are related: the page at the end does
not tell their sub-packages apart. -/
structure Setup.Likewise (Q : Picture → Picture → Prop) (setup setup' : Setup) : Prop where
  organizer : setup'.organizer = setup.organizer
  script : setup'.script = setup.script
  remembered : setup'.remembered = setup.remembered
  complete : ∀ o, CompletePage.create setup'.packages o = CompletePage.create setup.packages o
  unset : Q .unset .unset
  image : ∀ image, Q (.ofImage setup.images image) (.ofImage setup'.images image)

/-- That two actions end alike: with the same fault, if there is one, and dialogs that differ in
pictures. -/
def SameResult (Q : Picture → Picture → Prop) (r r' : Result) : Prop :=
  ∃ d d' f, r = (d, f) ∧ r' = (d', f) ∧ Redrawn Q d d'

theorem Redrawn.sameResult {d d' : Dialog} (h : Redrawn Q d d') (f : Option Fault) :
    SameResult Q (d, f) (d', f) :=
  ⟨d, d', f, rfl, rfl, h⟩

variable {setup setup' : Setup}

theorem makePage_redrawn (hs : setup.Likewise Q setup') (h : Redrawn Q d d') (s : Stop) :
    SameEnd (fun x x' => x'.1 = x.1 ∧ Redrawn Q x.2 x'.2) (makePage setup d s)
      (makePage setup' d' s) := by
  cases s with
  | question k q =>
    rw [makePage, makePage, hs.remembered]
    exact (QuestionPage.create_redrawn hs.image hs.unset _ k q).map fun p p' hp =>
      ⟨rfl, h.setPage k hp⟩
  | requirement k r next =>
    rw [makePage, makePage, hs.organizer]
    exact (SameEnd.of_eq rfl).map fun p p' hp => ⟨congrArg Page.requirement hp, h⟩
  | done k o next =>
    rw [makePage, makePage, hs.complete]
    exact .ok ⟨rfl, h⟩
  | cancel k m next => exact .ok ⟨rfl, h⟩
  | error m => exact .ok ⟨rfl, h⟩
  | stuck => exact .error _

theorem knownPage?_redrawn (h : Redrawn Q d d') (s : Stop) :
    Option.Rel (fun x x' => x'.1 = x.1 ∧ x.2.Redrawn Q x'.2)
      (d.knownPage? s) (d'.knownPage? s) := by
  unfold knownPage?
  cases s.key? with
  | none => exact .none
  | some k => exact rel_map (h.get? k) fun p p' hp => ⟨rfl, hp⟩

/-- A page is pushed upon the stack. -/
theorem Redrawn.push (h : Redrawn Q d d') (P : Page) :
    Redrawn Q (Dialog.update { d with stack := d.stack.push P })
      (Dialog.update { d' with stack := d'.stack.push P }) :=
  (h.update_rest (f := fun d => { d with stack := d.stack.push P }) (fun _ _ => rfl)
    fun _ => rfl).update

theorem showStop_redrawn (hs : setup.Likewise Q setup') (h : Redrawn Q d d') (s : Stop) :
    SameResult Q (showStop setup d s) (showStop setup' d' s) := by
  unfold showStop
  obtain ⟨hx, hx'⟩ | ⟨⟨k, p⟩, ⟨k', p'⟩, hx, hx', hk, hp⟩ := rel_cases (knownPage?_redrawn h s)
  · rw [hx, hx']
    obtain ⟨f, hm, hm'⟩ | ⟨⟨P, e⟩, ⟨P', e'⟩, hm, hm', hP, he⟩ := (makePage_redrawn hs h s).cases_eq
    · simp only [hm, hm']
      exact h.sameResult _
    · cases hP
      simp only [hm, hm']
      exact (he.push P).sameResult _
  · cases hk
    rw [hx, hx']
    simp only
    obtain ⟨a, a', f, ha, ha', hask⟩ := hp.ask hs.image s
    rw [ha, ha']
    cases f with
    | none => exact ((h.setPage k hask).push (.question k)).sameResult _
    | some f => exact (h.setPage k hask).sameResult _

theorem runFrom_redrawn (hs : setup.Likewise Q setup') (h : Redrawn Q d d')
    (next : Option String) : SameResult Q (runFrom setup d next) (runFrom setup' d' next) := by
  unfold runFrom
  rw [hs.script, hs.organizer]
  cases setup.script.run setup.organizer (.page next) with
  | error f => exact h.sameResult _
  | ok s => exact showStop_redrawn hs h s

theorem next_redrawn (hs : setup.Likewise Q setup') (h : Redrawn Q d d') :
    SameResult Q (d.next setup) (d'.next setup') := by
  have haccept : SameResult Q ({ d with verdict := some .accepted }, none)
      ({ d' with verdict := some .accepted }, none) :=
    (h.update_rest (f := fun d => { d with verdict := some .accepted }) (fun _ _ => rfl)
      fun _ => rfl).sameResult _
  unfold next
  rw [h.top?_eq]
  cases d.top? with
  | none => exact haccept
  | some P =>
    cases P with
    | question k =>
      simp only
      obtain ⟨hx, hx'⟩ | ⟨p, p', hx, hx', hp⟩ := rel_cases (h.get? k)
      · rw [hx, hx']
        exact h.sameResult _
      · rw [hx, hx']
        simp only [hp.depart_eq]
        cases p.depart with
        | error f => exact h.sameResult _
        | ok exit =>
          have hgiven := h.update_rest
            (f := fun d =>
              { d with given := d.given ++ exit.given.toList.map fun as => as.map (·.name) })
            (fun _ _ => rfl) fun _ => rfl
          exact runFrom_redrawn hs hgiven exit.next
    | requirement p => exact runFrom_redrawn hs h p.next
    | _ => exact haccept

theorem setCurrentRow_redrawn (hs : setup.Likewise Q setup') (h : Redrawn Q d d') (row : Nat) :
    Redrawn Q (d.setCurrentRow setup row) (d'.setCurrentRow setup' row) :=
  h.changeTop fun _ _ hp => hp.setCurrent hs.image row

theorem Redrawn.goesOnAt_eq (h : Redrawn Q d d') (row : Nat) :
    d'.goesOnAt row = d.goesOnAt row := by
  unfold goesOnAt
  obtain ⟨hx, hx'⟩ | ⟨⟨k, p⟩, ⟨k', p'⟩, hx, hx', -, picture, hp, -⟩ := rel_cases h.topQuestion?
  · rw [hx, hx']
  · rw [hx, hx']
    cases hp
    rfl

/-- What one action does to both dialogs. -/
theorem act_redrawn (hs : setup.Likewise Q setup') (h : Redrawn Q d d') (a : Action) :
    SameResult Q (d.act setup a) (d'.act setup' a) := by
  cases a with
  | next =>
    have hnext : d'.nextEnabled = d.nextEnabled := by rw [h.rest]
    rw [act, act, hnext]
    split
    · exact next_redrawn hs h
    · exact h.sameResult _
  | back =>
    have hback : d'.backEnabled = d.backEnabled := by rw [h.rest]
    rw [act, act, hback]
    split
    · exact h.back.sameResult _
    · exact h.sameResult _
  | backspace => exact h.back.sameResult _
  | cancel =>
    exact (h.update_rest (f := fun d => { d with verdict := some .rejected }) (fun _ _ => rfl)
      fun _ => rfl).sameResult _
  | manual =>
    exact (h.update_rest (f := fun d => { d with manual := true, verdict := some .rejected })
      (fun _ _ => rfl) fun _ => rfl).sameResult _
  | showScript =>
    exact (h.update_rest (f := fun d => { d with scriptShown := d.scriptShown + 1 })
      (fun _ _ => rfl) fun _ => rfl).sameResult _
  | typeName s =>
    exact (h.update_rest (f := fun d => { d with name := s }) (fun _ _ => rfl)
      fun _ => rfl).sameResult _
  | setCurrent row =>
    cases row with
    | ofNat row => exact (setCurrentRow_redrawn hs h row).sameResult _
    | negSucc => exact h.sameResult _
  | doubleClick row =>
    cases row with
    | ofNat row =>
      have hcurrent := setCurrentRow_redrawn hs h row
      rw [act, act, h.goesOnAt_eq]
      split
      · exact next_redrawn hs hcurrent
      · exact hcurrent.sameResult _
    | negSucc => exact h.sameResult _
  | setChecked row on =>
    cases row with
    | ofNat row => exact (h.changeTop fun _ _ hp => hp.setChecked row on).sameResult _
    | negSucc => exact h.sameResult _
  | showTweaks row =>
    cases row with
    | ofNat row =>
      exact (h.update_rest (f := (setTweakRow · row)) (fun _ _ => rfl) fun _ => rfl).sameResult _
    | negSucc => exact h.sameResult _

/-! ### Sessions -/

/-- That the same is seen of two dialogs: states that are related, with the same fault if there is
one, or the same reply. -/
inductive Observation.Alike (D : Dialog → Dialog → Prop) : Observation → Observation → Prop
  | state {d d' : Dialog} (h : D d d') (f : Option Fault) : Alike D (.state d f) (.state d' f)
  | reply (r : Except Fault Reply) : Alike D (.reply r) (.reply r)

theorem happen_redrawn (hs : setup.Likewise Q setup') (h : Redrawn Q d d') (e : Event) :
    Observation.Alike (Redrawn Q) (happen setup d e).1 (happen setup' d' e).1 ∧
      Redrawn Q (happen setup d e).2 (happen setup' d' e).2 := by
  cases e with
  | act a =>
    obtain ⟨e, e', f, hact, hact', he⟩ := act_redrawn hs h a
    rw [happen, happen, hact, hact']
    exact ⟨.state he f, he⟩
  | ask q =>
    rw [happen, happen, h.query_eq]
    exact ⟨.reply _, h⟩

theorem play_redrawn (hs : setup.Likewise Q setup') (h : Redrawn Q d d') (es : List Event) :
    List.Forall₂ (Observation.Alike (Redrawn Q)) (play setup d es).1 (play setup' d' es).1 ∧
      Redrawn Q (play setup d es).2 (play setup' d' es).2 := by
  induction es generalizing d d' with
  | nil => exact ⟨.nil, h⟩
  | cons e es ih =>
    rw [play, play, h.verdict_eq]
    split
    · exact ⟨.nil, h⟩
    · obtain ⟨hseen, hnext⟩ := happen_redrawn hs h e
      obtain ⟨hrest, hlast⟩ := ih hnext
      exact ⟨.cons hseen hrest, hlast⟩

theorem start_redrawn (hs : setup.Likewise Q setup') (g : Guess) :
    SameResult Q (start setup (blank g)) (start setup' (blank g)) := by
  have hblank : Redrawn Q (blank g) (blank g) := ⟨∅, rfl, fun _ => .none⟩
  unfold start
  rw [hs.script, hs.organizer]
  cases setup.script.run setup.organizer .opening with
  | error f => exact hblank.sameResult _
  | ok s =>
    obtain ⟨f, hm, hm'⟩ | ⟨⟨P, e⟩, ⟨P', e'⟩, hm, hm', hP, he⟩ :=
      (makePage_redrawn hs hblank s).cases_eq
    · simp only [hm, hm']
      exact hblank.sameResult _
    · cases hP
      simp only [hm, hm']
      exact (he.update_rest (f := fun d => { d with stack := d.stack.add P }) (fun _ _ => rfl)
        fun _ => rfl).update.sameResult _

/-- That two sessions went alike. -/
structure Session.Alike (D : Dialog → Dialog → Prop) (s s' : Session) : Prop where
  verdict : s'.verdict = s.verdict
  seen : List.Forall₂ (Observation.Alike D) s.seen s'.seen
  dialog : D s.dialog s'.dialog

/-- Dialogs that are opened alike up to their pictures are used alike up to their pictures. -/
theorem exec_redrawn (hs : setup.Likewise Q setup') (g : Guess) (es : List Event) :
    (exec setup g es).Alike (Redrawn Q) (exec setup' g es) := by
  obtain ⟨d, d', f, hstart, hstart', h⟩ := start_redrawn hs g
  rw [exec, exec, hstart, hstart']
  cases f with
  | some f => exact ⟨rfl, .nil, h⟩
  | none =>
    obtain ⟨hseen, hlast⟩ := play_redrawn hs h es
    refine ⟨?_, .cons (.state h none) hseen, hlast⟩
    simp only [hlast.verdict_eq]

/-! ### Pictures that are seen -/

/-- The file of a picture, if it has one. -/
def Picture.file? : Picture → Option String
  | .file path => some path
  | _ => none

theorem Picture.eq_file_of_file? {x : Picture} {path : String} (h : x.file? = some path) :
    x = .file path := by
  cases x <;> cases h
  rfl

/-- The file of the picture that is seen, if one is. -/
def Observation.file? : Observation → Option String
  | .state d _ => d.picture?.bind Picture.file?
  | .reply _ => none

theorem Picture.ofImage_eq_blank_or (images : Images) (image : Option String) :
    ofImage images image = .blank ∨ ∃ s p, image = some s ∧ images.get? (Path.ofString s) = some p ∧
      ofImage images image = .file p.text := by
  cases image with
  | none => exact .inl rfl
  | some s =>
    by_cases hs : s = ""
    · exact .inl (if_pos hs)
    · rw [ofImage, if_neg hs]
      cases hp : images.get? (Path.ofString s) with
      | none => exact .inl rfl
      | some p => exact .inr ⟨s, p, rfl, hp, rfl⟩

end ModWizard.Dialog
