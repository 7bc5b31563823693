import ModWizard.Proofs.Dialog.Ending
import ModWizard.Proofs.Host
import ModWizard.Proofs.Script.Chain

/-!
# Requirements that are not met

The script stops at a requirement only if it is not met (`isMet?_of_run`), and then the page of
requirements is due.  The page names the version of the script extender, and it asks the extender
for it whether there is one or not: so without an extender the page cannot be made, and the version
of one that is not installed stands on it all the same (`create_eq_ok_iff`).
-/

namespace ModWizard

open Script (Source Stop)

/-- A run stops at a requirement only if it is not met. -/
theorem Script.isMet?_of_run {s : Script} {org : Organizer} {source : Source} {k : String}
    {r : Requirement} {next : Option String}
    (h : s.run org source = .ok (.requirement k r next)) : r.isMet? org = some false := by
  obtain ⟨_, node, -, hhalts, hstop, -⟩ := runWithin_eq_ok_iff.mp h
  exact hhalts.2 r (requirement?_of_stop? hstop)

namespace Dialog

variable {setup : Setup} {org : Organizer} {d : Dialog} {k : String} {r : Requirement}
  {next : Option String}

/-! ### The page -/

/-- What should stand on the page for the script extender: its version if it is there and
installed. -/
def dueExtender (org : Organizer) : String :=
  match org.extender with
  | none => ""
  | some e => if e.installed then e.version else ""

/-- The page can be made if the version of the game can be read, the versions can be compared, and
there is a script extender.  It names the version of that extender, installed or not. -/
theorem RequirementPage.create_eq_ok_iff {p : RequirementPage} :
    RequirementPage.create org r next = .ok p ↔ ∃ game e c,
      org.host.versions.read? org.version = some game ∧ org.extender = some e ∧
      r.check? org = some c ∧
      p = ⟨r, next, org.gameName, org.host.versions.text game, e.version, .ofBool c.game,
        .ofBool c.extender⟩ := by
  unfold RequirementPage.create
  cases org.host.versions.read? org.version with
  | none => simp
  | some game =>
    cases org.extender with
    | none => simp
    | some e =>
      cases r.check? org with
      | none => simp
      | some c => simp [eq_comm]

/-- That the page of a requirement can be made. -/
structure Presentable (org : Organizer) : Prop where
  readable : (org.host.versions.read? org.version).isSome = true
  extender : org.extender.isSome = true

theorem exists_create_iff (h : r.isMet? org = some false) (next : Option String) :
    (∃ p, RequirementPage.create org r next = .ok p) ↔ Presentable org := by
  obtain ⟨c, hc, -⟩ := Option.map_eq_some_iff.mp h
  constructor
  · rintro ⟨p, hp⟩
    obtain ⟨game, e, _, hgame, he, -⟩ := RequirementPage.create_eq_ok_iff.mp hp
    exact ⟨by rw [hgame]; rfl, by rw [he]; rfl⟩
  · rintro ⟨hgame, he⟩
    obtain ⟨game, hgame⟩ := Option.isSome_iff_exists.mp hgame
    obtain ⟨e, he⟩ := Option.isSome_iff_exists.mp he
    exact ⟨_, RequirementPage.create_eq_ok_iff.mpr ⟨game, e, c, hgame, he, hc, rfl⟩⟩

/-! ### Coming to a requirement -/

/-- That the script comes to a stop: when the dialog is opened, or by an action that goes on.  With
it the dialog before, and what comes of it. -/
inductive Brings (setup : Setup) (s : Stop) : Dialog → Result → Prop
  | opening (g : Guess) (h : stopFrom? setup .opening = some s) :
    Brings setup s (blank g) (start setup (blank g))
  | going (d : Dialog) (a : Action) (h : d.comesTo setup a = some s) :
    Brings setup s d (d.act setup a)

/-- That a requirement is shown, by a page of its own that is current. -/
def ShowsPage (r : Requirement) (next : Option String) (p : RequirementPage) (x : Result) : Prop :=
  x.2 = none ∧ x.1.top? = some (.requirement p) ∧ p.needed = r ∧ p.next = next

theorem isMet?_of_stopFrom? {source : Source}
    (h : stopFrom? setup source = some (.requirement k r next)) :
    r.isMet? setup.organizer = some false :=
  Script.isMet?_of_run (run_of_stopFrom?_eq_some h)

/-- However the dialog was brought to a stop, the script was run to it. -/
theorem Brings.exists_run {s : Stop} {x : Result} (h : Brings setup s d x) :
    ∃ source, setup.script.run setup.organizer source = .ok s := by
  cases h with
  | opening g h => exact ⟨_, run_of_stopFrom?_eq_some h⟩
  | going d a h =>
    obtain ⟨_, -, hs, -⟩ := act_of_comesTo_eq_some h
    obtain ⟨source, -, hs⟩ := Option.bind_eq_some_iff.mp hs
    exact ⟨source, run_of_stopFrom?_eq_some hs⟩

theorem Brings.isMet? {x : Result} (h : Brings setup (.requirement k r next) d x) :
    r.isMet? setup.organizer = some false := by
  obtain ⟨_, hrun⟩ := h.exists_run
  exact Script.isMet?_of_run hrun

/-- Making a row current makes no page. -/
theorem get?_pressed_eq_none_iff (setup : Setup) (a : Action) :
    (d.pressed setup a).pages.get? k = none ↔ d.pages.get? k = none := by
  obtain hp | ⟨row, hp⟩ := pressed_eq setup d a <;> rw [hp]
  unfold setCurrentRow
  split
  next k' p hp =>
    have hk' := (get?_of_topQuestion? hp).2
    rw [pages_setPage, Table.get?_insert]
    by_cases he : k' = k
    · rw [if_pos he, ← he, hk']
      exact iff_of_false (by simp) (by simp)
    · rw [if_neg he]
  next => rfl

/-- A dialog that makes the page of a requirement current if it can be made, and fails otherwise,
shows the requirement exactly if the page can be made. -/
theorem showsPage_iff_create {x : Result}
    (hok : ∀ p, RequirementPage.create org r next = .ok p →
      x.2 = none ∧ x.1.top? = some (.requirement p))
    (herror : ∀ f, RequirementPage.create org r next = .error f → x.2 ≠ none) :
    (∀ p, ShowsPage r next p x ↔ RequirementPage.create org r next = .ok p) ∧
      (x.2 = none → ∃ p, ShowsPage r next p x) := by
  have hshows : ∀ p, RequirementPage.create org r next = .ok p → ShowsPage r next p x := by
    intro p hp
    obtain ⟨hnone, htop⟩ := hok p hp
    obtain ⟨_, _, _, -, -, -, rfl⟩ := RequirementPage.create_eq_ok_iff.mp hp
    exact ⟨hnone, htop, rfl, rfl⟩
  cases hc : RequirementPage.create org r next with
  | error f => exact ⟨fun p => iff_of_false (fun h => herror f hc h.1) (by simp),
      fun h => absurd h (herror f hc)⟩
  | ok p =>
    refine ⟨fun q => ⟨fun h => ?_, fun h => hshows q (hc.trans h)⟩, fun _ => ⟨p, hshows p hc⟩⟩
    cases (hshows p hc).2.1.symm.trans h.2.1
    rfl

/-- A requirement is shown if the page of no question has its key and its own page can be made. -/
theorem showsPage_showStop :
    (∀ p, ShowsPage r next p (showStop setup d (.requirement k r next)) ↔
      d.pages.get? k = none ∧ RequirementPage.create setup.organizer r next = .ok p) ∧
    ((showStop setup d (.requirement k r next)).2 = none →
      ∃ p, ShowsPage r next p (showStop setup d (.requirement k r next))) := by
  cases hk : d.pages.get? k with
  | some q =>
    have hfault : (showStop setup d (.requirement k r next)).2 ≠ none := by
      rw [fault_showStop_of_known rfl hk]
      exact Option.some_ne_none _
    exact ⟨fun p => iff_of_false (fun h => hfault h.1) (by simp), fun h => absurd h hfault⟩
  | none =>
    have hknown : d.knownPage? (.requirement k r next) = none := by
      simp only [knownPage?, Stop.key?, Option.bind_some, hk, Option.map_none]
    simp only [true_and]
    refine showsPage_iff_create (fun p hp => ?_) fun f hf => ?_
    · simp only [showStop, hknown, makePage, hp, Except.map]
      exact ⟨trivial, top?_update.trans Stack.top?_push⟩
    · simp only [showStop, hknown, makePage, hf, Except.map]
      exact Option.some_ne_none f

/-- However the script came to the requirement, it is shown under the same conditions. -/
theorem Brings.showsPage {x : Result} (h : Brings setup (.requirement k r next) d x) :
    (∀ p, ShowsPage r next p x ↔
      d.pages.get? k = none ∧ RequirementPage.create setup.organizer r next = .ok p) ∧
    (x.2 = none → ∃ p, ShowsPage r next p x) := by
  cases h with
  | opening g h =>
    have hrun := run_of_stopFrom?_eq_some h
    have hempty : (blank g).pages.get? k = none := Table.get?_empty k
    simp only [hempty, true_and]
    refine showsPage_iff_create (fun p hp => ?_) fun f hf => ?_
    · simp only [start, hrun, makePage, hp, Except.map]
      refine ⟨trivial, top?_update.trans ?_⟩
      rw [top?, blank, Stack.add_empty]
      rfl
    · simp only [start, hrun, makePage, hf, Except.map]
      exact Option.some_ne_none f
  | going d a h =>
    obtain ⟨d', hd', -, ha⟩ := act_of_comesTo h
    rw [ha, ← get?_pressed_eq_none_iff setup a, ← hd'.pages]
    exact showsPage_showStop

/-! ### Pages of requirements in a run -/

/-- Every page of requirements in the stack was made for requirements that are not met. -/
theorem Reachable.requirement (h : Reachable setup d) {p : RequirementPage}
    (hp : Page.requirement p ∈ d.stack.pages) :
    p.needed.isMet? setup.organizer = some false ∧
      RequirementPage.create setup.organizer p.needed p.next = .ok p := by
  obtain ⟨_, _, hs, k, r, next, rfl, hc⟩ := h.founded _ hp fun _ he => by cases he
  obtain ⟨_, _, _, -, -, -, rfl⟩ := RequirementPage.create_eq_ok_iff.mp hc
  exact ⟨isMet?_of_stopFrom? hs, hc⟩

/-- That an organizer has a script extender of which the page of requirements says what it should:
it is installed, or it has no version that could be shown. -/
def ExtenderTold (org : Organizer) : Prop :=
  ∃ e, org.extender = some e ∧ (e.installed = true ∨ e.version = "")

theorem extender_eq_dueExtender_iff {p : RequirementPage}
    (hp : RequirementPage.create org r next = .ok p) :
    p.extender = dueExtender org ↔ ExtenderTold org := by
  obtain ⟨_, e, _, -, he, -, rfl⟩ := RequirementPage.create_eq_ok_iff.mp hp
  simp only [dueExtender, ExtenderTold, he, Option.some.injEq, exists_eq_left']
  by_cases hin : e.installed = true <;> simp [hin]

/-- Whenever the script comes to a requirement that is not met, it can be shown if and only if the
page of no question has its key, the version of the game can be read and there is a script extender.
The page says what it should of the extender if and only if that is installed, or has no version to
show.  So it stays for every page of requirements in a run. -/
theorem requirement_shown_iff (setup : Setup) :
    (∀ k r next d x, Brings setup (.requirement k r next) d x →
      r.isMet? setup.organizer = some false ∧
      (x.2 = none ↔ d.pages.get? k = none ∧ Presentable setup.organizer) ∧
      ((∃ p, ShowsPage r next p x ∧ p.extender = dueExtender setup.organizer) ↔
        d.pages.get? k = none ∧ Presentable setup.organizer ∧ ExtenderTold setup.organizer)) ∧
    (∀ d, Reachable setup d → ∀ p, Page.requirement p ∈ d.stack.pages →
      p.needed.isMet? setup.organizer = some false ∧
      (p.extender = dueExtender setup.organizer ↔ ExtenderTold setup.organizer)) := by
  constructor
  · intro k r next d x h
    obtain ⟨hpage, hshown⟩ := h.showsPage
    have hcreate := exists_create_iff h.isMet? next
    refine ⟨h.isMet?, ⟨fun hnone => ?_, ?_⟩, ?_, ?_⟩
    · obtain ⟨p, hp⟩ := hshown hnone
      obtain ⟨hk, hc⟩ := (hpage p).mp hp
      exact ⟨hk, hcreate.mp ⟨p, hc⟩⟩
    · rintro ⟨hk, hpresentable⟩
      obtain ⟨p, hc⟩ := hcreate.mpr hpresentable
      exact ((hpage p).mpr ⟨hk, hc⟩).1
    · rintro ⟨p, hp, hdue⟩
      obtain ⟨hk, hc⟩ := (hpage p).mp hp
      exact ⟨hk, hcreate.mp ⟨p, hc⟩, (extender_eq_dueExtender_iff hc).mp hdue⟩
    · rintro ⟨hk, hpresentable, htold⟩
      obtain ⟨p, hc⟩ := hcreate.mpr hpresentable
      exact ⟨p, (hpage p).mpr ⟨hk, hc⟩, (extender_eq_dueExtender_iff hc).mpr htold⟩
  · intro d hd p hp
    obtain ⟨hunmet, hc⟩ := hd.requirement hp
    exact ⟨hunmet, extender_eq_dueExtender_iff hc⟩

namespace Demanding

/-- A question, and then a version of the script extender that is asked for. -/
def script : Script where
  start := "a"
  nodes := .ofList
    [("a", ⟨"a", .question ⟨.one, "A", [⟨"x", "", none, none⟩], [0], some "r"⟩⟩),
     ("r", ⟨"r", .requirement ⟨"", "2.0", "", ""⟩ (some "e")⟩),
     ("e", ⟨"e", .done ⟨[], [], [], ∅, ∅⟩ none⟩)]

def asking (extender : Option Extender) : Setup where
  organizer := ⟨.plain 9, "Game", "1.0", "1.0", extender, none, [], [], ∅, ∅⟩
  script := script
  packages := []
  images := ∅
  remembered := ∅

/-- The dialog as it is opened. -/
def opened (extender : Option Extender) : Dialog :=
  (start (asking extender) (blank ⟨"Mod", ["Mod"]⟩)).1

/-- What comes of going on. -/
def shown (extender : Option Extender) : Result := (opened extender).act (asking extender) .next

/-- What stands on the current page for the extender, if that page is one of requirements. -/
def told? (d : Dialog) : Option String :=
  match d.top? with
  | some (.requirement p) => some p.extender
  | _ => none

end Demanding

open Demanding in
/-- An extender that is installed and too old. -/
theorem requirement_shown_old :
    Brings (asking (some ⟨true, "1.0"⟩)) (.requirement "r" ⟨"", "2.0", "", ""⟩ (some "e"))
        (opened (some ⟨true, "1.0"⟩)) (shown (some ⟨true, "1.0"⟩)) ∧
      (shown (some ⟨true, "1.0"⟩)).2 = none ∧
      ∃ p, ShowsPage ⟨"", "2.0", "", ""⟩ (some "e") p (shown (some ⟨true, "1.0"⟩)) ∧
        p.extender = dueExtender (asking (some ⟨true, "1.0"⟩)).organizer := by
  have hbrings : Brings (asking (some ⟨true, "1.0"⟩))
      (.requirement "r" ⟨"", "2.0", "", ""⟩ (some "e")) (opened (some ⟨true, "1.0"⟩))
      (shown (some ⟨true, "1.0"⟩)) := .going _ .next (by decide +kernel)
  have hfree : (opened (some ⟨true, "1.0"⟩)).pages.get? "r" = none := by decide +kernel
  have hpresentable : Presentable (asking (some ⟨true, "1.0"⟩)).organizer :=
    ⟨by decide +kernel, by decide +kernel⟩
  obtain ⟨-, hfault, hpage⟩ := (requirement_shown_iff _).1 _ _ _ _ _ hbrings
  exact ⟨hbrings, hfault.mpr ⟨hfree, hpresentable⟩,
    hpage.mpr ⟨hfree, hpresentable, _, rfl, .inl rfl⟩⟩

open Demanding in
/-- Without an extender going on fails; and of an extender that is not installed the page says the
version. -/
theorem requirement_not_shown :
    (opened none).comesTo (asking none) .next =
        some (.requirement "r" ⟨"", "2.0", "", ""⟩ (some "e")) ∧
      (shown none).2 = some .noExtender ∧ told? (shown none).1 = none ∧
    (opened (some ⟨false, "1.0"⟩)).comesTo (asking (some ⟨false, "1.0"⟩)) .next =
        some (.requirement "r" ⟨"", "2.0", "", ""⟩ (some "e")) ∧
      told? (shown (some ⟨false, "1.0"⟩)).1 = some "1.0" ∧
      dueExtender (asking (some ⟨false, "1.0"⟩)).organizer = "" := by
  decide +kernel

end Dialog

end ModWizard
