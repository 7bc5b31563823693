import ModWizard.Dialog.Play

/-!
# Runs of the dialog

A run is a list of events that happen to an open dialog.  `Along` says of every event of a
run what holds where it happens, `Always` says of every dialog of the run what holds of it.
What one action preserves, a run preserves (`always_of_act`), so it holds of all dialogs that
runs come to (`Reachable.invariant`); what an action preserves only if it passes a test, a run
preserves if all its actions pass (`always_iff_along`).
-/

namespace ModWizard.Dialog

variable {setup : Setup} {d : Dialog}

/-- What every event of a run satisfies where it happens.  To a closed dialog nothing
happens. -/
def Along (setup : Setup) (P : Dialog → Event → Prop) : Dialog → List Event → Prop
  | _, [] => True
  | d, e :: es => d.verdict = none → P d e ∧ Along setup P (happen setup d e).2 es

/-- What every dialog of a run satisfies, the first and the last included. -/
def Always (setup : Setup) (I : Dialog → Prop) : Dialog → List Event → Prop
  | d, [] => I d
  | d, e :: es => I d ∧ (d.verdict = none → Always setup I (happen setup d e).2 es)

/-- A test of events can be made along a run. -/
instance decidableAlong (setup : Setup) (P : Dialog → Event → Prop)
    [∀ d e, Decidable (P d e)] : ∀ d es, Decidable (Along setup P d es)
  | _, [] => inferInstanceAs (Decidable True)
  | d, e :: es =>
    have := decidableAlong setup P (happen setup d e).2 es
    inferInstanceAs (Decidable (d.verdict = none → P d e ∧ Along setup P (happen setup d e).2 es))

@[simp] theorem happen_act (a : Action) :
    (happen setup d (.act a)).2 = (d.act setup a).1 := rfl

@[simp] theorem happen_ask (q : Query) : (happen setup d (.ask q)).2 = d := rfl

@[simp] theorem play_nil : play setup d [] = ([], d) := rfl

/-- A closed dialog stays as it is. -/
theorem play_of_verdict_ne_none {es : List Event} (h : d.verdict ≠ none) :
    play setup d es = ([], d) := by
  cases es with
  | nil => rfl
  | cons e es =>
    rw [play, if_pos (Option.isSome_iff_ne_none.mpr h)]

/-- An open dialog takes the first event of a run. -/
theorem play_cons_of_verdict_eq_none {e : Event} {es : List Event} (h : d.verdict = none) :
    (play setup d (e :: es)).2 = (play setup (happen setup d e).2 es).2 := by
  rw [play, if_neg (by simp [h])]

/-- What a session with a dialog that can be opened comes to. -/
theorem exec_of_start {g : Guess} {es : List Event} (h : start setup (blank g) = (d, none)) :
    exec setup g es = ⟨.ok ((play setup d es).2.verdict.getD .rejected),
      .state d none :: (play setup d es).1, (play setup d es).2⟩ := by
  rw [exec, h]

/-- A session is accepted if its dialog could be opened and its run accepts the dialog. -/
theorem verdict_exec_eq_accepted_iff {g : Guess} {es : List Event} :
    (exec setup g es).verdict = .ok .accepted ↔ ∃ d, start setup (blank g) = (d, none) ∧
      (play setup d es).2.verdict = some .accepted := by
  obtain ⟨d, f, hstart⟩ : ∃ d f, start setup (blank g) = (d, f) := ⟨_, _, rfl⟩
  cases f with
  | some f =>
    rw [exec, hstart]
    refine iff_of_false (by simp) ?_
    rintro ⟨_, he, -⟩
    cases he
  | none =>
    rw [exec_of_start hstart, hstart]
    cases hv : (play setup d es).2.verdict with
    | none => simp [hv]
    | some v => simp [hv]

/-- What holds of every dialog of a run holds of the first. -/
theorem Always.first {I : Dialog → Prop} {es : List Event} (h : Always setup I d es) : I d := by
  cases es with
  | nil => exact h
  | cons e es => exact h.1

/-- What holds of every dialog of a run holds of the last. -/
theorem Always.last {I : Dialog → Prop} {es : List Event} (h : Always setup I d es) :
    I (play setup d es).2 := by
  induction es generalizing d with
  | nil => exact h
  | cons e es ih =>
    by_cases hv : d.verdict = none
    · rw [play_cons_of_verdict_eq_none hv]
      exact ih (h.2 hv)
    · rw [play_of_verdict_ne_none hv]
      exact h.1

/-- What follows from what holds of every dialog of a run holds of every dialog of it too. -/
theorem Always.mono {I J : Dialog → Prop} (hIJ : ∀ d, I d → J d) {es : List Event}
    (h : Always setup I d es) : Always setup J d es := by
  induction es generalizing d with
  | nil => exact hIJ d h
  | cons e es ih => exact ⟨hIJ d h.1, fun hv => ih (h.2 hv)⟩

theorem Always.and {I J : Dialog → Prop} {es : List Event} (h : Always setup I d es)
    (h' : Always setup J d es) : Always setup (fun d => I d ∧ J d) d es := by
  induction es generalizing d with
  | nil => exact ⟨h, h'⟩
  | cons e es ih => exact ⟨⟨h.1, h'.1⟩, fun hv => ih (h.2 hv) (h'.2 hv)⟩

/-- What holds at first and is preserved by every action holds always. -/
theorem always_of_act {I : Dialog → Prop}
    (step : ∀ d a, d.verdict = none → I d → I (d.act setup a).1)
    (h : I d) (es : List Event) : Always setup I d es := by
  induction es generalizing d with
  | nil => exact h
  | cons e es ih =>
    refine ⟨h, fun hv => ?_⟩
    cases e with
    | act a => exact ih (step d a hv h)
    | ask q => exact ih h

/-- What an action preserves that passes a test holds always in a run whose actions all pass it. -/
theorem always_of_along {I : Dialog → Prop} {C : Dialog → Event → Prop}
    (step : ∀ d a, I d → C d (.act a) → I (d.act setup a).1) (h : I d) {es : List Event}
    (hC : Along setup C d es) : Always setup I d es := by
  induction es generalizing d with
  | nil => exact h
  | cons e es ih =>
    refine ⟨h, fun hv => ?_⟩
    obtain ⟨he, hes⟩ := hC hv
    cases e with
    | act a => exact ih (step d a h he) hes
    | ask q => exact ih h hes

theorem Along.and {P Q : Dialog → Event → Prop} {es : List Event} (h : Along setup P d es)
    (h' : Along setup Q d es) : Along setup (fun d e => P d e ∧ Q d e) d es := by
  induction es generalizing d with
  | nil => trivial
  | cons e es ih => exact fun hv => ⟨⟨(h hv).1, (h' hv).1⟩, ih (h hv).2 (h' hv).2⟩

/-- What holds of all events holds along every run. -/
theorem along_of_forall {P : Dialog → Event → Prop} (h : ∀ d e, P d e) (es : List Event) :
    Along setup P d es := by
  induction es generalizing d with
  | nil => trivial
  | cons e es ih => exact fun _ => ⟨h d e, ih⟩

/-- If what holds throughout a run shows that the actions before pass a test, then all pass it. -/
theorem along_of_always {I : Dialog → Prop} {B : Dialog → Event → Prop}
    (step : ∀ d a, I (d.act setup a).1 → B d (.act a)) (asked : ∀ d q, B d (.ask q))
    {es : List Event} (h : Always setup I d es) : Along setup B d es := by
  induction es generalizing d with
  | nil => trivial
  | cons e es ih =>
    intro hv
    have hnext := h.2 hv
    cases e with
    | ask q => exact ⟨asked d q, ih hnext⟩
    | act a => exact ⟨step d a hnext.first, ih hnext⟩

/-- What an action preserves exactly if it passes a test holds throughout a run exactly if all
actions of the run pass the test.  `J` is what can be used of the dialogs of the run, and `C` of
its events. -/
theorem always_iff_along {I J : Dialog → Prop} {B C : Dialog → Event → Prop}
    (keep : ∀ d a, J d → C d (.act a) → J (d.act setup a).1)
    (step : ∀ d a, J d → C d (.act a) → I d → (I (d.act setup a).1 ↔ B d (.act a)))
    (asked : ∀ d q, B d (.ask q)) {es : List Event} (hJ : J d) (hC : Along setup C d es)
    (h : I d) : Always setup I d es ↔ Along setup B d es := by
  induction es generalizing d with
  | nil => exact iff_of_true h trivial
  | cons e es ih =>
    constructor
    · rintro ⟨_, hrest⟩ hv
      have hnext := hrest hv
      obtain ⟨he, hes⟩ := hC hv
      cases e with
      | ask q => exact ⟨asked d q, (ih hJ hes h).mp hnext⟩
      | act a =>
        exact ⟨(step d a hJ he h).mp hnext.first, (ih (keep d a hJ he) hes hnext.first).mp hnext⟩
    · intro hB
      refine ⟨h, fun hv => ?_⟩
      obtain ⟨hb, hbs⟩ := hB hv
      obtain ⟨he, hes⟩ := hC hv
      cases e with
      | ask q => exact (ih hJ hes h).mpr hbs
      | act a => exact (ih (keep d a hJ he) hes ((step d a hJ he h).mpr hb)).mpr hbs

/-- That a dialog is one that a run comes to. -/
def Reachable (setup : Setup) (d : Dialog) : Prop :=
  ∃ g d₀ es, start setup (blank g) = (d₀, none) ∧ (play setup d₀ es).2 = d

/-- What holds of opened dialogs and is preserved by every action holds of every dialog that a
run comes to. -/
theorem Reachable.invariant {I : Dialog → Prop} (h : Reachable setup d)
    (opened : ∀ g d, start setup (blank g) = (d, none) → I d)
    (step : ∀ d a, d.verdict = none → I d → I (d.act setup a).1) : I d := by
  obtain ⟨g, d₀, es, hstart, rfl⟩ := h
  exact (always_of_act step (opened g d₀ hstart) es).last

end ModWizard.Dialog
