import ModWizard.Proofs.Dialog.Page
import ModWizard.Proofs.Dialog.Run

/-!
# What an action does

An action either comes to a stop of the script, and then shows it or fails to (`showStop`), or
it does something small to the current page (`Touch`).  `act_of_comesTo_eq_some` and
`act_of_comesTo_eq_none` say so once for all actions; what holds of dialogs in general is
derived from them.
-/

namespace ModWizard.Dialog

open Script (Source Stop)

variable {setup : Setup} {d d' : Dialog}

/-! ## Where a page leads -/

/-- From where the script is run on when a page is left with what is chosen on it.  There is no such
place if the page cannot be left. -/
def exit? (d : Dialog) : Page → Option Source
  | .question k => (d.pages.get? k).bind fun p => p.depart.toOption.map fun x => .page x.next
  | .requirement p => some (.page p.next)
  | _ => none

/-- What the script stops at when it is run, if it comes to a stop. -/
def stopFrom? (setup : Setup) (source : Source) : Option Stop :=
  (setup.script.run setup.organizer source).toOption

theorem run_of_stopFrom?_eq_some {source : Source} {s : Stop}
    (h : stopFrom? setup source = some s) : setup.script.run setup.organizer source = .ok s := by
  unfold stopFrom? at h
  cases hr : setup.script.run setup.organizer source with
  | ok s' => rw [hr] at h; cases h; rfl
  | error f => rw [hr] at h; cases h

/-- What going on from the current page comes to. -/
def stopAfter? (setup : Setup) (d : Dialog) : Option Stop :=
  (d.top?.bind d.exit?).bind (stopFrom? setup)

/-- The dialog from which an action goes on: a double click first makes its row current. -/
def pressed (setup : Setup) (d : Dialog) : Action → Dialog
  | .doubleClick (.ofNat row) => d.setCurrentRow setup row
  | _ => d

/-- What an action comes to, if it is one that goes on. -/
def comesTo (setup : Setup) (d : Dialog) : Action → Option Stop
  | .next => if d.nextEnabled then d.stopAfter? setup else none
  | .doubleClick (.ofNat row) =>
    if d.goesOnAt row then (d.setCurrentRow setup row).stopAfter? setup else none
  | _ => none

/-! ## Changes beside the screen -/

/-- That two dialogs have the same pages and buttons. -/
structure SameScreen (d d' : Dialog) : Prop where
  stack : d'.stack = d.stack
  pages : d'.pages = d.pages
  backEnabled : d'.backEnabled = d.backEnabled
  nextEnabled : d'.nextEnabled = d.nextEnabled
  nextText : d'.nextText = d.nextText

theorem SameScreen.refl (d : Dialog) : SameScreen d d := ⟨rfl, rfl, rfl, rfl, rfl⟩

theorem SameScreen.top? (h : SameScreen d d') : d'.top? = d.top? := by
  rw [Dialog.top?, h.stack, Dialog.top?]

theorem SameScreen.exit? (h : SameScreen d d') (P : Page) : d'.exit? P = d.exit? P := by
  cases P with
  | question k => simp only [Dialog.exit?, h.pages]
  | _ => rfl

theorem SameScreen.stopAfter? (h : SameScreen d d') : d'.stopAfter? setup = d.stopAfter? setup := by
  simp only [Dialog.stopAfter?, h.top?, show d'.exit? = d.exit? from funext h.exit?]

/-! ## Going on -/

/-- Going on shows what it comes to. -/
theorem next_of_stopAfter?_eq_some {s : Stop} (h : d.stopAfter? setup = some s) :
    ∃ d', SameScreen d d' ∧ d'.verdict = d.verdict ∧ d.next setup = showStop setup d' s := by
  simp only [stopAfter?, Option.bind_eq_some_iff] at h
  obtain ⟨id, ⟨P, hP, hid⟩, hs⟩ := h
  have hrun := run_of_stopFrom?_eq_some hs
  cases P with
  | question k =>
    simp only [exit?, Option.bind_eq_some_iff] at hid
    obtain ⟨p, hp, hid⟩ := hid
    cases hd : p.depart with
    | error f => rw [hd] at hid; cases hid
    | ok exit =>
      rw [hd] at hid
      cases hid
      refine ⟨{ d with given := d.given ++ exit.given.toList.map fun as => as.map (·.name) },
        ⟨rfl, rfl, rfl, rfl, rfl⟩, rfl, ?_⟩
      rw [next, hP]
      simp only [hp, hd, runFrom, hrun]
  | requirement p =>
    cases hid
    exact ⟨d, .refl d, rfl, by rw [next, hP]; simp only [runFrom, hrun]⟩
  | complete p => cases hid
  | cancelled m => cases hid
  | failed m => cases hid

/-- A run that comes to no stop leaves the dialog as it is. -/
theorem runFrom_of_stopFrom?_eq_none {next : Option String}
    (h : stopFrom? setup (.page next) = none) : (runFrom setup d next).1 = d := by
  unfold stopFrom? at h
  unfold runFrom
  cases hr : setup.script.run setup.organizer (.page next) with
  | ok s => rw [hr] at h; cases h
  | error f => rfl

/-- Going on that comes to no stop leaves the screen. -/
theorem next_of_stopAfter?_eq_none (h : d.stopAfter? setup = none) :
    SameScreen d (d.next setup).1 := by
  unfold next
  split
  · rename_i k hP
    split
    · exact .refl d
    · rename_i p hp
      split
      · exact .refl d
      · rename_i exit hd
        have hs : stopFrom? setup (.page exit.next) = none := by
          simpa [stopAfter?, hP, exit?, hp, hd, Except.toOption] using h
        rw [runFrom_of_stopFrom?_eq_none hs]
        exact ⟨rfl, rfl, rfl, rfl, rfl⟩
  · rename_i p hP
    have hs : stopFrom? setup (.page p.next) = none := by simpa [stopAfter?, hP, exit?] using h
    rw [runFrom_of_stopFrom?_eq_none hs]
    exact .refl d
  · exact ⟨rfl, rfl, rfl, rfl, rfl⟩

/-! ## Actions -/

/-- What an action does to a dialog if it comes to no stop. -/
inductive Touch (setup : Setup) (d : Dialog) : Dialog → Prop
  /-- nothing on the screen -/
  | aside {d' : Dialog} (h : SameScreen d d') : Touch setup d d'
  /-- a row of the current question is made current -/
  | current {d' : Dialog} (row : Nat) (h : SameScreen (d.setCurrentRow setup row) d') :
    Touch setup d d'
  /-- a check mark of the current question is set -/
  | check (row : Nat) (on : Bool) : Touch setup d (d.setCheckedRow row on)
  /-- a tweak file is looked at -/
  | tweak (row : Nat) : Touch setup d (d.setTweakRow row)
  /-- the current page is taken away -/
  | back : Touch setup d d.back

/-- An action that comes to a stop shows it from the dialog in which it goes on. -/
theorem act_of_comesTo {a : Action} {s : Stop} (h : d.comesTo setup a = some s) :
    ∃ d', SameScreen (d.pressed setup a) d' ∧ d'.stopAfter? setup = some s ∧
      d.act setup a = showStop setup d' s := by
  unfold comesTo at h
  split at h
  · split at h
    · rename_i hn
      obtain ⟨d', hd', _, hs⟩ := next_of_stopAfter?_eq_some h
      exact ⟨d', hd', hd'.stopAfter?.trans h, by rw [act, if_pos hn, hs]⟩
    · cases h
  · split at h
    · rename_i row hn
      obtain ⟨d', hd', _, hs⟩ := next_of_stopAfter?_eq_some h
      exact ⟨d', hd', hd'.stopAfter?.trans h, by rw [act, if_pos hn, hs]⟩
    · cases h
  · cases h

theorem pressed_eq (setup : Setup) (d : Dialog) (a : Action) :
    d.pressed setup a = d ∨ ∃ row, d.pressed setup a = d.setCurrentRow setup row := by
  unfold pressed
  split
  · exact .inr ⟨_, rfl⟩
  · exact .inl rfl

/-- An action that comes to a stop shows it, from the dialog as it was or with another row made
current. -/
theorem act_of_comesTo_eq_some {a : Action} {s : Stop} (h : d.comesTo setup a = some s) :
    ∃ d', (SameScreen d d' ∨ ∃ row, SameScreen (d.setCurrentRow setup row) d') ∧
      d'.stopAfter? setup = some s ∧ d.act setup a = showStop setup d' s := by
  obtain ⟨d', hd', hs, ha⟩ := act_of_comesTo h
  refine ⟨d', ?_, hs, ha⟩
  obtain hp | ⟨row, hp⟩ := pressed_eq setup d a <;> rw [hp] at hd'
  · exact .inl hd'
  · exact .inr ⟨row, hd'⟩

/-- An action that comes to no stop touches the dialog. -/
theorem act_of_comesTo_eq_none {a : Action} (h : d.comesTo setup a = none) :
    Touch setup d (d.act setup a).1 := by
  cases a with
  | next =>
    by_cases hn : d.nextEnabled
    · rw [comesTo, if_pos hn] at h
      rw [act, if_pos hn]
      exact .aside (next_of_stopAfter?_eq_none h)
    · rw [act, if_neg hn]
      exact .aside (.refl d)
  | doubleClick row =>
    cases row with
    | ofNat row =>
      by_cases hn : d.goesOnAt row
      · rw [comesTo, if_pos hn] at h
        rw [act, if_pos hn]
        exact .current row (next_of_stopAfter?_eq_none h)
      · rw [act, if_neg hn]
        exact .current row (.refl _)
    | negSucc n => exact .aside (.refl d)
  | back =>
    by_cases hb : d.backEnabled
    · rw [act, if_pos hb]
      exact .back
    · rw [act, if_neg hb]
      exact .aside (.refl d)
  | backspace => exact .back
  | setCurrent row =>
    cases row with
    | ofNat row => exact .current row (.refl _)
    | negSucc n => exact .aside (.refl d)
  | setChecked row on =>
    cases row with
    | ofNat row => exact .check row on
    | negSucc n => exact .aside (.refl d)
  | showTweaks row =>
    cases row with
    | ofNat row => exact .tweak row
    | negSucc n => exact .aside (.refl d)
  | cancel => exact .aside ⟨rfl, rfl, rfl, rfl, rfl⟩
  | manual => exact .aside ⟨rfl, rfl, rfl, rfl, rfl⟩
  | showScript => exact .aside ⟨rfl, rfl, rfl, rfl, rfl⟩
  | typeName s => exact .aside ⟨rfl, rfl, rfl, rfl, rfl⟩

end ModWizard.Dialog
