import ModWizard.Dialog.Navigation
import ModWizard.Dialog.Query

/-!
# Using the dialog

What a user can do, one action after the other, until the dialog is closed.
-/

namespace ModWizard.Dialog

/-- An action of the user, by a button, a key or a row of a list.  A row that is not there is no
row. -/
inductive Action
  | next
  | back
  | cancel
  | manual
  | showScript
  /-- goes back by the keyboard -/
  | backspace
  | typeName (s : String)
  | setCurrent (row : Int)
  | doubleClick (row : Int)
  | setChecked (row : Int) (on : Bool)
  | showTweaks (row : Int)
  deriving DecidableEq, Inhabited

/-- The dialog with a row of the current question made current. -/
def setCurrentRow (setup : Setup) (d : Dialog) (row : Nat) : Dialog :=
  match d.topQuestion? with
  | some (k, p) => d.setPage k (p.setCurrent setup.images row)
  | none => d

/-- Whether a double click on a row of the current page goes on. -/
def goesOnAt (d : Dialog) (row : Nat) : Bool :=
  match d.topQuestion? with
  | some (_, p) => p.doubleClick && row < p.rows.length
  | none => false

/-- The dialog with a check mark of the current question set. -/
def setCheckedRow (d : Dialog) (row : Nat) (on : Bool) : Dialog :=
  match d.topQuestion? with
  | some (k, p) => d.setPage k (p.setChecked row on)
  | none => d

/-- The dialog with a tweak file of the page at the end made current. -/
def setTweakRow (d : Dialog) (row : Nat) : Dialog :=
  { d with
    stack := d.stack.modifyTop fun
      | .complete p => .complete (p.setRow row)
      | p => p }

/-- What an action does.  A disabled button does nothing. -/
def act (setup : Setup) (d : Dialog) : Action → Result
  | .next => if d.nextEnabled then d.next setup else (d, none)
  | .back => if d.backEnabled then (d.back, none) else (d, none)
  | .cancel => ({ d with verdict := some .rejected }, none)
  | .manual => ({ d with manual := true, verdict := some .rejected }, none)
  | .showScript => ({ d with scriptShown := d.scriptShown + 1 }, none)
  | .backspace => (d.back, none)
  | .typeName s => ({ d with name := s }, none)
  | .setCurrent (.ofNat row) => (d.setCurrentRow setup row, none)
  | .doubleClick (.ofNat row) =>
    if d.goesOnAt row then (d.setCurrentRow setup row).next setup
    else (d.setCurrentRow setup row, none)
  | .setChecked (.ofNat row) on => (d.setCheckedRow row on, none)
  | .showTweaks (.ofNat row) => (d.setTweakRow row, none)
  | .setCurrent (.negSucc _) => (d, none)
  | .doubleClick (.negSucc _) => (d, none)
  | .setChecked (.negSucc _) _ => (d, none)
  | .showTweaks (.negSucc _) => (d, none)

/-- What is done with an open dialog: the user acts, or someone asks. -/
inductive Event
  | act (a : Action)
  | ask (q : Query)
  deriving DecidableEq, Inhabited

/-- What is seen after an event. -/
inductive Observation
  | state (d : Dialog) (fault : Option Fault)
  | reply (r : Except Fault Reply)

/-- What an event does and shows. -/
def happen (setup : Setup) (d : Dialog) : Event → Observation × Dialog
  | .act a =>
    let (d, f) := d.act setup a
    (.state d f, d)
  | .ask q => (.reply (d.query q), d)

/-- Events one after the other, until the dialog is closed. -/
def play (setup : Setup) : Dialog → List Event → List Observation × Dialog
  | d, [] => ([], d)
  | d, e :: es =>
    if d.verdict.isSome then ([], d)
    else
      let (o, d) := happen setup d e
      let (os, d) := play setup d es
      (o :: os, d)

/-- How the use of a dialog went. -/
structure Session where
  /-- the verdict, or why the dialog could not be opened -/
  verdict : Except Fault Verdict
  /-- what was seen, the open dialog first -/
  seen : List Observation
  dialog : Dialog

/-- Opens the dialog and plays some events.  A dialog that is left open is rejected. -/
def exec (setup : Setup) (g : Guess) (es : List Event) : Session :=
  match start setup (blank g) with
  | (d, some f) => ⟨.error f, [], d⟩
  | (d, none) =>
    let (os, final) := play setup d es
    ⟨.ok (final.verdict.getD .rejected), .state d none :: os, final⟩

end ModWizard.Dialog
