import ModWizard.Dialog.QuestionPage
import ModWizard.Dialog.Stack

/-!
# The dialog

The dialog that leads the user through a script: a stack of pages, a button to go back, a
button to go on, and a field for the name of the mod.  Transcribed is the state of
`WizardInstallerDialog`, with what its buttons are made to say.
-/

namespace ModWizard

/-- What the dialog is opened with. -/
structure Dialog.Setup where
  organizer : Organizer
  script : Script
  /-- the sub-packages of the archive -/
  packages : List Package
  images : Dialog.Images
  /-- the names of the answers chosen last time, by question -/
  remembered : Table String (List String)

/-- What the dialog is opened with for a tree that stands below some names. -/
def Dialog.Setup.ofTree (org : Organizer) (script : Script) (above : List String) (t : Tree)
    (images : Dialog.Images) (remembered : Table String (List String)) : Dialog.Setup where
  organizer := org
  script := script
  packages := Package.all org above t
  images := images
  remembered := remembered

/-- What the mod is called: the likely name and all that were guessed. -/
structure Dialog.Guess where
  value : String
  variants : List String
  deriving DecidableEq, Inhabited

/-- How a dialog was closed. -/
inductive Dialog.Verdict
  | accepted
  | rejected
  deriving DecidableEq, Inhabited

/-- The state of the dialog. -/
structure Dialog where
  stack : Dialog.Stack
  /-- the pages of questions by their keys, also those not in the stack -/
  pages : Table String Dialog.QuestionPage
  backEnabled : Bool
  nextEnabled : Bool
  nextText : String
  /-- the name of the mod, as the user typed it -/
  name : String
  verdict : Option Dialog.Verdict
  /-- whether the user asked for a manual installation -/
  manual : Bool
  /-- how often the user asked to see the script -/
  scriptShown : Nat
  /-- the answers given so far, question by question -/
  given : List (List String)
  deriving DecidableEq

namespace Dialog

/-- The name in the field at first: the likely name if it is among the guessed. -/
def Guess.field (g : Guess) : String := if g.variants.contains g.value then g.value else ""

/-- The dialog before it shows a page, as the constructor of `WizardInstallerDialog` leaves it. -/
def blank (g : Guess) : Dialog where
  stack := .empty
  pages := ∅
  backEnabled := false
  nextEnabled := true
  nextText := "Next"
  name := g.field
  verdict := none
  manual := false
  scriptShown := 0
  given := []

/-- The current page. -/
def top? (d : Dialog) : Option Page := d.stack.top?

/-- The current page, if it is that of a question. -/
def topQuestion? (d : Dialog) : Option (String × QuestionPage) :=
  match d.top? with
  | some (.question k) => (d.pages.get? k).map fun p => (k, p)
  | _ => none

/-- The current page, if it is the page at the end. -/
def topComplete? (d : Dialog) : Option CompletePage :=
  match d.top? with
  | some (.complete p) => some p
  | _ => none

/-- The dialog with the page of a question written to its key. -/
def setPage (d : Dialog) (key : String) (p : QuestionPage) : Dialog :=
  { d with pages := d.pages.insert key p }

@[simp] theorem stack_setPage (d : Dialog) (k : String) (p : QuestionPage) :
    (d.setPage k p).stack = d.stack := rfl

@[simp] theorem pages_setPage (d : Dialog) (k : String) (p : QuestionPage) :
    (d.setPage k p).pages = d.pages.insert k p := rfl

/-- Enables the button to go back on all pages but the first (`_update_prev_button`). -/
def updateBack (d : Dialog) : Dialog :=
  { d with
    backEnabled :=
      match d.stack.current with
      | some (_ + 1) => true
      | _ => false }

/-- Names the button to go on after the current page (`_update_next_button`).  From the page of a
cancelled or failed script there is no going on. -/
def updateNext (d : Dialog) : Dialog :=
  match d.top? with
  | some (.question _) => { d with nextEnabled := true, nextText := "Next" }
  | some (.requirement _) => { d with nextEnabled := true, nextText := "Install anyway" }
  | some (.cancelled _) => { d with nextEnabled := false }
  | some (.failed _) => { d with nextEnabled := false }
  | _ => { d with nextEnabled := true, nextText := "Install" }

/-- Gives the focus to the answers of the current page (`_update_focus`). -/
def updateFocus (d : Dialog) : Dialog :=
  match d.topQuestion? with
  | some (k, p) => d.setPage k p.focus
  | none => d

/-- Brings buttons and focus in line with the current page. -/
def update (d : Dialog) : Dialog := d.updateBack.updateNext.updateFocus

@[simp] theorem stack_updateBack (d : Dialog) : d.updateBack.stack = d.stack := rfl

@[simp] theorem stack_updateNext (d : Dialog) : d.updateNext.stack = d.stack := by
  unfold updateNext
  split <;> rfl

@[simp] theorem stack_updateFocus (d : Dialog) : d.updateFocus.stack = d.stack := by
  unfold updateFocus
  split <;> rfl

@[simp] theorem stack_update (d : Dialog) : d.update.stack = d.stack := by
  simp [update]

end Dialog

end ModWizard
