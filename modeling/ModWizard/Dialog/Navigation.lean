import ModWizard.Dialog.Basic

/-!
# Going on and going back

Going on runs the script from the current page to its next stop and shows a page for it;
going back takes the current page away.  An action that fails leaves the dialog as it was
when it failed.  Transcribed are the methods of `WizardInstallerDialog` that its buttons call.
-/

namespace ModWizard.Dialog

open Script (Stop)

/-- A dialog, and why the action that led to it failed, if it did. -/
abbrev Result := Dialog × Option Fault

/-- A page for what the script stopped at (`_make_page`), with the dialog that knows it. -/
def makePage (setup : Setup) (d : Dialog) : Stop → Except Fault (Page × Dialog)
  | .question k q =>
    (QuestionPage.create setup.images (setup.remembered.get? q.description) k q).map fun p =>
      (.question k, d.setPage k p)
  | .requirement _ r next =>
    (RequirementPage.create setup.organizer r next).map fun p => (.requirement p, d)
  | .done _ o _ => .ok (.complete (.create setup.packages o), d)
  | .cancel _ m _ => .ok (.cancelled m, d)
  | .error m => .ok (.failed m, d)
  | .stuck .. => .error .noPage

/-- The key of a stop and the page that it already has. -/
def knownPage? (d : Dialog) (s : Stop) : Option (String × QuestionPage) :=
  s.key?.bind fun k => (d.pages.get? k).map fun p => (k, p)

/-- Shows what the script stopped at, on the page that its key has or on a new one. -/
def showStop (setup : Setup) (d : Dialog) (s : Stop) : Result :=
  match d.knownPage? s with
  | some (k, p) =>
    match p.ask setup.images s with
    | (p, none) =>
      let d := d.setPage k p
      ({ d with stack := d.stack.push (.question k) }.update, none)
    | (p, some f) => (d.setPage k p, some f)
  | none =>
    match makePage setup d s with
    | .ok (p, d) => ({ d with stack := d.stack.push p }.update, none)
    | .error f => (d, some f)

/-- Runs the script from a node to which a page leads, and shows what it stops at. -/
def runFrom (setup : Setup) (d : Dialog) (next : Option String) : Result :=
  match setup.script.run setup.organizer (.page next) with
  | .ok s => showStop setup d s
  | .error f => (d, some (.script f))

/-- Goes on from the current page (`nextClicked`).  From the page at the end, that is to accept. -/
def next (setup : Setup) (d : Dialog) : Result :=
  match d.top? with
  | some (.question k) =>
    match d.pages.get? k with
    | none => (d, none)
    | some p =>
      match p.depart with
      | .error f => (d, some f)
      | .ok exit =>
        let log := exit.given.toList.map fun as => as.map (·.name)
        runFrom setup { d with given := d.given ++ log } exit.next
  | some (.requirement p) => runFrom setup d p.next
  | _ => ({ d with verdict := some .accepted }, none)

/-- Goes back to the page before (`previousClicked`). -/
def back (d : Dialog) : Dialog := { d with stack := d.stack.pop }.update

/-- Opens the dialog on what the script first stops at (`exec`). -/
def start (setup : Setup) (d : Dialog) : Result :=
  match setup.script.run setup.organizer .opening with
  | .error f => (d, some (.script f))
  | .ok s =>
    match makePage setup d s with
    | .error f => (d, some f)
    | .ok (p, d) => ({ d with stack := d.stack.add p }.update, none)

end ModWizard.Dialog
