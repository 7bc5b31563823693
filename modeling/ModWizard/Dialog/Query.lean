import ModWizard.Dialog.Basic

/-!
# Questions to the dialog

What the dialog says of the user's choices.  What is to be installed is known on the page at
the end only.
-/

namespace ModWizard.Dialog

/-- A question to the dialog. -/
inductive Query
  | name
  | manual
  | answers
  | packages
  | plugins
  | renames
  | tweaks
  deriving DecidableEq, Inhabited

/-- An answer of the dialog. -/
inductive Reply
  | name (s : String)
  | manual (b : Bool)
  | answers (t : Table String (List String))
  | packages (ns : List String)
  | plugins (ns : List String)
  | renames (t : Table String String)
  | tweaks (t : Table String (List Tweak))
  deriving DecidableEq

/-- The description and the chosen answers of a question's page. -/
def chosenOn (p : QuestionPage) : Except Fault (String × List String) :=
  p.chosen.bind fun as => p.description?.map fun s => (s, as.map (·.name))

/-- Enters the answers chosen on some pages, by question. -/
def collectChosen (d : Dialog) : Table String (List String) → List Page →
    Except Fault (Table String (List String))
  | t, [] => .ok t
  | t, .question k :: ps =>
    match d.pages.get? k with
    | none => collectChosen d t ps
    | some p => (chosenOn p).bind fun c => collectChosen d (t.insert c.1 c.2) ps
  | t, _ :: ps => collectChosen d t ps

/-- The names of the chosen answers by question, for all pages in the stack (`selectedOptions`). -/
def chosenAnswers (d : Dialog) : Except Fault (Table String (List String)) :=
  collectChosen d ∅ d.stack.pages

/-- The page at the end, if it is the current one. -/
def completePage (d : Dialog) : Except Fault CompletePage :=
  match d.topComplete? with
  | some p => .ok p
  | none => .error .notComplete

/-- Asks the dialog (`name`, `isManualRequested`, `selectedOptions`, `subpackages`, `plugins`,
`renames`, `tweaks`). -/
def query (d : Dialog) : Query → Except Fault Reply
  | .name => .ok (.name d.name)
  | .manual => .ok (.manual d.manual)
  | .answers => d.chosenAnswers.map .answers
  | .packages => d.completePage.map fun p => .packages p.checkedPackages
  | .plugins => d.completePage.map fun p => .plugins p.checkedPlugins
  | .renames => d.completePage.map fun p => .renames p.renames
  | .tweaks => d.completePage.map fun p => .tweaks p.tweaks

end ModWizard.Dialog
