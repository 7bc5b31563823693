import ModWizard.Dialog.Fault
import ModWizard.Path

/-!
# The page of a question

A list of answers with one current row, whose description and picture are shown beside it.  If the
question takes any number of answers, every row has a check mark.  A page is made once for a key and
asked again whenever the script comes back to that key.

Transcribed is `WizardInstallerSelectPage`, with the list of its answers as a row of values:
`create` is its constructor, `ask` is `update_context`, `chosen` and `depart` are `selectedOptions`
and `selected`.
-/

namespace ModWizard.Dialog

open Script (Stop)

/-- Pictures of the archive and where they were extracted to. -/
abbrev Images := Table Path Path

/-- What is shown beside the answers. -/
inductive Picture
  /-- nothing yet -/
  | unset
  | blank
  | file (path : String)
  deriving DecidableEq, Inhabited

/-- The picture of an answer's image: blank if it has none or if it was not extracted. -/
def Picture.ofImage (images : Images) : Option String → Picture
  | none => .blank
  | some s =>
    if s = "" then .blank
    else
      match images.get? (Path.ofString s) with
      | some p => .file p.text
      | none => .blank

/-- A row of the list: an answer, and a check mark if there is one. -/
structure Row where
  answer : Answer
  checked : Option Bool
  deriving DecidableEq, Inhabited

/-- Whether a row is checked. -/
def Row.isChecked (r : Row) : Bool := r.checked = some true

/-- The page of a question. -/
structure QuestionPage where
  /-- what the page was last asked to show -/
  asked : Stop
  title : String
  rows : List Row
  current : Option Nat
  /-- the description shown beside the list -/
  text : String
  picture : Picture
  /-- how often the list was given the focus -/
  focused : Nat
  /-- whether a double click on a row goes on -/
  doubleClick : Bool
  deriving DecidableEq

namespace QuestionPage

/-- The page with a row made current.  Description and picture change with the row
(`onCurrentItemChanged`). -/
def setCurrent (images : Images) (p : QuestionPage) (row : Nat) : QuestionPage :=
  if p.current = some row then p
  else
    match p.rows[row]? with
    | none => p
    | some r =>
      { p with
        current := some row
        text := r.answer.description
        picture := Picture.ofImage images r.answer.image }

/-- The page with the answers of a question in its rows.  If no row was current, the first
becomes it. -/
def fill (images : Images) (p : QuestionPage) (q : Question) : QuestionPage :=
  let p :=
    { p with
      title := q.description
      rows := List.zipWith (fun (r : Row) a => { r with answer := a }) p.rows q.answers }
  if p.current.isNone then p.setCurrent images 0 else p

/-- Asks the page to show what the script stopped at (`update_context`).  It can show a question
with as many answers as it has rows, and takes note of what it was asked in any case. -/
def ask (images : Images) (p : QuestionPage) (s : Stop) : QuestionPage × Option Fault :=
  let p := { p with asked := s }
  match s with
  | .question _ q =>
    if q.answers.length = p.rows.length then (p.fill images q, none) else (p, some .answerCount)
  | _ => (p, some .notAQuestion)

/-- The places of the answers with one of some names. -/
def placesOf (q : Question) (names : List String) : List Nat :=
  (q.answers.zipIdx.filter fun x => names.contains x.1.name).map (·.2)

/-- The places of the proposed answers, in order. -/
def proposedPlaces (q : Question) : Except Fault (List Nat) :=
  match q.kind with
  | .display => .ok []
  | _ =>
    match q.proposals? with
    | some ps => .ok ((List.range q.answers.length).filter ps.contains)
    | none => .error .noProposedAnswer

/-- The places of the answers to be chosen at first: the remembered ones, or, if nothing is
remembered, the proposed ones. -/
def presets (q : Question) (remembered : Option (List String)) : Except Fault (List Nat) :=
  match remembered with
  | some (n :: ns) => .ok (placesOf q (n :: ns))
  | _ => proposedPlaces q

/-- The page with some answers chosen: check marks if the question takes any number of
answers, the last of them current if it takes one. -/
def choose (images : Images) (p : QuestionPage) (kind : Question.Kind) (places : List Nat) :
    QuestionPage :=
  match kind with
  | .many =>
    { p with
      rows := p.rows.zipIdx.map fun x => { x.1 with checked := some (places.contains x.2) } }
  | .one => places.foldl (setCurrent images) p
  | .display => p

/-- The page of a question for the first time, before answers are chosen on it. -/
def blank (images : Images) (key : String) (q : Question) : QuestionPage :=
  let p : QuestionPage :=
    { asked := .question key q
      title := ""
      rows := q.answers.map fun a => ⟨a, none⟩
      current := none
      text := ""
      picture := .unset
      focused := 0
      doubleClick := q.kind = .one }
  p.fill images q

/-- The page of a question for the first time, as the constructor of `WizardInstallerSelectPage`
makes it. -/
def create (images : Images) (remembered : Option (List String)) (key : String) (q : Question) :
    Except Fault QuestionPage :=
  (presets q remembered).map ((blank images key q).choose images q.kind)

/-- The page with the check mark of a row set, if the row has one. -/
def setChecked (p : QuestionPage) (row : Nat) (on : Bool) : QuestionPage :=
  { p with rows := p.rows.modify row fun r => { r with checked := r.checked.map fun _ => on } }

/-- The page with the focus given to its list. -/
def focus (p : QuestionPage) : QuestionPage := { p with focused := p.focused + 1 }

/-- Whether the page takes one answer. -/
def takesOne (p : QuestionPage) : Bool :=
  match p.asked with
  | .question _ q => q.kind = .one
  | _ => false

/-- The answer of the current row. -/
def currentAnswer? (p : QuestionPage) : Option Answer :=
  (p.current.bind fun i => p.rows[i]?).map (·.answer)

/-- The chosen answers (`selectedOptions`): the current one if the page takes one, else the checked
ones. -/
def chosen (p : QuestionPage) : Except Fault (List Answer) :=
  if p.takesOne then
    match p.currentAnswer? with
    | some a => .ok [a]
    | none => .error .noCurrentAnswer
  else .ok ((p.rows.filter (·.isChecked)).map (·.answer))

/-- Where a page leads: the next node, if there is one, and the answers given if the question
takes any. -/
structure Departure where
  next : Option String
  given : Option (List Answer)
  deriving DecidableEq

/-- Where the page leads with what is chosen on it (`selected`). -/
def depart (p : QuestionPage) : Except Fault Departure :=
  match p.asked with
  | .question _ q =>
    match q.kind with
    | .display => .ok ⟨q.next, none⟩
    | _ => p.chosen.map fun as => ⟨q.follow as, some as⟩
  | s => .ok ⟨s.next?, none⟩

/-- The description of the question that the page was last asked to show. -/
def description? (p : QuestionPage) : Except Fault String :=
  match p.asked with
  | .question _ q => .ok q.description
  | _ => .error .notAQuestion

end QuestionPage

end ModWizard.Dialog
