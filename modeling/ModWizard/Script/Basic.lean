import ModWizard.Requirement
import ModWizard.Tweak.Basic

/-!
# Scripts

A wizard script as a graph of nodes.  Some nodes ask the user a question, some ask for versions,
some end the script.  The graph is what the interpreter of scripts makes of a script's text; its
contexts are the nodes.
-/

namespace ModWizard

/-- A possible answer to a question. -/
structure Answer where
  name : String
  description : String
  image : Option String
  /-- the node to which this answer leads, if it leads to one of its own -/
  leadsTo : Option String
  deriving DecidableEq, Inhabited

/-- How many answers a question takes. -/
inductive Question.Kind
  /-- exactly one -/
  | one
  /-- any number -/
  | many
  /-- none, for the answers are only shown -/
  | display
  deriving DecidableEq, Inhabited

/-- A question to the user. -/
structure Question where
  kind : Question.Kind
  description : String
  answers : List Answer
  /-- the places of the answers that the script proposes; those below zero count from the end -/
  proposed : List Int
  /-- the node that follows if no chosen answer leads elsewhere, if there is one -/
  next : Option String
  deriving DecidableEq, Inhabited

/-- The node that follows some chosen answers: where the first that leads anywhere leads. -/
def Question.follow (q : Question) (chosen : List Answer) : Option String :=
  (chosen.findSome? (·.leadsTo)).or q.next

/-- The place that a number stands for, if there is an answer at it. -/
def Question.place? (q : Question) (i : Int) : Option Nat :=
  let j := if i < 0 then i + q.answers.length else i
  if 0 ≤ j ∧ j < q.answers.length then some j.toNat else none

/-- The places of the proposed answers, if there is an answer at each of them. -/
def Question.proposals? (q : Question) : Option (List Nat) := q.proposed.mapM q.place?

/-- What a script that is done wants installed. -/
structure Outcome where
  packages : List String
  plugins : List String
  notes : List String
  renames : Table String String
  tweaks : Table String (List Tweak)
  deriving DecidableEq

namespace Script

/-- What a node does.  Also a node that ends the script may name one that follows. -/
inductive Body
  /-- goes on to another node -/
  | step (next : Option String)
  | question (q : Question)
  | requirement (r : Requirement) (next : Option String)
  | done (o : Outcome) (next : Option String)
  | cancel (message : String) (next : Option String)
  /-- fails -/
  | error (message : String)
  /-- stops without an end -/
  | stuck (next : Option String)
  deriving DecidableEq

/-- A node.  The questions of nodes with the same key share a page. -/
structure Node where
  key : String
  body : Body
  deriving DecidableEq

end Script

/-- A script: its nodes by name, and the name of the first. -/
structure Script where
  start : String
  nodes : Table String Script.Node
  deriving DecidableEq

/-- The node of a name.  Where no node is named there is none. -/
def Script.node? (s : Script) (id : Option String) : Option Script.Node := id.bind s.nodes.get?

end ModWizard
