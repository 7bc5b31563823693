import ModWizard.Script.Basic

/-!
# Runs of scripts

A script runs until there is something to show: a question, a requirement that is not met,
or an end.  Steps are followed, and requirements that are met are passed over.
-/

namespace ModWizard.Script

/-- What a script stops at. -/
inductive Stop
  | question (key : String) (q : Question)
  | requirement (key : String) (r : Requirement) (next : Option String)
  | done (key : String) (o : Outcome) (next : Option String)
  | cancel (key : String) (message : String) (next : Option String)
  | error (message : String)
  | stuck (key : String) (next : Option String)
  deriving DecidableEq

/-- The key of the node at which a script stopped.  A failure has none. -/
def Stop.key? : Stop → Option String
  | .question k _ => some k
  | .requirement k .. => some k
  | .done k .. => some k
  | .cancel k .. => some k
  | .error _ => none
  | .stuck k _ => some k

/-- The node that follows a stop if nothing is chosen at it. -/
def Stop.next? : Stop → Option String
  | .question _ q => q.next
  | .requirement _ _ next => next
  | .done _ _ next => next
  | .cancel _ _ next => next
  | .error _ => none
  | .stuck _ next => next

/-- Why a script does not come to a stop. -/
inductive Fault
  /-- there is no node of the name, or no name -/
  | noNode
  /-- the script goes round in steps without end -/
  | endless
  /-- too many requirements are passed over -/
  | tooDeep
  /-- a version that is asked for, or one that is present, cannot be read -/
  | unreadableVersion
  deriving DecidableEq, Inhabited

/-- Follows steps from a node, passing at most a number of nodes, to what is no step. -/
def followWithin (s : Script) : Nat → Option String → Except Fault Stop
  | 0, _ => .error .endless
  | n + 1, id =>
    match s.node? id with
    | none => .error .noNode
    | some node =>
      match node.body with
      | .step next => followWithin s n next
      | .question q => .ok (.question node.key q)
      | .requirement r next => .ok (.requirement node.key r next)
      | .done o next => .ok (.done node.key o next)
      | .cancel m next => .ok (.cancel node.key m next)
      | .error m => .ok (.error m)
      | .stuck next => .ok (.stuck node.key next)

/-- Follows steps from a node (`exec_until` of the interpreter).  A row of steps with more nodes
than there are has passed one twice, and goes round. -/
def follow (s : Script) (id : Option String) : Except Fault Stop :=
  s.followWithin (s.nodes.entries.length + 1) id

/-- Runs a script from a node, making at most a number of halts: at requirements that are met, and
at what is shown.  Behind a requirement that is met `_exec_until` calls itself, so that number is
how much room the call stack has for it. -/
def runWithin (s : Script) (met : Requirement → Option Bool) :
    Nat → Option String → Except Fault Stop
  | 0, _ => .error .tooDeep
  | n + 1, id =>
    match s.follow id with
    | .ok (.requirement k r next) =>
      match met r with
      | none => .error .unreadableVersion
      | some true => runWithin s met n next
      | some false => .ok (.requirement k r next)
    | x => x

/-- From where a script is run. -/
inductive Source
  /-- from its first node, when the dialog is opened (`exec`) -/
  | opening
  /-- from the node to which a page leads, when the dialog goes on (`nextClicked`) -/
  | page (next : Option String)
  deriving DecidableEq, Inhabited

/-- The node from which a script is run. -/
def Source.node (s : Script) : Source → Option String
  | opening => some s.start
  | page next => next

/-- How many requirements can be passed over in a run. -/
def Source.room (host : Host) : Source → Nat
  | opening => host.openingRoom
  | page _ => host.goingRoom

/-- Runs a script to its next stop (`_exec_until`). -/
def run (s : Script) (org : Organizer) (source : Source) : Except Fault Stop :=
  s.runWithin (Requirement.isMet? org) (source.room org.host + 1) (source.node s)

end ModWizard.Script
