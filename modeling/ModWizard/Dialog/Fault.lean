import ModWizard.Script.Run

/-!
# Faults of the dialog

Why an action in the dialog, or a question to it, fails.
-/

namespace ModWizard.Dialog

inductive Fault
  /-- the page takes one answer, and none is current -/
  | noCurrentAnswer
  /-- the script proposes an answer that is not there -/
  | noProposedAnswer
  /-- the page of a question was asked to show something else -/
  | notAQuestion
  /-- the page was asked to show a question with another number of answers -/
  | answerCount
  /-- there is no page for what the script stopped at -/
  | noPage
  /-- a version that is to be shown or compared cannot be read -/
  | unreadableVersion
  /-- the extender's version is asked for, and there is no extender -/
  | noExtender
  /-- the page at the end has not been reached -/
  | notComplete
  /-- the script does not come to a stop -/
  | script (f : Script.Fault)
  deriving DecidableEq, Inhabited

end ModWizard.Dialog
