import ModWizard.Dialog.CompletePage
import ModWizard.Dialog.RequirementPage

/-!
# The stack of pages

Pages one upon the other, one of them current.  The page of a question stands in the stack
once: added again, it moves to the end.  This is the `QStackedWidget` of the dialog, as far as it is
used: `addWidget`, `removeWidget` and `setCurrentIndex`.
-/

namespace ModWizard.Dialog

/-- A page.  The page of a question is known by its key.  The last two are
`WizardInstallerCancelPage` and `WizardInstallerErrorPage`. -/
inductive Page
  | question (key : String)
  | requirement (p : RequirementPage)
  | complete (p : CompletePage)
  | cancelled (message : String)
  | failed (message : String)
  deriving DecidableEq

/-- Pages, and the place of the current one if there is one. -/
structure Stack where
  pages : List Page
  current : Option Nat
  deriving DecidableEq

namespace Stack

/-- The stack without pages. -/
def empty : Stack := ⟨[], none⟩

/-- The current page. -/
def top? (s : Stack) : Option Page := s.current.bind fun i => s.pages[i]?

/-- The place of a question's page. -/
def place? (s : Stack) : Page → Option Nat
  | .question k => s.pages.findIdx? (· = .question k)
  | _ => none

/-- The current place after a page at a place was removed: one lower if the page was before
it, or if it was the current page and the last. -/
def currentAfterRemoval (s : Stack) (i : Nat) : Option Nat :=
  s.current.bind fun c =>
    if i < c || (i = c && c + 1 = s.pages.length) then
      match c with
      | 0 => none
      | c + 1 => some c
    else some c

/-- The stack without the page at a place. -/
def remove (s : Stack) (i : Nat) : Stack := ⟨s.pages.eraseIdx i, s.currentAfterRemoval i⟩

/-- The stack with a page added at its end.  The first page of a stack becomes current. -/
def add (s : Stack) (p : Page) : Stack :=
  let s :=
    match s.place? p with
    | some i => s.remove i
    | none => s
  ⟨s.pages ++ [p], if s.pages.isEmpty then some 0 else s.current⟩

/-- The stack with a page added at its end and made current. -/
def push (s : Stack) (p : Page) : Stack :=
  let s := s.add p
  { s with current := some (s.pages.length - 1) }

@[simp] theorem current_push (s : Stack) (p : Page) :
    (s.push p).current = some ((s.push p).pages.length - 1) := rfl

theorem pages_push_of_place?_eq_none {s : Stack} {p : Page} (h : s.place? p = none) :
    (s.push p).pages = s.pages ++ [p] := by
  simp [push, add, h]

theorem pages_push_of_place?_eq_some {s : Stack} {p : Page} {i : Nat} (h : s.place? p = some i) :
    (s.push p).pages = s.pages.eraseIdx i ++ [p] := by
  simp [push, add, h, remove]

/-- The stack without its current page, unless that is the first. -/
def pop (s : Stack) : Stack :=
  match s.current with
  | some (i + 1) => s.remove (i + 1)
  | _ => s

theorem pop_of_current_eq_zero {s : Stack} (h : s.current = some 0) : s.pop = s := by
  simp [pop, h]

theorem pop_of_current_eq_succ {s : Stack} {i : Nat} (h : s.current = some (i + 1)) :
    s.pop = s.remove (i + 1) := by
  simp [pop, h]

/-- The stack with the current page changed. -/
def modifyTop (s : Stack) (f : Page → Page) : Stack :=
  match s.current with
  | some i => { s with pages := s.pages.modify i f }
  | none => s

end Stack

end ModWizard.Dialog
