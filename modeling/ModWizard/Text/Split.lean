/-!
# Splitting

The pieces of a text between the characters that divide it, empty pieces included.
-/

namespace ModWizard.Text

/-- The pieces of a text between characters that divide it. -/
def splitAt (divides : Char → Bool) : List Char → List (List Char)
  | [] => [[]]
  | c :: cs =>
    if divides c then [] :: splitAt divides cs
    else
      match splitAt divides cs with
      | [] => [[c]]
      | p :: ps => (c :: p) :: ps

@[simp] theorem splitAt_nil (divides : Char → Bool) : splitAt divides [] = [[]] := rfl

/-- There is always a piece, if only an empty one. -/
theorem splitAt_ne_nil (divides : Char → Bool) (cs : List Char) : splitAt divides cs ≠ [] := by
  cases cs with
  | nil => simp
  | cons c cs =>
    unfold splitAt
    split
    · simp
    · split <;> simp

/-- The pieces of a text between slashes. -/
def splitSlashes (s : String) : List String := (splitAt (· == '/') s.toList).map String.ofList

/-- The part of a path behind its last slash. -/
def lastName (path : String) : String := (splitSlashes path).getLast?.getD ""

end ModWizard.Text
