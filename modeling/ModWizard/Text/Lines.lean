import ModWizard.Text.Split

/-!
# Lines

A line ends at a line feed, at a carriage return, or at a carriage return followed by a
line feed.  What follows the last line end is a line only if it is not empty.
-/

namespace ModWizard.Text

/-- A text in which every line end is a line feed. -/
def unifyNewlines : List Char → List Char
  | [] => []
  | '\r' :: '\n' :: cs => '\n' :: unifyNewlines cs
  | '\r' :: cs => '\n' :: unifyNewlines cs
  | c :: cs => c :: unifyNewlines cs

/-- Some pieces without the last if it is empty. -/
def dropEmptyLast (ps : List (List Char)) : List (List Char) :=
  if ps.getLast? = some [] then ps.dropLast else ps

/-- The lines of a text, without their ends. -/
def lines (s : String) : List (List Char) :=
  dropEmptyLast (splitAt (· == '\n') (unifyNewlines s.toList))

/-- The text of some lines, with a line feed between any two. -/
def joinLines (ls : List String) : String := "\n".intercalate ls

end ModWizard.Text
