import ModWizard.Text.Blank
import ModWizard.Text.WordChar
import ModWizard.Tweak.Basic

/-!
# Assignments in a file of console commands

How a line is read as an assignment.  A comment runs from a semicolon to the end of the line.  A
line that begins with `;-` and a word character is a disabled command.  The rest is a keyword, a
setting and a value, divided by blanks; after the keyword `set`, the word `to` stands between
setting and value.

The patterns that are transcribed are `reSet`, `reSetGS` and `reSetNGS` (`command?`), `reDeleted`
(`disabled?`) and `reComment` (`bare`).  Each is written out as the search that matching it comes
to, with the choices in the order in which they are tried.
-/

namespace ModWizard

/-- A keyword, the setting it assigns and the text of the value. -/
structure Assignment where
  keyword : Keyword
  setting : String
  value : String
  deriving DecidableEq, Inhabited

namespace Assignment

variable {α : Type}

/-- Whether a character matches a small ASCII letter in any case.  The long s is a form
of s; the dotless and the dotted capital i are forms of i. -/
def matchesLetter (small c : Char) : Bool :=
  c.toLower == small || (small == 's' && c == 'ſ') || (small == 'i' && (c == 'ı' || c == 'İ'))

/-- What follows a word at the start of a text, in any letter case. -/
def afterWord : List Char → List Char → Option (List Char)
  | [], cs => some cs
  | _ :: _, [] => none
  | w :: ws, c :: cs => if matchesLetter w c then afterWord ws cs else none

/-- Reads one blank or more and what follows.  The longest row of blanks is tried first. -/
def afterBlanks (next : List Char → Option α) : List Char → Option α
  | [] => none
  | c :: cs => if Text.isBlank c then (afterBlanks next cs).or (next cs) else none

/-- Splits a text behind its shortest beginning, of one character or more, after which the
rest can be read. -/
def shortest (next : List Char → Option α) : List Char → Option (List Char × α)
  | [] => none
  | c :: cs =>
    match next cs with
    | some a => some ([c], a)
    | none => (shortest next cs).map fun p => (c :: p.1, p.2)

/-- Reads one blank or more; the rest without blanks at its start is the value. -/
def value? : List Char → Option (List Char)
  | [] => none
  | c :: cs => if Text.isBlank c then some (Text.trimStart cs) else none

/-- Reads what stands between a setting and its value, and the value. -/
def separated? : Keyword → List Char → Option (List Char)
  | .set => afterBlanks fun cs => (afterWord ['t', 'o'] cs).bind value?
  | .setGS => value?
  | .setNumericGameSetting => value?

/-- Reads a command of one keyword. -/
def command? (k : Keyword) (cs : List Char) : Option Assignment :=
  ((afterWord k.key.toList (Text.trimStart cs)).bind (afterBlanks (shortest (separated? k)))).map
    fun p => ⟨k, String.ofList p.1, String.ofList p.2⟩

/-- Reads a command: the first keyword with which the text can be read (`_parse_obse_line`). -/
def ofChars? (cs : List Char) : Option Assignment := Keyword.all.findSome? (command? · cs)

end Assignment

/-- A line of a file of console commands, without blanks at its end. -/
structure Line where
  text : String
  /-- whether the line is a disabled command -/
  disabled : Bool
  /-- what the line assigns, if it is a command -/
  assignment : Option Assignment
  deriving DecidableEq, Inhabited

namespace Line

/-- The text of a disabled command, behind its mark. -/
def disabled? : List Char → Option (List Char)
  | ';' :: '-' :: c :: cs => if Text.isWordChar c then some (c :: cs) else none
  | _ => none

/-- A text up to its comment, without blanks at either end. -/
def bare (cs : List Char) : List Char := Text.trim (cs.takeWhile (· ≠ ';'))

/-- Reads a line. -/
def ofChars (cs : List Char) : Line :=
  let text := Text.trimEnd cs
  { text := String.ofList text
    disabled := (disabled? text).isSome
    assignment := Assignment.ofChars? (bare ((disabled? text).getD text)) }

end Line

end ModWizard
