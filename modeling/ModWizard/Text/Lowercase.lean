import ModWizard.Text.Casing

/-!
# Small letters

The text in small letters.  Every character is taken alone, except the capital sigma,
which at the end of a word has a form of its own.
-/

namespace ModWizard.Text

/-- Whether the nearest character that is not passed over is a letter with a case. -/
def meetsCased : List Char → Bool
  | [] => false
  | c :: cs => if isCaseIgnorable c then meetsCased cs else isCased c

/-- The small form of one character. -/
def lowerChar (c : Char) : List Char :=
  if c.toNat = 0x130 then ['i', Char.ofNat 0x307] else [Char.ofNat (smallLetter c.toNat caseRuns)]

/-- The small form of a capital sigma: the final form after a letter and before none.
The text before it is given backwards. -/
def lowerSigma (before after : List Char) : Char :=
  if meetsCased before && !meetsCased after then 'ς' else 'σ'

/-- A text in small letters, given what stands before it, backwards. -/
def lowerAfter (before : List Char) : List Char → List Char
  | [] => []
  | c :: cs =>
    (if c = 'Σ' then [lowerSigma before cs] else lowerChar c) ++ lowerAfter (c :: before) cs

/-- A text in small letters. -/
def lower (s : String) : String := String.ofList (lowerAfter [] s.toList)

/-- Whether two texts differ at most in the case of their letters. -/
def sameLetters (s t : String) : Bool := lower s == lower t

theorem sameLetters_iff {s t : String} : sameLetters s t ↔ lower s = lower t := by
  simp [sameLetters]

@[simp] theorem sameLetters_self (s : String) : sameLetters s s = true := by
  simp [sameLetters]

end ModWizard.Text
