/-!
# Written numbers

A number is written by a row of digits.  A row that is too long is neither written nor read, even if
it begins with zeros.
-/

namespace ModWizard.Text

/-- The most digits of a number that is written or read. -/
def maxDigits : Nat := 4300

/-- The number that some digits write. -/
def numberOf (ds : List Char) : Nat := ds.foldl (fun n d => 10 * n + (d.toNat - '0'.toNat)) 0

/-- Whether a number can be written in decimal: it does not have too many digits. -/
def isWritable (n : Nat) : Bool := (Nat.toDigits 10 n).length ≤ maxDigits

/-- Reads a number, unless it has too many digits. -/
def number? (ds : List Char) : Option Nat :=
  if ds.length ≤ maxDigits then some (numberOf ds) else none

theorem number?_of_length_le {ds : List Char} (h : ds.length ≤ maxDigits) :
    number? ds = some (numberOf ds) := if_pos h

end ModWizard.Text
