import ModWizard.Text.Number
import ModWizard.Text.Split

/-!
# Versions

The organizer reads versions from texts and compares them (`VersionInfo`).  How it does so is left
open here: a scheme is any way to read versions, with an order in which any two of them can be
compared.  Versions at the same place of the order may be written differently.

## What is transcribed

* `VersionScheme.standing?` is what `compareGameVersion` and `compareSEVersion` do with two texts.
* `VersionScheme.isMet?` is the comparison that `check_version` makes.
* The scheme of dotted numbers, `VersionScheme.dotted`, stands for no part of the program.  It is an
  example of a scheme: the one for which samples are evaluated.
-/

namespace ModWizard

/-- A way to read versions and to compare them. -/
structure VersionScheme where
  /-- what texts are read as -/
  Value : Type
  /-- reads a version, if the text is one -/
  read? : String → Option Value
  /-- how a version is written (`canonicalString`) -/
  text : Value → String
  /-- whether a version is at most another -/
  le : Value → Value → Bool
  le_total : ∀ v w, le v w = true ∨ le w v = true
  le_trans : ∀ u v w, le u v = true → le v w = true → le u w = true

namespace VersionScheme

variable (S : VersionScheme)

/-- How a present version stands to a wanted one: `1` above it, `-1` below it, `0` at it. -/
def standing (wanted present : S.Value) : Int :=
  if !S.le present wanted then 1 else if !S.le wanted present then -1 else 0

/-- How a present version stands to a wanted one, as they are written. -/
def standing? (wanted present : String) : Option Int := do
  let w ← S.read? wanted
  let p ← S.read? present
  return S.standing w p

/-- Whether a present version is at least a wanted one, as they are written. -/
def isMet? (wanted present : String) : Option Bool := do
  let w ← S.read? wanted
  let p ← S.read? present
  return S.le w p

end VersionScheme

/-! ## Dotted numbers -/

/-- A version of numbers divided by points: how it is written, and its numbers. -/
structure Dotted where
  text : String
  numbers : List Nat
  deriving DecidableEq, Inhabited

namespace Dotted

/-- A list of numbers without the zeros at its end, which say nothing. -/
def dropZeros (ns : List Nat) : List Nat := (ns.reverse.dropWhile (· == 0)).reverse

/-- The number at the start of a piece, zero if there is none. -/
def pieceNumber? (piece : List Char) : Option Nat := Text.number? (piece.takeWhile Char.isDigit)

/-- Reads a version, unless a number in it has too many digits. -/
def ofString? (s : String) : Option Dotted :=
  ((Text.splitAt (· == '.') s.toList).mapM pieceNumber?).map fun ns => ⟨s, dropZeros ns⟩

end Dotted

/-- The scheme of dotted numbers: they are compared one after the other. -/
def VersionScheme.dotted : VersionScheme where
  Value := Dotted
  read? := Dotted.ofString?
  text := Dotted.text
  le v w := !decide (w.numbers < v.numbers)
  le_total v w := by
    simp only [Bool.not_eq_true', decide_eq_false_iff_not]
    exact List.le_total v.numbers w.numbers
  le_trans u v w h h' := by
    simp only [Bool.not_eq_true', decide_eq_false_iff_not] at h h' ⊢
    exact List.le_trans h h'

end ModWizard
