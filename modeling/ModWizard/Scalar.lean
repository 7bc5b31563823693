/-!
# Scalars

The values that settings have: texts, whole numbers, truth values, or nothing.
-/

namespace ModWizard

/-- A value of a setting. -/
inductive Scalar
  | text (s : String)
  | int (n : Int)
  | bool (b : Bool)
  | absent
  deriving DecidableEq, Inhabited

namespace Scalar

/-- A whole number in decimal, with a sign if it is negative. -/
def decimal : Int → String
  | .ofNat n => String.ofList (Nat.toDigits 10 n)
  | .negSucc n => "-" ++ String.ofList (Nat.toDigits 10 (n + 1))

/-- The text that stands for a value. -/
def toText : Scalar → String
  | text s => s
  | int n => decimal n
  | bool true => "True"
  | bool false => "False"
  | absent => "None"

/-- Whether a value counts as a yes: not nothing, no, zero or the empty text. -/
def holds : Scalar → Bool
  | text s => s ≠ ""
  | int n => n ≠ 0
  | bool b => b
  | absent => false

end Scalar

end ModWizard
