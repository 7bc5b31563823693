/-!
# Sets of code points

A set of code points as ranges with both ends included, in ascending order.
-/

namespace ModWizard.Text

/-- Ranges of code points, both ends included, in ascending order. -/
abbrev Ranges := List (Nat × Nat)

namespace Ranges

/-- Whether a code point is in one of the ranges.  The search ends at the first range
that begins after it. -/
def mem : Ranges → Nat → Bool
  | [], _ => false
  | (first, last) :: rs, n =>
    if n < first then false else if n ≤ last then true else mem rs n

@[simp] theorem mem_nil (n : Nat) : mem [] n = false := rfl

theorem mem_cons (r : Nat × Nat) (rs : Ranges) (n : Nat) :
    mem (r :: rs) n = if n < r.1 then false else if n ≤ r.2 then true else mem rs n := rfl

end Ranges

end ModWizard.Text
