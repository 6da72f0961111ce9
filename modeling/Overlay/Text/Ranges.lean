/-!
# Character sets given by ranges

A set of characters is a list of closed ranges of code points, in ascending order. The order lets
a look-up stop at the first range behind the character.
-/

namespace Overlay.Text

/-- Whether no range is empty, and every range starts behind the ones in front of it and not in
front of `floor`. -/
def ascends (floor : Nat) : List (Nat × Nat) → Bool
  | [] => true
  | (low, high) :: rest => floor ≤ low && low ≤ high && ascends (high + 1) rest

/-- Closed ranges of code points, ascending and disjoint. -/
structure Ranges where
  ranges : List (Nat × Nat)
  ascending : ascends 0 ranges = true

namespace Ranges

/-- Whether one of the ranges holds the code point `n`. -/
def holds : List (Nat × Nat) → Nat → Bool
  | [], _ => false
  | (low, high) :: rest, n =>
    if n < low then false
    else if n ≤ high then true
    else holds rest n

/-- Whether a range holds the character `c`. -/
def contains (rs : Ranges) (c : Char) : Bool := holds rs.ranges c.toNat

end Ranges

end Overlay.Text
