/-!
# Decimal digits

Natural numbers as digits, and the integers of 64 bits as text.

* `digits` and `value` turn a number into its digits and back.
* `readInt64?` reads an integer with an optional sign that fits in 64 bits.
-/

namespace Overlay.Numeric

/-- Whether `c` is a decimal digit. -/
def isDigit (c : Char) : Bool := '0' ≤ c && c ≤ '9'

/-- The decimal digits of `n` without leading zeros; zero has the digit 0. -/
def digits (n : Nat) : List Char := Nat.toDigits 10 n

/-- The number that decimal digits write. -/
def value (ds : List Char) : Nat := ds.foldl (fun n c => 10 * n + (c.toNat - '0'.toNat)) 0

/-- How many decimal digits `n` has. -/
def width (n : Nat) : Nat := (digits n).length

/-! ## Integers of 64 bits -/

/-- The least integer of 64 bits. -/
def leastInt64 : Int := -9223372036854775808

/-- The greatest integer of 64 bits. -/
def greatestInt64 : Int := 9223372036854775807

/-- Whether `n` fits in 64 bits, one of them for the sign. -/
def FitsInt64 (n : Int) : Prop := leastInt64 ≤ n ∧ n ≤ greatestInt64

instance (n : Int) : Decidable (FitsInt64 n) := inferInstanceAs (Decidable (_ ∧ _))

/-- The integer that a text writes: an optional sign and digits, within 64 bits. -/
def readInt64? (cs : List Char) : Option Int :=
  let (negative, ds) := match cs with
    | '-' :: rest => (true, rest)
    | '+' :: rest => (false, rest)
    | _ => (false, cs)
  if ds.isEmpty || !ds.all isDigit then none
  else
    let n : Int := if negative then -(value ds : Int) else value ds
    if FitsInt64 n then some n else none

end Overlay.Numeric
