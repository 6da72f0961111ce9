import Overlay.Numeric.Binary64
import Overlay.Numeric.Digits

/-!
# Floating-point numbers in decimal texts

The number nearest to the one that a text writes with a sign, a point and an exponent, all of which
may be missing.
-/

namespace Overlay.Numeric.Binary64

/-- The parts of a decimal text: its sign, the digits in front of the point and behind it, and the
exponent. -/
structure DecimalText where
  negative : Bool
  whole : List Char
  fraction : List Char
  exponent : Int
deriving Repr

/-- The number nearest to the one that a text writes. -/
def ofText (t : DecimalText) : Binary64 :=
  ofDecimal t.negative (value (t.whole ++ t.fraction)) (t.exponent - t.fraction.length)

/-- A sign and what follows it. -/
def splitSign : List Char → Bool × List Char
  | '-' :: cs => (true, cs)
  | '+' :: cs => (false, cs)
  | cs => (false, cs)

/-- The exponent behind its letter: a sign that may be missing, and digits. -/
def exponent? (cs : List Char) : Option Int :=
  let (negative, ds) := splitSign cs
  if ds.isEmpty || !ds.all isDigit then none
  else some (if negative then -(Numeric.value ds : Int) else Numeric.value ds)

/-- The parts of a text that is a decimal from its first character to its last. -/
def decimalText? (cs : List Char) : Option DecimalText :=
  let (negative, cs) := splitSign cs
  let whole := cs.takeWhile isDigit
  let (fraction, cs) := match cs.dropWhile isDigit with
    | '.' :: cs => (cs.takeWhile isDigit, cs.dropWhile isDigit)
    | cs => ([], cs)
  if whole.isEmpty && fraction.isEmpty then none
  else
    match cs with
    | [] => some ⟨negative, whole, fraction, 0⟩
    | c :: cs =>
      if c = 'e' ∨ c = 'E' then (exponent? cs).map fun e => ⟨negative, whole, fraction, e⟩
      else none

/-- The number nearest to the one that a whole text writes; infinity if that is too great. -/
def parse? (cs : List Char) : Option Binary64 := (decimalText? cs).map ofText

end Overlay.Numeric.Binary64
