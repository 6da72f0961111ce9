import Overlay.Numeric.Binary64
import Overlay.Numeric.Digits

/-!
# The shortest decimal of a floating-point number

A floating-point number is written with the fewest digits that read back as the same number; of
several such decimals the nearest one is taken.

* The reals that round to a number are an interval around it, with its ends when the significand is
  even (`Interval`).
* For one digit, two digits and so on, the two neighbours of the number on that decimal grid are
  tried; the first grid with a neighbour in the interval wins.
-/

namespace Overlay.Numeric.Shortest

/-- A decimal `digits * 10 ^ exponent`. -/
structure Scaled where
  digits : Nat
  exponent : Int
deriving DecidableEq, Repr

/-- The reals that round to a number: from `low / unit` to `high / unit` around `middle / unit`. -/
structure Interval where
  low : Nat
  middle : Nat
  high : Nat
  unit : Nat
  closed : Bool
deriving Repr

/-- The interval of a finite positive number. Below a power of two the numbers lie twice as close as
above it. -/
def interval (x : Binary64) : Interval :=
  let m := x.significand
  let narrow := m = Nat.pow 2 52 ∧ 1 < x.exponentField
  let up := Nat.pow 2 x.scale.toNat
  ⟨(4 * m - if narrow then 1 else 2) * up, 4 * m * up, (4 * m + 2) * up,
    4 * Nat.pow 2 (-x.scale).toNat, m % 2 = 0⟩

/-- Whether the interval holds `n * 10 ^ e`. -/
def Interval.holds (i : Interval) (n : Nat) (e : Int) : Bool :=
  let a := n * Nat.pow 10 e.toNat * i.unit
  let b := Nat.pow 10 (-e).toNat
  if i.closed then i.low * b ≤ a && a ≤ i.high * b else i.low * b < a && a < i.high * b

/-- The greatest `e` with `10 ^ e * b ≤ a`, for positive `a` and `b`. -/
def floorLog10Ratio (a b : Nat) : Int :=
  if b ≤ a then (width (a / b) : Int) - 1 else -(width ((b + a - 1) / a - 1) : Int)

/-- The decimal with `count` digits that is nearest to the number among its two neighbours, if the
interval holds it; `top` is the place of the first digit. -/
def neighbour? (i : Interval) (top : Int) (count : Nat) : Option Scaled :=
  let e := top - count + 1
  let a := i.middle * Nat.pow 10 (-e).toNat
  let b := i.unit * Nat.pow 10 e.toNat
  let below := a / b
  let nearest := Binary64.roundHalfEven a b
  let other := if nearest = below then below + 1 else below
  if i.holds nearest e then some ⟨nearest, e⟩
  else if i.holds other e then some ⟨other, e⟩
  else none

/-- The first hit on the grids with `count` and more digits, at most `more` of them. -/
def search (i : Interval) (top : Int) : (more count : Nat) → Option Scaled
  | 0, _ => none
  | more + 1, count =>
    match neighbour? i top count with
    | some d => some d
    | none => search i top more (count + 1)

/-- The decimal without the zeros at its end, of which there are at most `fuel`. -/
def Scaled.strip : (fuel : Nat) → Scaled → Scaled
  | 0, d => d
  | fuel + 1, d =>
    if d.digits ≠ 0 ∧ d.digits % 10 = 0 then strip fuel ⟨d.digits / 10, d.exponent + 1⟩ else d

/-- The shortest decimal of the magnitude of a finite number. Seventeen digits are always enough. -/
def ofMagnitude (x : Binary64) : Scaled :=
  if x.significand = 0 then ⟨0, 0⟩
  else
    let i := interval x
    let top := floorLog10Ratio i.middle i.unit
    ((search i top 17 1).getD ⟨0, 0⟩).strip 17

end Overlay.Numeric.Shortest
