/-!
# Binary floating point

Numbers of 64 bits in the binary format with a sign, 11 bits of exponent and 52 of fraction.

* A finite number is `± m * 2 ^ q` with `m < 2 ^ 53` (`significand`, `scale`).
* `ofRatio` rounds a quotient of natural numbers to the nearest number, a tie to the even one; every
  operation rounds its exact result with it.
-/

namespace Overlay.Numeric

/-- A floating-point number, given by its bits. Equality of bits is not equality of numbers: see
`Binary64.equal`. -/
structure Binary64 where
  bits : UInt64
deriving DecidableEq, Repr, Inhabited

namespace Binary64

/-! ## Fields -/

/-- Whether the sign bit is set. -/
def negative (x : Binary64) : Bool := Nat.pow 2 63 ≤ x.bits.toNat

/-- The bits without the sign. -/
def magnitude (x : Binary64) : Nat := x.bits.toNat % Nat.pow 2 63

/-- The bits of infinity. -/
def infinityBits : Nat := 2047 * Nat.pow 2 52

/-- Whether the number is one of the two infinities. -/
def isInfinite (x : Binary64) : Bool := x.magnitude == infinityBits

/-- Whether the bits stand for no number. -/
def isNaN (x : Binary64) : Bool := infinityBits < x.magnitude

/-- The exponent field of a finite number; zero and one stand for the same scale. -/
def exponentField (x : Binary64) : Nat := x.magnitude / Nat.pow 2 52

/-- The natural number that the scale multiplies. -/
def significand (x : Binary64) : Nat :=
  let fraction := x.magnitude % Nat.pow 2 52
  if x.exponentField = 0 then fraction else Nat.pow 2 52 + fraction

/-- The power of two that multiplies the significand. -/
def scale (x : Binary64) : Int := (max x.exponentField 1 : Int) - 1075

/-- The number with the sign and the magnitude bits given. -/
def ofMagnitude (negative : Bool) (magnitude : Nat) : Binary64 :=
  ⟨.ofNat (if negative then Nat.pow 2 63 + magnitude else magnitude)⟩

/-- Positive zero. -/
def zero : Binary64 := ⟨0⟩

/-- The infinity with the sign given. -/
def infinity (negative : Bool) : Binary64 := ofMagnitude negative infinityBits

/-- The number with the other sign. -/
def negate (x : Binary64) : Binary64 := ofMagnitude (!x.negative) x.magnitude

/-- Equality of numbers: both zeros are equal, and what is no number equals nothing. -/
def equal (x y : Binary64) : Bool :=
  !x.isNaN && !y.isNaN && (x.bits == y.bits || x.magnitude == 0 && y.magnitude == 0)

/-! ## Rounding -/

/-- The integer nearest to `a / b`, of two the even one. -/
def roundHalfEven (a b : Nat) : Nat :=
  let q := a / b
  let twice := 2 * (a % b)
  if twice < b ∨ twice = b ∧ q % 2 = 0 then q else q + 1

/-- The greatest `e` with `2 ^ e * b ≤ a`, for positive `a` and `b`. -/
def floorLog2Ratio (a b : Nat) : Int :=
  let e : Int := (a.log2 : Int) - b.log2
  if b * Nat.pow 2 e.toNat ≤ a * Nat.pow 2 (-e).toNat then e else e - 1

/-- The magnitude bits of the number nearest to `a / b`, of two the even one. What is too great
becomes infinity. -/
def roundRatio (a b : Nat) : Nat :=
  if a = 0 ∨ b = 0 then 0
  else
    let q := max (floorLog2Ratio a b - 52) (-1074)
    let m := roundHalfEven (a * Nat.pow 2 (-q).toNat) (b * Nat.pow 2 q.toNat)
    min ((q + 1074).toNat * Nat.pow 2 52 + m) infinityBits

/-- The number nearest to `± a / b`. -/
def ofRatio (negative : Bool) (a b : Nat) : Binary64 := ofMagnitude negative (roundRatio a b)

/-- The magnitude of a finite number as a quotient. -/
def ratio (x : Binary64) : Nat × Nat :=
  (x.significand * Nat.pow 2 x.scale.toNat, Nat.pow 2 (-x.scale).toNat)

/-! ## Operations -/

/-- The nearest number to a natural number. -/
def ofNat (n : Nat) : Binary64 := ofRatio false n 1

/-- The nearest number to `± n * 10 ^ e`. Exponents that only lead to zero or infinity are not
computed. -/
def ofDecimal (negative : Bool) (n : Nat) (e : Int) : Binary64 :=
  if n = 0 then ofMagnitude negative 0
  else
    let digits : Int := (Nat.toDigits 10 n).length
    if 310 < digits + e then infinity negative
    else if digits + e < -330 then ofMagnitude negative 0
    else ofRatio negative (n * Nat.pow 10 e.toNat) (Nat.pow 10 (-e).toNat)

/-- The product of two finite numbers. -/
def multiply (x y : Binary64) : Binary64 :=
  let (a, b) := x.ratio
  let (c, d) := y.ratio
  ofRatio (x.negative != y.negative) (a * c) (b * d)

/-- The quotient of two finite numbers, the second of which is not zero. -/
def divide (x y : Binary64) : Binary64 :=
  let (a, b) := x.ratio
  let (c, d) := y.ratio
  ofRatio (x.negative != y.negative) (a * d) (b * c)

end Binary64

end Overlay.Numeric
