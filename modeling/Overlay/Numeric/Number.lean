import Overlay.Numeric.Shortest

/-!
# Numbers

Numbers keep the decimal digits they are written with, however many these are.

* A finite number is `± coefficient * 10 ^ exponent` in normal form: the coefficient does not end
  with a zero, and zero is written in one way. Equal numbers are therefore the same.
* `Number.parse?` reads what configuration texts and conversions accept, `Number.render` writes the
  canonical text.
* Exponents fit in 64 bits; a text whose exponent does not is no number.
-/

namespace Overlay.Numeric

/-! ## Decimals -/

/-- A finite decimal number in normal form. -/
structure Decimal where
  negative : Bool
  coefficient : Nat
  exponent : Int
  fits : FitsInt64 exponent
  normal : coefficient % 10 ≠ 0 ∨ coefficient = 0 ∧ negative = false ∧ exponent = 0
deriving DecidableEq, Repr

/-- A number without the zeros at the end of its decimal form, and how many these are. -/
def stripZeros (n : Nat) : Nat × Nat :=
  if _h : n ≠ 0 ∧ n % 10 = 0 then
    let (m, k) := stripZeros (n / 10)
    (m, k + 1)
  else (n, 0)
termination_by n
decreasing_by omega

theorem stripZeros_fst_mod (n : Nat) (h : n ≠ 0) : (stripZeros n).1 % 10 ≠ 0 := by
  induction n using Nat.strongRecOn with
  | ind n ih =>
    rw [stripZeros]
    split
    · rename_i hn
      exact ih (n / 10) (by omega) (by omega)
    · rename_i hn
      simp only
      omega

theorem stripZeros_mul (n : Nat) : (stripZeros n).1 * Nat.pow 10 (stripZeros n).2 = n := by
  induction n using Nat.strongRecOn with
  | ind n ih =>
    rw [stripZeros]
    split
    · rename_i hn
      have h := ih (n / 10) (by omega)
      rw [Nat.pow_eq, Nat.pow_succ, ← Nat.pow_eq, ← Nat.mul_assoc, h]
      omega
    · simp

namespace Decimal

/-- Zero, which has no sign. -/
def zero : Decimal := ⟨false, 0, 0, by decide, .inr ⟨rfl, rfl, rfl⟩⟩

/-- The number `± n * 10 ^ e` in normal form. An exponent that the zeros of `n` would carry past 64
bits stays at their end. -/
def ofScaled (negative : Bool) (n : Nat) (e : Int) (h : FitsInt64 e) : Decimal :=
  if hn : n = 0 then zero
  else
    { negative
      coefficient := (stripZeros n).1
      exponent := min (e + (stripZeros n).2) greatestInt64
      fits := by
        unfold FitsInt64 leastInt64 greatestInt64 at *
        omega
      normal := .inl (stripZeros_fst_mod n hn) }

/-- The number with the other sign; zero stays as it is. -/
def negate (d : Decimal) : Decimal :=
  if h : d.coefficient = 0 then d
  else { d with
    negative := !d.negative
    normal := by
      rcases d.normal with hd | hd
      · exact .inl hd
      · exact absurd hd.1 h }

/-- Whether the number has no fractional part. -/
def isInteger (d : Decimal) : Bool := 0 ≤ d.exponent

/-- With more zeros than these around the digits a number is written with an exponent. -/
def plainZeros : Int := 20

/-- The canonical text: positional while few zeros are needed, else the coefficient and an
exponent. -/
def render (d : Decimal) : String :=
  let ds := digits d.coefficient
  let sign := if d.negative then ['-'] else []
  let scientific := ds ++ 'e' :: (if d.exponent < 0 then ['-'] else []) ++ digits d.exponent.natAbs
  let point := (ds.length : Int) + d.exponent
  let body :=
    if 0 ≤ d.exponent then
      if plainZeros < d.exponent then scientific
      else ds ++ List.replicate d.exponent.toNat '0'
    else if 0 < point then ds.take point.toNat ++ '.' :: ds.drop point.toNat
    else if plainZeros < -point then scientific
    else '0' :: '.' :: List.replicate (-point).toNat '0' ++ ds
  String.ofList (sign ++ body)

/-- The integer that the number is, if it is one and fits in 64 bits. -/
def toInt64? (d : Decimal) : Option Int :=
  if d.exponent < 0 ∨ 19 < (width d.coefficient : Int) + d.exponent then none
  else
    let n : Int := (d.coefficient * Nat.pow 10 d.exponent.toNat : Nat)
    let n := if d.negative then -n else n
    if FitsInt64 n then some n else none

end Decimal

/-! ## Numbers -/

/-- A number: a finite decimal, or one of the two infinities. -/
inductive Number where
  | finite (d : Decimal)
  | infinite (negative : Bool)
deriving DecidableEq, Repr

namespace Number

/-- Zero. -/
def zero : Number := finite .zero

instance : Inhabited Number := ⟨zero⟩

/-- An ASCII letter as a small one. -/
def lower (c : Char) : Char := if 'A' ≤ c ∧ c ≤ 'Z' then Char.ofNat (c.toNat + 32) else c

/-- Whether the text names infinity, in letters of any size. -/
def namesInfinity (cs : List Char) : Bool :=
  let small := cs.map lower
  small == ['i', 'n', 'f'] || small == ['i', 'n', 'f', 'i', 'n', 'i', 't', 'y']

/-- Whether `c` introduces an exponent. -/
def isExponentMark (c : Char) : Bool := c == 'e' || c == 'E'

/-- The digits in front of and behind the point of a mantissa. A point needs a digit on both
sides. -/
def splitMantissa? (cs : List Char) : Option (List Char × List Char) :=
  let whole := cs.takeWhile (· ≠ '.')
  let fraction? := match cs.dropWhile (· ≠ '.') with
    | [] => some []
    | _ :: [] => none
    | _ :: fraction => some fraction
  match fraction? with
  | none => none
  | some fraction =>
    if whole.isEmpty || !whole.all isDigit || !fraction.all isDigit then none
    else some (whole, fraction)

/-- The finite number that a text without a sign writes. -/
def parseFinite? (negative : Bool) (cs : List Char) : Option Number :=
  let mantissa := cs.takeWhile fun c => !isExponentMark c
  let exponent? := match cs.dropWhile fun c => !isExponentMark c with
    | [] => some 0
    | _ :: exponent => readInt64? exponent
  match exponent?, splitMantissa? mantissa with
  | some exponent, some (whole, fraction) =>
    if h : FitsInt64 (exponent - fraction.length) then
      some (.finite (.ofScaled negative (value (whole ++ fraction)) _ h))
    else none
  | _, _ => none

/-- The number that a text writes: an optional sign, and digits with an optional fraction and
exponent or a name of infinity. -/
def parse? (text : String) : Option Number :=
  let (negative, cs) := match text.toList with
    | '-' :: rest => (true, rest)
    | '+' :: rest => (false, rest)
    | cs => (false, cs)
  if namesInfinity cs then some (.infinite negative) else parseFinite? negative cs

/-- The number that an integer of 64 bits is. -/
def ofInt64 (n : Int64) : Number :=
  .finite (.ofScaled (n.toInt < 0) n.toInt.natAbs 0 (by decide))

/-- The number whose shortest decimal a floating-point number is, unless it is none. -/
def ofBinary64? (x : Binary64) : Option Number :=
  if x.isNaN then none
  else if x.isInfinite then some (.infinite x.negative)
  else
    let d := Shortest.ofMagnitude x
    if h : FitsInt64 d.exponent then some (.finite (.ofScaled x.negative d.digits d.exponent h))
    else none

/-- Whether the number is an infinity. -/
def isInfinite : Number → Bool
  | infinite _ => true
  | finite _ => false

/-- Whether the number has a minus sign. -/
def isNegative : Number → Bool
  | infinite negative => negative
  | finite d => d.negative

/-- Whether the number is finite and has no fractional part. -/
def isInteger : Number → Bool
  | infinite _ => false
  | finite d => d.isInteger

/-- The number with the other sign; zero stays as it is. -/
def negate : Number → Number
  | infinite negative => infinite !negative
  | finite d => finite d.negate

/-- The integer of 64 bits that the number is, if it is one. -/
def toInt64? : Number → Option Int64
  | infinite _ => none
  | finite d => d.toInt64?.map Int64.ofInt

/-- The nearest floating-point number. -/
def toBinary64 : Number → Binary64
  | infinite negative => .infinity negative
  | finite d => .ofDecimal d.negative d.coefficient d.exponent

/-- The canonical text. -/
def render : Number → String
  | infinite true => "-Infinity"
  | infinite false => "Infinity"
  | finite d => d.render

end Number

end Overlay.Numeric
