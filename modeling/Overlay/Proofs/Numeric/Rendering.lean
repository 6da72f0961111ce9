import Mathlib.Data.Nat.Digits.Defs
import Overlay.Proofs.Numeric.NumberText

/-!
# Numbers read back

The canonical text of a finite number, without its sign, is a `Numeral`: digits, and perhaps a
fraction or an exponent.

* A numeral is a number text that is written in one way (`Numeral.toText`), so it writes the number
  that the number text does: its digits in front of and behind the point as one natural number,
  scaled (`Numeral.parseFinite?_text`).
* `Decimal.numeral` is the numeral that `Decimal.render` writes. It writes the coefficient with some
  zeros behind it, and the exponent that these zeros leave (`numeral_value`).
* So the text of a number is read as that number (`parse?_numeral`).
-/

namespace Overlay.Numeric

/-! ## Digits -/

theorem isDigit_of_mem_digits {n : Nat} {c : Char} (h : c ∈ digits n) : isDigit c = true := by
  have hdigit := Nat.isDigit_of_mem_toDigits (by omega) (by omega) h
  simp only [Char.isDigit, Bool.and_eq_true, decide_eq_true_eq] at hdigit
  simpa [isDigit, Char.le_def] using hdigit

theorem digits_ne_nil (n : Nat) : digits n ≠ [] := Nat.toDigits_ne_nil

theorem value_digits (n : Nat) : value (digits n) = n := Nat.ofDigitChars_ten_toDigits

/-- Digits behind digits. -/
theorem value_append (ds es : List Char) :
    value (ds ++ es) = value ds * 10 ^ es.length + value es := by
  have happend := @Nat.ofDigitChars_append 10 ds es 0
  have hshift := @Nat.ofDigitChars_eq_ofDigitChars_zero es (Nat.ofDigitChars 10 ds 0)
  rw [Nat.mul_comm] at hshift
  exact happend.trans hshift

/-- Zeros at the end of digits. -/
theorem value_append_zeros (ds : List Char) (z : Nat) :
    value (ds ++ List.replicate z '0') = value ds * 10 ^ z := by
  have hzeros := @Nat.ofDigitChars_replicate_zero 10 (Nat.ofDigitChars 10 ds 0) z
  rw [← Nat.ofDigitChars_append, Nat.mul_comm] at hzeros
  exact hzeros

/-- Zeros in front of digits. -/
theorem value_zeros_append (z : Nat) (ds : List Char) :
    value (List.replicate z '0' ++ ds) = value ds := by
  have happend := @Nat.ofDigitChars_append 10 (List.replicate z '0') ds 0
  rw [Nat.ofDigitChars_replicate_zero, Nat.mul_zero] at happend
  exact happend

/-- The sign of an integer; those that are not negative may have a plus sign. -/
def signText (plusSign : Bool) (n : Int) : List Char :=
  if n < 0 then ['-'] else if plusSign then ['+'] else []

/-- The text of an integer. -/
def integerText (plusSign : Bool) (n : Int) : List Char :=
  signText plusSign n ++ digits n.natAbs

theorem toList_toString (n : Int) : (toString n).toList = integerText false n := by
  cases n with
  | ofNat m =>
    show (Nat.repr m).toList = _
    simp [integerText, signText, Nat.repr, digits]
  | negSucc m =>
    show ("-" ++ Nat.repr (m + 1)).toList = _
    simp [integerText, signText, Nat.repr, digits, Int.negSucc_lt_zero]

/-- The sign that `signText` writes. -/
def writtenSign (plusSign : Bool) (n : Int) : Sign :=
  if n < 0 then .minus else if plusSign then .plus else .absent

theorem text_writtenSign (plusSign : Bool) (n : Int) :
    (writtenSign plusSign n).text = signText plusSign n := by
  unfold writtenSign signText
  split_ifs <;> rfl

theorem signed_writtenSign (plusSign : Bool) (n : Int) :
    signed (writtenSign plusSign n).isMinus (value (digits n.natAbs) : Int) = n := by
  rw [value_digits]
  unfold writtenSign
  split_ifs with hn hplus
  · show -(n.natAbs : Int) = n
    omega
  · show (n.natAbs : Int) = n
    omega
  · show (n.natAbs : Int) = n
    omega

theorem areDigits_digits (n : Nat) : AreDigits (digits n) := fun _ hc => isDigit_of_mem_digits hc

/-! ## Numerals -/

/-- A number as it is written, without a sign: the digits in front of and behind the point, which
is left out if nothing stands behind it, and the exponent, if there is one. -/
structure Numeral where
  whole : List Char
  fraction : List Char
  exponent : Option Int
  /-- Whether an exponent that is not negative has a sign. -/
  plusSign : Bool

namespace Numeral

open Number (splitMantissa? parseFinite? isExponentMark namesInfinity)

/-- The point and the digits behind it. -/
def fractionText (n : Numeral) : List Char :=
  if n.fraction = [] then [] else '.' :: n.fraction

/-- The exponent behind its letter. -/
def exponentText (n : Numeral) : List Char :=
  match n.exponent with
  | none => []
  | some e => 'e' :: integerText n.plusSign e

/-- The text of a numeral. -/
def text (n : Numeral) : List Char := n.whole ++ n.fractionText ++ n.exponentText

/-- Whether a numeral has digits in front of the point, and nothing but digits around it. -/
structure Sound (n : Numeral) : Prop where
  nonempty : n.whole ≠ []
  whole : ∀ c ∈ n.whole, isDigit c = true
  fraction : ∀ c ∈ n.fraction, isDigit c = true

variable {n : Numeral}

/-- The numeral as a number text. -/
def toText (n : Numeral) : NumberText :=
  ⟨n.whole, n.fraction,
    n.exponent.map fun e => ⟨false, writtenSign n.plusSign e, digits e.natAbs⟩⟩

theorem text_toText (n : Numeral) : n.toText.text = n.text := by
  rcases n with ⟨whole, fraction, exponent, plusSign⟩
  cases exponent with
  | none => rfl
  | some e =>
    have hexponent : (WrittenExponent.mk false (writtenSign plusSign e) (digits e.natAbs)).text =
        'e' :: integerText plusSign e := by
      rw [integerText, ← text_writtenSign]
      rfl
    exact congrArg _ hexponent

theorem scale_toText (n : Numeral) : n.toText.scale = n.exponent.getD 0 := by
  rcases n with ⟨whole, fraction, exponent, plusSign⟩
  cases exponent with
  | none => rfl
  | some e => exact signed_writtenSign plusSign e

theorem Sound.toText (hn : n.Sound) : n.toText.Sound := by
  constructor
  case nonempty => exact hn.nonempty
  case whole => exact hn.whole
  case fraction => exact hn.fraction
  case exponent =>
    intro e he
    obtain ⟨k, -, rfl⟩ := Option.map_eq_some_iff.1 he
    exact ⟨digits_ne_nil _, areDigits_digits _⟩

/-- The number that a numeral writes. -/
theorem parseFinite?_text (hn : n.Sound) (negative : Bool)
    (hexponent : FitsInt64 (n.exponent.getD 0))
    (h : FitsInt64 (n.exponent.getD 0 - n.fraction.length)) :
    parseFinite? negative n.text =
      some (.finite (.ofScaled negative (value (n.whole ++ n.fraction)) _ h)) := by
  have hscale := scale_toText n
  have hfits : n.toText.Fits := ⟨by rwa [hscale], by rwa [hscale]⟩
  have hread := NumberText.parseFinite?_text hn.toText hfits negative
  simp only [hscale] at hread
  rw [← text_toText]
  exact hread

/-- A numeral starts with a digit. -/
theorem Sound.text_eq_cons (hn : n.Sound) : ∃ c cs, n.text = c :: cs ∧ isDigit c = true := by
  rw [← text_toText]
  exact hn.toText.text_eq_cons

theorem namesInfinity_text (hn : n.Sound) : namesInfinity n.text = false := by
  rw [← text_toText]
  exact hn.toText.namesInfinity

/-- A text that starts with a digit has no sign. -/
theorem parse?_text (hn : n.Sound) :
    Number.parse? (String.ofList n.text) = parseFinite? false n.text := by
  have hparse := parse?_sign .absent fun _ => hn.toText.unsigned
  rw [hn.toText.namesInfinity, text_toText] at hparse
  exact hparse

end Numeral

/-! ## The numerals that are written -/

/-- A number behind its last zeros keeps them apart. -/
theorem stripZeros_mul_pow {k : Nat} (hk : k % 10 ≠ 0) (z : Nat) :
    stripZeros (k * 10 ^ z) = (k, z) := by
  induction z with
  | zero =>
    rw [Nat.pow_zero, Nat.mul_one, stripZeros]
    simp [hk]
  | succ z ih =>
    have hpos : 0 < k * 10 ^ z := Nat.mul_pos (by omega) (Nat.pow_pos (by omega))
    have hmul : k * 10 ^ (z + 1) = 10 * (k * 10 ^ z) := by rw [Nat.pow_succ]; ring
    have hdiv : k * 10 ^ (z + 1) / 10 = k * 10 ^ z := by omega
    rw [stripZeros, dif_pos (by omega), hdiv, ih]

namespace Decimal

/-- The number without its sign. -/
def magnitude (d : Decimal) : Decimal := if d.negative then d.negate else d

theorem negate_magnitude {d : Decimal} (h : d.negative = true) : d.magnitude.negate = d := by
  rcases d with ⟨negative, coefficient, exponent, fits, normal⟩
  cases h
  have hne : coefficient ≠ 0 := by
    rintro rfl
    simp at normal
  simp [magnitude, negate, hne]

theorem magnitude_of_not_negative {d : Decimal} (h : d.negative = false) : d.magnitude = d := by
  simp [magnitude, h]

/-- The coefficient with zeros behind it and the exponent that these leave: the magnitude. -/
theorem ofScaled_zeros (d : Decimal) (z : Nat) (hz : d.coefficient = 0 → z = 0)
    (h : FitsInt64 (d.exponent - z)) :
    ofScaled false (d.coefficient * 10 ^ z) (d.exponent - z) h = d.magnitude := by
  rcases d with ⟨negative, coefficient, exponent, fits, normal⟩
  rcases normal with hcoefficient | ⟨hcoefficient, hnegative, hexponent⟩
  · have hne : coefficient ≠ 0 := by omega
    have hpow : coefficient * 10 ^ z ≠ 0 := Nat.mul_ne_zero hne (by positivity)
    have hle : exponent ≤ greatestInt64 := fits.2
    cases negative <;>
      simp [ofScaled, hpow, stripZeros_mul_pow hcoefficient, magnitude, negate, hne, hle]
  · subst hcoefficient hnegative hexponent
    obtain rfl : z = 0 := hz rfl
    rfl

/-- The numeral that the number is written with. -/
def numeral (d : Decimal) : Numeral :=
  let ds := digits d.coefficient
  let point := (ds.length : Int) + d.exponent
  if 0 ≤ d.exponent then
    if plainZeros < d.exponent then ⟨ds, [], some d.exponent, false⟩
    else ⟨ds ++ List.replicate d.exponent.toNat '0', [], none, false⟩
  else if 0 < point then ⟨ds.take point.toNat, ds.drop point.toNat, none, false⟩
  else if plainZeros < -point then ⟨ds, [], some d.exponent, false⟩
  else ⟨['0'], List.replicate (-point).toNat '0' ++ ds, none, false⟩

/-- A number is written as its sign and its numeral. -/
theorem toList_render (d : Decimal) :
    d.render.toList = (if d.negative then ['-'] else []) ++ d.numeral.text := by
  have hne : digits d.coefficient ≠ [] := digits_ne_nil _
  rw [render, String.toList_ofList]
  refine congrArg _ ?_
  by_cases hexponent : 0 ≤ d.exponent
  · by_cases hfar : plainZeros < d.exponent
    · simp [numeral, hexponent, hfar, Numeral.text, Numeral.fractionText, Numeral.exponentText,
        integerText, signText]
    · simp [numeral, hexponent, hfar, Numeral.text, Numeral.fractionText, Numeral.exponentText]
  · by_cases hpoint : 0 < ((digits d.coefficient).length : Int) + d.exponent
    · -- Some of the digits stand behind the point.
      have hbehind : ¬(digits d.coefficient).length ≤
          (((digits d.coefficient).length : Int) + d.exponent).toNat := by omega
      simp [numeral, hexponent, hpoint, Numeral.text, Numeral.fractionText, Numeral.exponentText,
        hbehind]
    · by_cases hfar : plainZeros < -(((digits d.coefficient).length : Int) + d.exponent)
      · simp only [numeral, hexponent, hpoint, hfar, Numeral.text, Numeral.fractionText,
          Numeral.exponentText, integerText, signText, Bool.false_eq_true, if_true, if_false,
          List.append_nil, List.append_assoc, List.cons_append]
      · simp only [numeral, hexponent, hpoint, hfar, Numeral.text, Numeral.fractionText,
          Numeral.exponentText, if_false]
        simp [hne]

theorem numeral_sound (d : Decimal) : d.numeral.Sound := by
  have hne := digits_ne_nil d.coefficient
  have hdigit : ∀ c ∈ digits d.coefficient, isDigit c = true := fun c hc => isDigit_of_mem_digits hc
  have hzeros : ∀ n, ∀ c ∈ List.replicate n '0', isDigit c = true := by
    intro n c hc
    rw [(List.mem_replicate.1 hc).2]
    decide
  have hnone : ∀ c ∈ ([] : List Char), isDigit c = true := by simp
  unfold numeral
  dsimp only
  split_ifs with hexponent hplain hpoint hfar
  · exact ⟨hne, hdigit, hnone⟩
  · exact ⟨by simp [hne], List.forall_mem_append.2 ⟨hdigit, hzeros _⟩, hnone⟩
  · refine ⟨?_, fun c hc => hdigit c (List.mem_of_mem_take hc),
      fun c hc => hdigit c (List.mem_of_mem_drop hc)⟩
    rw [Ne, List.take_eq_nil_iff]
    simp only [hne, or_false]
    omega
  · exact ⟨hne, hdigit, hnone⟩
  · exact ⟨by simp, hzeros 1, List.forall_mem_append.2 ⟨hzeros _, hdigit⟩⟩

/-- What the digits of a number's numeral are, and how far they are scaled. -/
theorem numeral_value (d : Decimal) : ∃ z : Nat, (d.coefficient = 0 → z = 0) ∧
    value (d.numeral.whole ++ d.numeral.fraction) = d.coefficient * 10 ^ z ∧
    d.numeral.exponent.getD 0 - d.numeral.fraction.length = d.exponent - z ∧
    FitsInt64 (d.exponent - z) ∧ FitsInt64 (d.numeral.exponent.getD 0) := by
  have hzero : FitsInt64 0 := by decide
  have hfits := d.fits
  have hcoefficient : d.coefficient = 0 → d.exponent = 0 := by
    intro h
    rcases d.normal with hd | hd
    · simp [h] at hd
    · exact hd.2.2
  unfold numeral
  dsimp only
  -- One case for each way to set the point; only the plain one appends zeros to the digits.
  split_ifs with hexponent hplain hpoint hfar
  · exact ⟨0, fun _ => rfl, by simp [value_digits], by simp, by simpa using hfits,
      by simpa using hfits⟩
  · refine ⟨d.exponent.toNat, fun h => by simp [hcoefficient h], ?_, ?_, ?_, hzero⟩
    · rw [List.append_nil, value_append_zeros, value_digits]
    · simp
      omega
    · have hself : d.exponent - d.exponent.toNat = 0 := by omega
      rw [hself]
      exact hzero
  · refine ⟨0, fun _ => rfl, ?_, ?_, by simpa using hfits, hzero⟩
    · simp [value_digits]
    · simp only [Option.getD_none, List.length_drop]
      omega
  · exact ⟨0, fun _ => rfl, by simp [value_digits], by simp, by simpa using hfits,
      by simpa using hfits⟩
  · refine ⟨0, fun _ => rfl, ?_, ?_, by simpa using hfits, hzero⟩
    · have hvalue := value_zeros_append ((-(((digits d.coefficient).length : Int) +
        d.exponent)).toNat + 1) (digits d.coefficient)
      rw [List.replicate_succ] at hvalue
      simpa [value_digits] using hvalue
    · simp only [Option.getD_none, List.length_append, List.length_replicate]
      omega

/-- The numeral of a number is read as its magnitude. -/
theorem parse?_numeral (d : Decimal) :
    Number.parse? (String.ofList d.numeral.text) = some (.finite d.magnitude) := by
  rcases numeral_value d with ⟨z, hz, hvalue, hscale, hfits, hexponent⟩
  have hsound := numeral_sound d
  rw [Numeral.parse?_text hsound,
    Numeral.parseFinite?_text hsound false hexponent (by rw [hscale]; exact hfits),
    ← ofScaled_zeros d z hz hfits]
  simp only [hvalue, hscale]

end Decimal

end Overlay.Numeric
