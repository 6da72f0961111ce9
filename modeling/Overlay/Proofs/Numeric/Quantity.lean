import Mathlib.Algebra.Order.Field.Power
import Mathlib.Data.Rat.Cast.Order
import Mathlib.Tactic.FieldSimp
import Mathlib.Tactic.Ring
import Overlay.Proofs.Numeric.Rendering

/-!
# The quantities that texts and numbers stand for

A text denotes a rational number or an infinity, and so does a number.

* `Denotes` is the meaning of a text as it is learnt at school. A text denotes one quantity at most
  (`Denotes.unique`), and a text that is read as a number denotes one.
* `Number.quantity` is the quantity of a number. Digits that do not end with a zero and their
  exponent are told by the rational number (`scaled_unique`), so numbers with the same quantity are
  the same (`Number.quantity_inj`).
* `Kept` says what reading keeps of a quantity: all of it, but for an exponent past 64 bits, which
  becomes the greatest one (`kept_of_parse?`).
-/

namespace Overlay.Numeric

open Number (parse? parseFinite? namesInfinity)

/-- A rational number or an infinity. -/
inductive Quantity where
  | rational (q : ℚ)
  | infinite (negative : Bool)

/-! ## What a text denotes -/

/-- The rational number that digits, a point with digits behind it and an exponent write. -/
def NumberText.toRat (n : NumberText) : ℚ :=
  (value n.whole + value n.fraction / 10 ^ n.fraction.length) * 10 ^ n.scale

/-- Whether a text writes a quantity: a number or a name of infinity behind a sign. The exponent may
have any size. -/
inductive Denotes : String → Quantity → Prop
  | rational (sign : Sign) {n : NumberText} (hn : n.Sound) :
      Denotes (String.ofList (sign.text ++ n.text)) (.rational (signed sign.isMinus n.toRat))
  | infinite (sign : Sign) {name : List Char} (hname : namesInfinity name = true) :
      Denotes (String.ofList (sign.text ++ name)) (.infinite sign.isMinus)

variable {s : String} {a b : Quantity} {m n : Number}

/-- A name of infinity starts with a letter. -/
theorem unsigned_of_namesInfinity {cs : List Char} (h : namesInfinity cs = true) : Unsigned cs := by
  cases cs with
  | nil => intro c hc; cases hc
  | cons c cs =>
    rw [unsigned_cons]
    constructor
    · rintro rfl
      simp [namesInfinity, Number.lower] at h
    · rintro rfl
      simp [namesInfinity, Number.lower] at h

/-- A text writes one quantity. -/
theorem Denotes.unique (ha : Denotes s a) (hb : Denotes s b) : a = b := by
  -- Neither a number nor a name of infinity starts with a sign, so both signs are the same.
  cases ha with
  | rational sign hn =>
    generalize htext : String.ofList _ = s at hb
    cases hb with
    | rational sign' hm =>
      obtain ⟨rfl, hsame⟩ := Sign.append_inj hn.unsigned hm.unsigned (String.ofList_injective htext)
      rw [NumberText.text_inj hn hm hsame]
    | infinite sign' hname =>
      obtain ⟨-, rfl⟩ := Sign.append_inj hn.unsigned (unsigned_of_namesInfinity hname)
        (String.ofList_injective htext)
      exact absurd hname (by simp [hn.namesInfinity])
  | infinite sign hname =>
    generalize htext : String.ofList _ = s at hb
    cases hb with
    | rational sign' hm =>
      obtain ⟨-, rfl⟩ := Sign.append_inj (unsigned_of_namesInfinity hname) hm.unsigned
        (String.ofList_injective htext)
      exact absurd hname (by simp [hm.namesInfinity])
    | infinite sign' hname' =>
      obtain ⟨rfl, -⟩ := Sign.append_inj (unsigned_of_namesInfinity hname)
        (unsigned_of_namesInfinity hname') (String.ofList_injective htext)
      rfl

/-- The digits in front of and behind the point as one number, scaled. -/
theorem NumberText.toRat_eq (n : NumberText) :
    n.toRat = value (n.whole ++ n.fraction) * 10 ^ (n.scale - n.fraction.length) := by
  rw [toRat, value_append, zpow_sub₀ (by norm_num)]
  push_cast
  rw [zpow_natCast]
  field_simp

/-! ## What a number stands for -/

/-- A number that scales by a smaller power of ten to the same number ends with a zero. -/
theorem dvd_of_scaled_lt {c c' k k' : ℤ} (h : (c : ℚ) * 10 ^ k = c' * 10 ^ k') (hlt : k < k') :
    10 ∣ c := by
  obtain ⟨n, hn⟩ := Int.exists_add_of_le (Int.add_one_le_of_lt hlt)
  have hpow : (10 : ℚ) ^ k' = 10 ^ (n + 1) * 10 ^ k := by
    rw [hn, ← zpow_natCast, ← zpow_add₀ (by norm_num)]
    push_cast
    ring_nf
  rw [hpow, ← mul_assoc] at h
  have hcancel : (c : ℚ) = c' * 10 ^ (n + 1) := mul_right_cancel₀ (by positivity) h
  have hint : c = c' * 10 ^ (n + 1) := by exact_mod_cast hcancel
  exact ⟨c' * 10 ^ n, by rw [hint, pow_succ]; ring⟩

/-- Digits that do not end with a zero and their exponent are told by the number. -/
theorem scaled_unique {c c' k k' : ℤ} (hc : ¬10 ∣ c) (hc' : ¬10 ∣ c')
    (h : (c : ℚ) * 10 ^ k = c' * 10 ^ k') : c = c' ∧ k = k' := by
  rcases lt_trichotomy k k' with hlt | rfl | hlt
  · exact absurd (dvd_of_scaled_lt h hlt) hc
  · have hcancel : (c : ℚ) = c' := mul_right_cancel₀ (by positivity) h
    exact ⟨by exact_mod_cast hcancel, rfl⟩
  · exact absurd (dvd_of_scaled_lt h.symm hlt) hc'

theorem scaled_ne_zero {c : ℤ} (hc : ¬10 ∣ c) (k : ℤ) : (c : ℚ) * 10 ^ k ≠ 0 := by
  have hne : (c : ℚ) ≠ 0 := by
    rintro hzero
    exact hc (Int.cast_eq_zero.1 hzero ▸ dvd_zero 10)
  positivity

namespace Decimal

/-- The coefficient with its sign. -/
def integer (d : Decimal) : ℤ := signed d.negative (d.coefficient : ℤ)

/-- The rational number that the number is. -/
def toRat (d : Decimal) : ℚ := d.integer * 10 ^ d.exponent

variable {d e : Decimal}

theorem eq_zero_of_coefficient (h : d.coefficient = 0) : d = zero := by
  rcases d with ⟨negative, coefficient, exponent, fits, normal⟩
  obtain rfl : coefficient = 0 := h
  rcases normal with hnormal | ⟨-, rfl, rfl⟩
  · exact absurd rfl hnormal
  · rfl

theorem toRat_zero : zero.toRat = 0 := by simp [toRat, integer, zero, signed]

/-- The coefficient does not end with a zero. -/
theorem not_dvd_integer (h : d.coefficient ≠ 0) : ¬(10 : ℤ) ∣ d.integer := by
  have hnormal : d.coefficient % 10 ≠ 0 := by
    rcases d.normal with hd | hd
    · exact hd
    · exact absurd hd.1 h
  unfold integer signed
  split <;> omega

theorem toRat_eq_zero : d.toRat = 0 ↔ d.coefficient = 0 := by
  constructor
  · intro h
    by_contra hne
    exact scaled_ne_zero (not_dvd_integer hne) d.exponent h
  · intro h
    rw [eq_zero_of_coefficient h, toRat_zero]

/-- The signed coefficient and the exponent are all of a number. -/
theorem eq_of_integer (hd : d.coefficient ≠ 0) (h : d.integer = e.integer)
    (hexponent : d.exponent = e.exponent) : d = e := by
  rcases d with ⟨negative, coefficient, exponent, fits, normal⟩
  rcases e with ⟨negative', coefficient', exponent', fits', normal'⟩
  obtain rfl : exponent = exponent' := hexponent
  have hne : coefficient ≠ 0 := hd
  have hparts : negative = negative' ∧ coefficient = coefficient' := by
    cases negative <;> cases negative' <;> simp [integer, signed] at h ⊢ <;> omega
  obtain ⟨rfl, rfl⟩ := hparts
  rfl

/-- Numbers that are the same rational number are the same. -/
theorem toRat_inj (h : d.toRat = e.toRat) : d = e := by
  by_cases hd : d.coefficient = 0
  · have he : e.coefficient = 0 := toRat_eq_zero.1 (h ▸ toRat_eq_zero.2 hd)
    rw [eq_zero_of_coefficient hd, eq_zero_of_coefficient he]
  · have he : e.coefficient ≠ 0 := fun he => hd (toRat_eq_zero.1 (h ▸ toRat_eq_zero.2 he))
    obtain ⟨hinteger, hexponent⟩ := scaled_unique (not_dvd_integer hd) (not_dvd_integer he) h
    exact eq_of_integer hd hinteger hexponent

end Decimal

/-- The quantity that a number is. -/
def Number.quantity : Number → Quantity
  | finite d => .rational d.toRat
  | infinite negative => .infinite negative

/-- Numbers that are the same quantity are the same. -/
theorem Number.quantity_inj (h : m.quantity = n.quantity) : m = n := by
  cases m with
  | finite d =>
    cases n with
    | finite e => rw [Decimal.toRat_inj (Quantity.rational.inj h)]
    | infinite negative => cases h
  | infinite negative =>
    cases n with
    | finite e => cases h
    | infinite negative' => rw [Quantity.infinite.inj h]

/-! ## What reading keeps -/

/-- Whether a number is what is kept of a quantity: everything, but an exponent is kept at the
greatest one of 64 bits. -/
inductive Kept : Quantity → Number → Prop
  | infinite (negative : Bool) : Kept (.infinite negative) (.infinite negative)
  | zero : Kept (.rational 0) .zero
  | scaled {d : Decimal} {k : ℤ} (hd : d.coefficient ≠ 0)
      (hexponent : d.exponent = min k greatestInt64) :
      Kept (.rational (d.integer * 10 ^ k)) (.finite d)

theorem kept_ofScaled (negative : Bool) (n : ℕ) {e : ℤ} (h : FitsInt64 e) :
    Kept (.rational (signed negative (n : ℚ) * 10 ^ e)) (.finite (.ofScaled negative n e h)) := by
  by_cases hn : n = 0
  · subst hn
    have hzero : signed negative ((0 : ℕ) : ℚ) * 10 ^ e = 0 := by simp [signed]
    rw [hzero]
    exact .zero
  · have hstrip : (n : ℚ) = (stripZeros n).1 * 10 ^ (stripZeros n).2 := by
      exact_mod_cast (stripZeros_mul n).symm
    have hnormal : (stripZeros n).1 ≠ 0 := fun hzero => stripZeros_fst_mod n hn (by simp [hzero])
    have hsame : signed negative (n : ℚ) * 10 ^ e =
        (Decimal.ofScaled negative n e h).integer * 10 ^ (e + (stripZeros n).2) := by
      rw [zpow_add₀ (by norm_num), zpow_natCast, hstrip]
      simp only [Decimal.ofScaled, dif_neg hn, Decimal.integer, signed]
      split <;> push_cast <;> ring
    rw [hsame]
    apply Kept.scaled
    · simpa [Decimal.ofScaled, hn] using hnormal
    · simp [Decimal.ofScaled, hn]

theorem Kept.eq_infinite {negative : Bool} (h : Kept (.infinite negative) n) :
    n = .infinite negative := by
  cases h
  rfl

theorem Kept.eq_zero (h : Kept (.rational 0) n) : n = .zero := by
  generalize hq : (0 : ℚ) = q at h
  cases h with
  | zero => rfl
  | scaled hd hexponent => exact absurd hq.symm (scaled_ne_zero (Decimal.not_dvd_integer hd) _)

/-- Of digits that do not end with a zero all are kept. -/
theorem Kept.eq_scaled {c k : ℤ} (hc : ¬10 ∣ c) (h : Kept (.rational (c * 10 ^ k)) n) :
    ∃ d : Decimal, n = .finite d ∧ d.coefficient ≠ 0 ∧ d.integer = c ∧
      d.exponent = min k greatestInt64 := by
  generalize hq : (c : ℚ) * 10 ^ k = q at h
  cases h with
  | zero => exact absurd hq (scaled_ne_zero hc k)
  | @scaled d k' hd hexponent =>
    obtain ⟨hinteger, rfl⟩ := scaled_unique hc (Decimal.not_dvd_integer hd) hq
    exact ⟨d, rfl, hd, hinteger.symm, hexponent⟩

/-- What is kept of a quantity is one number. -/
theorem Kept.unique (hm : Kept a m) (hn : Kept a n) : m = n := by
  cases hm with
  | infinite negative => exact hn.eq_infinite.symm
  | zero => exact hn.eq_zero.symm
  | @scaled d k hd hexponent =>
    obtain ⟨e, rfl, -, hinteger, hsame⟩ := hn.eq_scaled (Decimal.not_dvd_integer hd)
    rw [Decimal.eq_of_integer hd hinteger.symm (hexponent.trans hsame.symm)]

/-- A text that is read as a number denotes a quantity, of which the number is what is kept. -/
theorem kept_of_parse? (h : parse? s = some n) : ∃ a, Denotes s a ∧ Kept a n := by
  obtain ⟨sign, cs, hcs, hunsigned⟩ := exists_sign s.toList
  have hs : s = String.ofList (sign.text ++ cs) := by rw [← hcs, String.ofList_toList]
  rw [hs] at h ⊢
  rw [parse?_sign sign hunsigned] at h
  split_ifs at h with hname
  · cases h
    exact ⟨_, .infinite sign hname, .infinite _⟩
  · obtain ⟨text, htext, rfl, hfits, rfl⟩ := NumberText.parseFinite?_eq_some_iff.1 h
    have hkept := kept_ofScaled sign.isMinus (value (text.whole ++ text.fraction)) hfits.exponent
    have hsame : signed sign.isMinus text.toRat =
        signed sign.isMinus (value (text.whole ++ text.fraction) : ℚ) *
          10 ^ (text.scale - text.fraction.length) := by
      rw [text.toRat_eq]
      unfold signed
      split <;> ring
    refine ⟨_, .rational sign htext, ?_⟩
    rw [hsame]
    exact hkept

theorem existsUnique_denotes (h : parse? s = some n) : ∃! a, Denotes s a := by
  obtain ⟨a, ha, -⟩ := kept_of_parse? h
  exact ⟨a, ha, fun b hb => hb.unique ha⟩

theorem Denotes.kept (ha : Denotes s a) (h : parse? s = some n) : Kept a n := by
  obtain ⟨b, hb, hkept⟩ := kept_of_parse? h
  rwa [ha.unique hb]

end Overlay.Numeric
