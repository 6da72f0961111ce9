import Overlay.Proofs.Numeric.Layout
import Overlay.Proofs.Numeric.Quantity

/-!
# Integers of 64 bits

`Number.toInt64?` gives an integer exactly if the number is that integer, however it was written.

* A coefficient does not end with a zero, so a number with a negative exponent is no integer
  (`Decimal.exponent_nonneg`). With an exponent of 19 or more it is none of 64 bits
  (`scaled_ne_of_fits`).
* The bound on the digits therefore cuts off no integer of 64 bits
  (`Decimal.width_add_exponent_le`), and an exponent that reading does not keep belongs to none
  (`Kept.quantity_eq_iff`).
* `Decimal.toInt64?_eq_some_iff` is the result for finite numbers, `toInt64?_exact` the one for all
  numbers and for the texts that they are read from.
-/

namespace Overlay.Numeric

open Number (parse?)

/-- An integer of 64 bits is less than `10 ^ 19`. -/
theorem scaled_ne_of_fits {c k i : ℤ} (hc : c ≠ 0) (hk : 19 ≤ k) (hi : FitsInt64 i) :
    (c : ℚ) * 10 ^ k ≠ i := by
  obtain ⟨n, rfl⟩ := Int.exists_add_of_le hk
  intro h
  have hint : c * 10 ^ n * 10 ^ 19 = i := by
    rw [zpow_add₀ (by norm_num), zpow_natCast, mul_comm (10 ^ _), ← mul_assoc] at h
    exact_mod_cast h
  have hne : c * 10 ^ n ≠ 0 := mul_ne_zero hc (by positivity)
  unfold FitsInt64 leastInt64 greatestInt64 at hi
  omega

namespace Decimal

variable {d : Decimal} {i : ℤ}

theorem exponent_eq_zero (h : d.coefficient = 0) : d.exponent = 0 := by
  rw [eq_zero_of_coefficient h]
  rfl

/-- A number with digits behind the point is no integer. -/
theorem exponent_nonneg (h : d.toRat = i) : 0 ≤ d.exponent := by
  by_cases hd : d.coefficient = 0
  · rw [exponent_eq_zero hd]
  · by_contra hneg
    have hscaled : (d.integer : ℚ) * 10 ^ d.exponent = i * 10 ^ (0 : ℤ) := by
      rw [zpow_zero, mul_one]
      exact h
    exact not_dvd_integer hd (dvd_of_scaled_lt hscaled (by omega))

/-- A number without digits behind the point as an integer. -/
theorem toRat_of_nonneg (h : 0 ≤ d.exponent) :
    d.toRat = (signed d.negative ((d.coefficient * Nat.pow 10 d.exponent.toNat : ℕ) : ℤ) : ℤ) := by
  have hpow : (10 : ℚ) ^ d.exponent = 10 ^ d.exponent.toNat := by
    rw [← zpow_natCast, Int.toNat_of_nonneg h]
  rw [toRat, hpow, integer, Nat.pow_eq]
  unfold signed
  split <;> push_cast <;> ring

/-- An integer of 64 bits has few digits, the zeros at its end included. -/
theorem width_add_exponent_le (h : d.toRat = i) (hi : FitsInt64 i) :
    (width d.coefficient : ℤ) + d.exponent ≤ 19 := by
  have hnonneg := exponent_nonneg h
  -- Then the coefficient is less than the power of ten that is left of `10 ^ 19`.
  have hsmall : d.exponent < 19 := by
    by_cases hd : d.coefficient = 0
    · rw [exponent_eq_zero hd]
      decide
    · by_contra hlarge
      have hinteger : d.integer ≠ 0 := fun hzero => not_dvd_integer hd (hzero ▸ dvd_zero 10)
      exact scaled_ne_of_fits hinteger (not_lt.1 hlarge) hi h
  have hvalue : i = signed d.negative ((d.coefficient * Nat.pow 10 d.exponent.toNat : ℕ) : ℤ) := by
    rw [toRat_of_nonneg hnonneg] at h
    exact_mod_cast h.symm
  have hbound : d.coefficient * 10 ^ d.exponent.toNat < 10 ^ 19 := by
    unfold signed at hvalue
    unfold FitsInt64 leastInt64 greatestInt64 at hi
    simp only [Nat.pow_eq] at hvalue
    split at hvalue <;> omega
  have hsplit : (10 : ℕ) ^ 19 = 10 ^ (19 - d.exponent.toNat) * 10 ^ d.exponent.toNat := by
    rw [← Nat.pow_add]
    congr 1
    omega
  rw [hsplit] at hbound
  have hwidth : width d.coefficient ≤ 19 - d.exponent.toNat :=
    width_le (by omega) (Nat.lt_of_mul_lt_mul_right hbound)
  omega

theorem toInt64?_eq_some_iff : d.toInt64? = some i ↔ FitsInt64 i ∧ d.toRat = i := by
  constructor
  · intro h
    unfold toInt64? at h
    dsimp only at h
    split_ifs at h with hrange hnegative hfits hfits
    all_goals
      rw [not_or, not_lt, not_lt] at hrange
      cases h
      refine ⟨hfits, ?_⟩
      rw [toRat_of_nonneg hrange.1, signed]
      simp [hnegative]
  · rintro ⟨hfits, h⟩
    have hnonneg := exponent_nonneg h
    have hwidth := width_add_exponent_le h hfits
    have hvalue : signed d.negative ((d.coefficient * Nat.pow 10 d.exponent.toNat : ℕ) : ℤ) = i := by
      rw [toRat_of_nonneg hnonneg] at h
      exact_mod_cast h
    -- An integer that fits has at most nineteen digits, so the guard lets it through.
    have hrange : ¬(d.exponent < 0 ∨ 19 < (width d.coefficient : ℤ) + d.exponent) := by omega
    unfold toInt64?
    rw [if_neg hrange]
    unfold signed at hvalue
    dsimp only
    rw [hvalue, if_pos hfits]

end Decimal

/-! ## Numbers -/

theorem fits_toInt (i : Int64) : FitsInt64 i.toInt :=
  ⟨i.le_toInt, Int.le_of_lt_add_one i.toInt_lt⟩

variable {n : Number} {a : Quantity}

theorem Number.toInt64?_eq_quantity {i : Int64} :
    n.toInt64? = some i ↔ n.quantity = .rational i.toInt := by
  cases n with
  | infinite negative =>
    constructor
    · intro h
      cases h
    · intro h
      cases h
  | finite d =>
    rw [toInt64?, Option.map_eq_some_iff, quantity, Quantity.rational.injEq]
    constructor
    · rintro ⟨z, hz, rfl⟩
      obtain ⟨hfits, hrat⟩ := Decimal.toInt64?_eq_some_iff.1 hz
      rw [hrat, Int64.toInt_ofInt_of_le hfits.1 (Int.lt_add_one_of_le hfits.2)]
    · intro h
      exact ⟨i.toInt, Decimal.toInt64?_eq_some_iff.2 ⟨fits_toInt i, h⟩, Int64.ofInt_toInt i⟩

/-- Reading keeps all of an integer of 64 bits, and makes no other quantity one. -/
theorem Kept.quantity_eq_iff (h : Kept a n) {i : ℤ} (hi : FitsInt64 i) :
    n.quantity = .rational i ↔ a = .rational i := by
  cases h with
  | infinite negative => exact Iff.rfl
  | zero => rw [Number.zero, Number.quantity, Decimal.toRat_zero]
  | @scaled d k hd hexponent =>
    rw [Number.quantity, Quantity.rational.injEq, Quantity.rational.injEq, Decimal.toRat]
    have hinteger : d.integer ≠ 0 := fun hzero => Decimal.not_dvd_integer hd (hzero ▸ dvd_zero 10)
    -- An exponent that is not kept is too large for both sides.
    by_cases hk : k ≤ greatestInt64
    · rw [hexponent, min_eq_left hk]
    · have hlarge : (19 : ℤ) ≤ greatestInt64 := by decide
      have hkept := scaled_ne_of_fits hinteger (k := d.exponent) (by omega) hi
      have hquantity := scaled_ne_of_fits hinteger (k := k) (by omega) hi
      exact iff_of_false hkept hquantity

/-- An integer by its sign and its distance from zero. -/
theorem signed_natAbs (z : ℤ) : signed (decide (z < 0)) (z.natAbs : ℚ) = z := by
  have hcast : ((z.natAbs : ℤ) : ℚ) = z.natAbs := Int.cast_natCast z.natAbs
  rw [← hcast]
  unfold signed
  split
  · next hneg =>
    have hlt : z < 0 := of_decide_eq_true hneg
    have habs : (z.natAbs : ℤ) = -z := by omega
    rw [habs, Int.cast_neg, neg_neg]
  · next hnonneg =>
    have hle : ¬z < 0 := fun hlt => hnonneg (decide_eq_true hlt)
    have habs : (z.natAbs : ℤ) = z := by omega
    rw [habs]

theorem Number.quantity_ofInt64 (i : Int64) : (ofInt64 i).quantity = .rational i.toInt := by
  have hkept := kept_ofScaled (decide (i.toInt < 0)) i.toInt.natAbs (e := 0) (by decide)
  rw [signed_natAbs, zpow_zero, mul_one] at hkept
  exact (hkept.quantity_eq_iff (fits_toInt i)).2 rfl

/-- An integer of 64 bits is extracted from exactly the number that is made from it, that is, from
the number that is this integer. For a number that is read this depends on what its text denotes
only: nothing is extracted from a fraction, an infinity or another integer. -/
theorem toInt64?_exact (n : Number) :
    (∀ i : Int64, (n.toInt64? = some i ↔ n = .ofInt64 i) ∧
      (n.toInt64? = some i ↔ n.quantity = .rational i.toInt)) ∧
    ∀ s, parse? s = some n → (∃! a, Denotes s a) ∧
      ∀ a, Denotes s a → ∀ i : Int64, n.toInt64? = some i ↔ a = .rational i.toInt := by
  constructor
  · intro i
    refine ⟨?_, Number.toInt64?_eq_quantity⟩
    rw [Number.toInt64?_eq_quantity, ← Number.quantity_ofInt64]
    constructor
    · exact Number.quantity_inj
    · rintro rfl
      rfl
  · intro s h
    refine ⟨existsUnique_denotes h, fun a ha i => ?_⟩
    rw [Number.toInt64?_eq_quantity]
    exact (ha.kept h).quantity_eq_iff (fits_toInt i)

/-- The least integer, written with a fraction and an exponent. -/
theorem toInt64?_exact_least : ∃ n, parse? "-92233720368547758.080E2" = some n ∧
    n.toInt64? = some Int64.minValue ∧ (∃! a, Denotes "-92233720368547758.080E2" a) ∧
      ∀ a, Denotes "-92233720368547758.080E2" a → a = .rational Int64.minValue.toInt := by
  have hparse : parse? "-92233720368547758.080E2" = some (.ofInt64 Int64.minValue) := by
    decide +kernel
  have hinteger := ((toInt64?_exact (.ofInt64 Int64.minValue)).1 Int64.minValue).1.2 rfl
  have htext := (toInt64?_exact (.ofInt64 Int64.minValue)).2 _ hparse
  exact ⟨_, hparse, hinteger, htext.1, fun a ha => (htext.2 a ha _).1 hinteger⟩

end Overlay.Numeric
