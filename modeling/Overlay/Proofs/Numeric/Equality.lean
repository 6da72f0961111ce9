import Overlay.Proofs.Numeric.Quantity

/-!
# Equal numbers and equal quantities

The numbers that two texts are read as are the same if the texts denote the same quantity. The
converse needs that an exponent fits in 64 bits when the zeros at the end of the digits are counted
in: past these the exponent stays where it is, and texts that differ in zeros only are read as one
number.

* `PastRange` says that two quantities have the same digits and exponents past 64 bits.
* What is kept of two quantities is the same exactly if they are, or are `PastRange`
  (`Kept.eq_iff`). So it is for the numbers that two texts are read as (`parse?_eq_iff`).
-/

namespace Overlay.Numeric

open Number (parse?)

/-- Whether two quantities have the same digits, which do not end with a zero, and exponents that are
the greatest one of 64 bits or more. -/
def PastRange (a b : Quantity) : Prop :=
  ∃ c : ℤ, ¬10 ∣ c ∧ ∃ j k : ℕ,
    a = .rational (c * 10 ^ (greatestInt64 + j)) ∧ b = .rational (c * 10 ^ (greatestInt64 + k))

variable {s t : String} {a b : Quantity} {m n : Number}

/-- Past 64 bits the exponent is the same one. -/
theorem PastRange.eq (h : PastRange a b) (ha : Kept a m) (hb : Kept b n) : m = n := by
  obtain ⟨c, hc, j, k, rfl, rfl⟩ := h
  obtain ⟨d, rfl, hd, hdc, hdk⟩ := ha.eq_scaled hc
  obtain ⟨e, rfl, -, hec, hek⟩ := hb.eq_scaled hc
  have hexponent : d.exponent = e.exponent := by omega
  rw [Decimal.eq_of_integer hd (hdc.trans hec.symm) hexponent]

/-- A number is kept of one quantity, or of quantities past 64 bits. -/
theorem Kept.eq_or_pastRange (ha : Kept a n) (hb : Kept b n) : a = b ∨ PastRange a b := by
  cases ha with
  | infinite negative =>
    cases hb
    exact .inl rfl
  | zero =>
    generalize hzero : Number.zero = x at hb
    cases hb with
    | infinite negative => cases hzero
    | zero => exact .inl rfl
    | scaled hd hexponent =>
      cases hzero
      exact absurd rfl hd
  | @scaled d k hd hexponent =>
    generalize hsame : Number.finite d = x at hb
    cases hb with
    | infinite negative => cases hsame
    | zero =>
      cases hsame
      exact absurd rfl hd
    | @scaled e k' he hexponent' =>
      cases hsame
      -- An exponent that is less than the greatest one is kept as it is.
      by_cases hrange : greatestInt64 ≤ k ∧ greatestInt64 ≤ k'
      · refine .inr ⟨d.integer, Decimal.not_dvd_integer hd, (k - greatestInt64).toNat,
          (k' - greatestInt64).toNat, ?_, ?_⟩
        · rw [Int.toNat_of_nonneg (by omega), add_sub_cancel]
        · rw [Int.toNat_of_nonneg (by omega), add_sub_cancel]
      · have hk : k = k' := by omega
        exact .inl (by rw [hk])

theorem Kept.eq_iff (ha : Kept a m) (hb : Kept b n) : m = n ↔ a = b ∨ PastRange a b := by
  constructor
  · rintro rfl
    exact ha.eq_or_pastRange hb
  · rintro (rfl | hpast)
    · exact ha.unique hb
    · exact hpast.eq ha hb

/-! ## The greatest exponent -/

/-- A one and zeros with the greatest exponent. -/
def greatestPower (z : ℕ) : NumberText :=
  ⟨'1' :: List.replicate z '0', [], some ⟨false, .absent, digits greatestInt64.toNat⟩⟩

theorem sound_greatestPower (z : ℕ) : (greatestPower z).Sound := by
  constructor
  case nonempty => exact List.cons_ne_nil _ _
  case whole =>
    intro c hc
    rcases List.mem_cons.1 hc with rfl | hzero
    · decide
    · rw [(List.mem_replicate.1 hzero).2]
      decide
  case fraction => exact fun c hc => nomatch hc
  case exponent =>
    rintro - ⟨⟩
    exact ⟨digits_ne_nil greatestInt64.toNat, areDigits_digits greatestInt64.toNat⟩

theorem scale_greatestPower (z : ℕ) : (greatestPower z).scale = greatestInt64 := by
  show ((value (digits greatestInt64.toNat) : ℕ) : ℤ) = greatestInt64
  rw [value_digits]
  rfl

theorem fits_greatestPower (z : ℕ) : (greatestPower z).Fits := by
  constructor
  · rw [scale_greatestPower]
    decide
  · rw [scale_greatestPower]
    show FitsInt64 (greatestInt64 - 0)
    decide

theorem toRat_greatestPower (z : ℕ) :
    (greatestPower z).toRat = ((1 : ℤ) : ℚ) * 10 ^ (greatestInt64 + z) := by
  have hvalue : value ('1' :: List.replicate z '0' ++ []) = 10 ^ z := by
    rw [List.append_nil]
    exact (value_append_zeros ['1'] z).trans (Nat.one_mul _)
  rw [NumberText.toRat_eq, scale_greatestPower, zpow_add₀ (by norm_num), zpow_natCast]
  show ((value ('1' :: List.replicate z '0' ++ []) : ℕ) : ℚ) * 10 ^ (greatestInt64 - 0) = _
  rw [hvalue, sub_zero]
  push_cast
  ring

theorem denotes_greatestPower (z : ℕ) : Denotes (String.ofList (greatestPower z).text)
    (.rational (((1 : ℤ) : ℚ) * 10 ^ (greatestInt64 + z))) := by
  rw [← toRat_greatestPower]
  exact .rational .absent (sound_greatestPower z)

/-- All these texts are read as one number. -/
theorem parse?_greatestPower :
    ∃ n, ∀ z, parse? (String.ofList (greatestPower z).text) = some n := by
  have hread : ∀ z, ∃ n, parse? (String.ofList (greatestPower z).text) = some n := by
    intro z
    have hsound := sound_greatestPower z
    have hparse := parse?_sign .absent fun _ => hsound.unsigned
    rw [hsound.namesInfinity, NumberText.parseFinite?_text hsound (fits_greatestPower z)] at hparse
    exact ⟨_, hparse⟩
  obtain ⟨n, hn⟩ := hread 0
  refine ⟨n, fun z => ?_⟩
  obtain ⟨m, hm⟩ := hread z
  have hpast : PastRange (.rational (((1 : ℤ) : ℚ) * 10 ^ (greatestInt64 + z)))
      (.rational (((1 : ℤ) : ℚ) * 10 ^ (greatestInt64 + (0 : ℕ)))) :=
    ⟨1, by decide, z, 0, rfl, rfl⟩
  rw [hm, hpast.eq ((denotes_greatestPower z).kept hm) ((denotes_greatestPower 0).kept hn)]

/-! ## Texts -/

/-- Texts that are read as numbers denote one quantity each. The numbers are the same exactly if the
quantities are, or if these have the same digits and exponents past 64 bits. -/
theorem parse?_eq_iff (hm : parse? s = some m) (hn : parse? t = some n) :
    (∃! a, Denotes s a) ∧ (∃! b, Denotes t b) ∧
      ∀ a b, Denotes s a → Denotes t b → (m = n ↔ a = b ∨ PastRange a b) := by
  refine ⟨existsUnique_denotes hm, existsUnique_denotes hn, ?_⟩
  intro a b ha hb
  exact (ha.kept hm).eq_iff (hb.kept hn)

/-- Two texts of one number. -/
theorem parse?_eq_iff_fraction : ∃ m n, parse? "-1.50" = some m ∧ parse? "-15E-1" = some n ∧
    (∃! a, Denotes "-1.50" a) ∧ (∃! b, Denotes "-15E-1" b) ∧
      ∀ a b, Denotes "-1.50" a → Denotes "-15E-1" b → (m = n ↔ a = b ∨ PastRange a b) := by
  obtain ⟨m, hm⟩ : ∃ m, parse? "-1.50" = some m := Option.isSome_iff_exists.1 (by decide +kernel)
  obtain ⟨n, hn⟩ : ∃ n, parse? "-15E-1" = some n := Option.isSome_iff_exists.1 (by decide +kernel)
  exact ⟨m, n, hm, hn, parse?_eq_iff hm hn⟩

/-- A zero more, and the number is the same. -/
theorem zero_lost : ∃ n a b, parse? "1e9223372036854775807" = some n ∧
    parse? "10e9223372036854775807" = some n ∧ Denotes "1e9223372036854775807" a ∧
    Denotes "10e9223372036854775807" b ∧ a ≠ b := by
  have hone : String.ofList (greatestPower 0).text = "1e9223372036854775807" := by decide +kernel
  have hten : String.ofList (greatestPower 1).text = "10e9223372036854775807" := by decide +kernel
  obtain ⟨n, hn⟩ := parse?_greatestPower
  have ha := denotes_greatestPower 0
  have hb := denotes_greatestPower 1
  have hreadOne := hn 0
  have hreadTen := hn 1
  rw [hone] at ha hreadOne
  rw [hten] at hb hreadTen
  refine ⟨n, _, _, hreadOne, hreadTen, ha, hb, ?_⟩
  -- The powers of ten stay as they are: neither is ever computed.
  intro heq
  have hexponent := (scaled_unique (by decide) (by decide) (Quantity.rational.inj heq)).2
  omega

end Overlay.Numeric
