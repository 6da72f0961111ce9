import Overlay.Proofs.Numeric.Layout
import Overlay.Proofs.Numeric.Quantity
import Overlay.Proofs.Value.Conversion

/-!
# Canonical texts

The canonical text of a number is read as this number, whatever its layout is, so a number comes
back from a string that it was converted to.

* `Decimal.numeral` is the layout; its digits and its exponent are those of the number, with zeros
  moved from one to the other (`Decimal.numeral_value`). That they fit is all that reading needs.
* The text also denotes the quantity that the number is (`denotes_render`).
-/

namespace Overlay

namespace Numeric

open Number (parse?)

namespace Decimal

/-- The sign that a number is written with. -/
def writtenSign (d : Decimal) : Sign := if d.negative then .minus else .absent

theorem render_eq (d : Decimal) :
    d.render = String.ofList (d.writtenSign.text ++ d.numeral.toText.text) := by
  rw [Numeral.text_toText, ← String.ofList_toList (s := d.render), toList_render, writtenSign]
  cases d.negative <;> rfl

theorem fits_numeral (d : Decimal) : d.numeral.Fits := by
  obtain ⟨z, -, -, hscale, hfits, hexponent⟩ := numeral_value d
  exact ⟨hexponent, hscale ▸ hfits⟩

theorem parse?_render (d : Decimal) : parse? d.render = some (.finite d) := by
  have hmagnitude := parse?_numeral d
  rw [render_eq, Numeral.text_toText]
  cases hnegative : d.negative with
  | false =>
    rw [magnitude_of_not_negative hnegative] at hmagnitude
    rw [writtenSign, hnegative]
    exact hmagnitude
  | true =>
    obtain ⟨x, hplain, hminus⟩ := Numeral.parse?_minus (numeral_sound d) (fits_numeral d)
    obtain rfl : x = .finite d.magnitude := Option.some.inj (hplain.symm.trans hmagnitude)
    rw [writtenSign, hnegative]
    rw [Number.negate, negate_magnitude hnegative] at hminus
    exact hminus

theorem denotes_render (d : Decimal) : Denotes d.render (.rational d.toRat) := by
  obtain ⟨z, -, hvalue, hscale, -, -⟩ := numeral_value d
  have hmagnitude : d.numeral.toText.toRat = d.coefficient * 10 ^ d.exponent := by
    rw [NumberText.toRat_eq, Numeral.scale_toText]
    show (value (d.numeral.whole ++ d.numeral.fraction) : ℚ) *
      10 ^ (d.numeral.exponent.getD 0 - d.numeral.fraction.length) = _
    rw [hvalue, hscale, zpow_sub₀ (by norm_num), zpow_natCast]
    push_cast
    field_simp
  have hsame : d.toRat = signed d.writtenSign.isMinus d.numeral.toText.toRat := by
    rw [hmagnitude, toRat, integer, writtenSign]
    cases d.negative <;> simp [signed, Sign.isMinus]
  rw [render_eq, hsame]
  exact .rational _ (numeral_sound d).toText

end Decimal

namespace Number

theorem parse?_render (n : Number) : parse? n.render = some n := by
  cases n with
  | finite d => exact d.parse?_render
  | infinite negative => cases negative <;> decide +kernel

/-- The canonical text of a number writes the quantity that the number is. -/
theorem denotes_render (n : Number) : Denotes n.render n.quantity := by
  cases n with
  | finite d => exact d.denotes_render
  | infinite negative =>
    cases negative with
    | false => exact @Denotes.infinite .absent "Infinity".toList (by decide +kernel)
    | true => exact @Denotes.infinite .minus "Infinity".toList (by decide +kernel)

end Number

end Numeric

/-! ## Conversions -/

namespace Value

open Numeric (Number)

/-- A number is read from its canonical text, and so it comes back from the string that it is
converted to. -/
theorem number_through_text (n : Number) : Number.parse? n.render = some n ∧
    ∃ w, (number n).convert .string = .ok w ∧ w.convert .number = .ok (number n) := by
  have hparse := n.parse?_render
  refine ⟨hparse, string n.render, ?_, ?_⟩
  · exact convert_string.2 (.inr ⟨rfl, rfl⟩)
  · have hread : (string n.render).toNumberValue = .ok (number n) := by
      rw [toNumberValue, hparse]
    exact convert_number.2 (.inr ⟨rfl, hread⟩)

end Value

end Overlay
