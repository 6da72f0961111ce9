import Overlay.Native.Basic
import Overlay.Proofs.Numeric.Integers

/-!
# Native values as values

Templates do not tell lists and sets from tuples, nor maps from objects. Nothing else is lost on the
way of a known value to its native form and back, as long as its numbers are integers of 64 bits.
Nothing at all is lost on the way of a native value to a value and back, as long as it has no
floating-point numbers.

* `loose` is what comes back of a value.
* `Integral` and `Floatless` keep floating-point numbers out of both ways. An integer of 64 bits is
  native as itself (`ofNumber_of_quantity`), and a number is known by its quantity, so it comes back
  as the same number (`toValue_ofNumber`).
* Both inductions follow the conversions: over a value, its items and its entries.
-/

namespace Overlay

open Numeric (Number)

namespace Value

/-- The value with every list and set as a tuple and every map as an object, at any depth. -/
def loose : Value → Value
  | list items | set items | tuple items => tuple (looseItems items)
  | map entries | object entries => object (looseEntries entries)
  | null => null
  | unknown => unknown
  | bool b => bool b
  | number n => number n
  | string s => string s
  | capsule c => capsule c
where
  /-- The items, each of them loose. -/
  looseItems : List Value → List Value
  | [] => []
  | v :: vs => v.loose :: looseItems vs
  /-- The values under all keys, each of them loose. -/
  looseEntries : List (String × Value) → Dict Value
  | [] => []
  | (k, v) :: rest => (k, v.loose) :: looseEntries rest

/-- All numbers at any depth are integers of 64 bits. -/
def Integral : Value → Prop
  | number n => ∃ i : Int64, n.quantity = .rational i.toInt
  | list items | set items | tuple items => ItemsIntegral items
  | map entries | object entries => EntriesIntegral entries
  | null | unknown | bool _ | string _ | capsule _ => True
where
  /-- All numbers in the items are integers of 64 bits. -/
  ItemsIntegral : List Value → Prop
  | [] => True
  | v :: vs => v.Integral ∧ ItemsIntegral vs
  /-- All numbers under all keys are integers of 64 bits. -/
  EntriesIntegral : List (String × Value) → Prop
  | [] => True
  | (_, v) :: rest => v.Integral ∧ EntriesIntegral rest

end Value

namespace NativeValue

/-- There is no floating-point number at any depth. -/
def Floatless : NativeValue → Prop
  | float _ => False
  | seq items => ItemsFloatless items
  | map entries => EntriesFloatless entries
  | absent | bool _ | int _ | string _ | handle _ => True
where
  /-- There is no floating-point number in the items. -/
  ItemsFloatless : List NativeValue → Prop
  | [] => True
  | x :: xs => x.Floatless ∧ ItemsFloatless xs
  /-- There is no floating-point number under any key. -/
  EntriesFloatless : List (String × NativeValue) → Prop
  | [] => True
  | (_, x) :: rest => x.Floatless ∧ EntriesFloatless rest

/-! ## Numbers -/

variable {n : Number} {i : Int64}

/-- A number that is an integer of 64 bits, however it was written, is native as this integer. -/
theorem ofNumber_of_quantity (h : n.quantity = .rational i.toInt) : ofNumber n = .int i := by
  rw [ofNumber, Number.toInt64?_eq_quantity.2 h]

theorem ofNumber_ofInt64 (i : Int64) : ofNumber (.ofInt64 i) = .int i :=
  ofNumber_of_quantity (Number.quantity_ofInt64 i)

/-- Two numbers that are the same integer are the same number. -/
theorem toValue_ofNumber (h : n.quantity = .rational i.toInt) :
    (ofNumber n).toValue = .number n := by
  rw [ofNumber_of_quantity h, toValue]
  congr 1
  exact Number.quantity_inj ((Number.quantity_ofInt64 i).trans h.symm)

end NativeValue

/-! ## From a value and back -/

namespace Value

open NativeValue (toValue toValue_ofNumber)

mutual

/-- What comes back of a known value is the loose one. -/
theorem toValue_toNative : ∀ {v : Value}, v.isKnown = true → v.Integral →
    ∃ x, v.toNative = .ok x ∧ x.toValue = v.loose
  | null, _, _ => ⟨_, rfl, rfl⟩
  | bool _, _, _ => ⟨_, rfl, rfl⟩
  | string _, _, _ => ⟨_, rfl, rfl⟩
  | capsule _, _, _ => ⟨_, rfl, rfl⟩
  | number n, _, hn => by
    rcases hn with ⟨i, hi⟩
    exact ⟨.ofNumber n, rfl, toValue_ofNumber hi⟩
  | list items, hknown, hintegral | set items, hknown, hintegral
  | tuple items, hknown, hintegral => by
    rcases toValue_toNativeItems 0 hknown hintegral with ⟨xs, hxs, hback⟩
    refine ⟨.seq xs, ?_, ?_⟩
    · rw [toNative, hxs]
      rfl
    · rw [toValue, hback, loose]
  | map entries, hknown, hintegral | object entries, hknown, hintegral => by
    rcases toValue_toNativeEntries hknown hintegral with ⟨xs, hxs, hback⟩
    refine ⟨.map xs, ?_, ?_⟩
    · rw [toNative, hxs]
      rfl
    · rw [toValue, hback, loose]

theorem toValue_toNativeItems : ∀ {items : List Value} (index : Nat),
    isKnown.areKnown items = true → Integral.ItemsIntegral items →
      ∃ xs, toNative.toNativeItems index items = .ok xs ∧
        toValue.toValueItems xs = loose.looseItems items
  | [], _, _, _ => ⟨[], rfl, rfl⟩
  | v :: vs, index, hknown, hintegral => by
    rw [isKnown.areKnown, Bool.and_eq_true] at hknown
    rcases toValue_toNative hknown.1 hintegral.1 with ⟨x, hx, hback⟩
    rcases toValue_toNativeItems (index + 1) hknown.2 hintegral.2 with ⟨xs, hxs, hbacks⟩
    refine ⟨x :: xs, ?_, ?_⟩
    · rw [toNative.toNativeItems, hx, hxs]
      rfl
    · rw [toValue.toValueItems, hback, hbacks, loose.looseItems]

theorem toValue_toNativeEntries : ∀ {entries : List (String × Value)},
    isKnown.areEntriesKnown entries = true → Integral.EntriesIntegral entries →
      ∃ xs, toNative.toNativeEntries entries = .ok xs ∧
        toValue.toValueEntries xs = loose.looseEntries entries
  | [], _, _ => ⟨[], rfl, rfl⟩
  | (k, v) :: rest, hknown, hintegral => by
    rw [isKnown.areEntriesKnown, Bool.and_eq_true] at hknown
    rcases toValue_toNative hknown.1 hintegral.1 with ⟨x, hx, hback⟩
    rcases toValue_toNativeEntries hknown.2 hintegral.2 with ⟨xs, hxs, hbacks⟩
    refine ⟨(k, x) :: xs, ?_, ?_⟩
    · rw [toNative.toNativeEntries, hx, hxs]
      rfl
    · rw [toValue.toValueEntries, hback, hbacks, loose.looseEntries]

end

end Value

/-! ## From a native value and back -/

namespace NativeValue

open Value (toNative)

mutual

/-- A native value without floating-point numbers comes back as it is. -/
theorem toNative_toValue : ∀ {x : NativeValue}, x.Floatless → x.toValue.toNative = .ok x
  | absent, _ | bool _, _ | string _, _ | handle _, _ => rfl
  | int i, _ => by
    rw [toValue, toNative, ofNumber_ofInt64]
  | float _, h => by cases h
  | seq items, h => by
    rw [toValue, toNative, toNativeItems_toValueItems 0 h]
    rfl
  | map entries, h => by
    rw [toValue, toNative, toNativeEntries_toValueEntries h]
    rfl

theorem toNativeItems_toValueItems : ∀ {items : List NativeValue} (index : Nat),
    Floatless.ItemsFloatless items →
      toNative.toNativeItems index (toValue.toValueItems items) = .ok items
  | [], _, _ => rfl
  | x :: xs, index, h => by
    rw [toValue.toValueItems, toNative.toNativeItems, toNative_toValue h.1,
      toNativeItems_toValueItems (index + 1) h.2]
    rfl

theorem toNativeEntries_toValueEntries : ∀ {entries : List (String × NativeValue)},
    Floatless.EntriesFloatless entries →
      toNative.toNativeEntries (toValue.toValueEntries entries) = .ok entries
  | [], _ => rfl
  | (k, x) :: rest, h => by
    rw [toValue.toValueEntries, toNative.toNativeEntries, toNative_toValue h.1,
      toNativeEntries_toValueEntries h.2]
    rfl

end

/-- Native values and values without floating-point numbers embed into each other. A known value
whose numbers are all integers of 64 bits comes back from its native form with lists and sets as
tuples and maps as objects; a native value without floating-point numbers comes back as it is. -/
theorem toValue_embeds :
    (∀ v : Value, v.isKnown = true → v.Integral → ∃ x, v.toNative = .ok x ∧ x.toValue = v.loose) ∧
      ∀ x : NativeValue, x.Floatless → x.toValue.toNative = .ok x := by
  constructor
  · intro v hknown hintegral
    exact Value.toValue_toNative hknown hintegral
  · intro x hx
    exact toNative_toValue hx

/-- A map of a set and of a list, with the least and the greatest integer of 64 bits. Its native
form is the one of the loose value. -/
theorem toValue_embeds_nested :
    let v : Value := .map [
      ("bounds", .set [.number (.ofInt64 Int64.minValue), .number (.ofInt64 Int64.maxValue)]),
      ("rest", .list [.null, .object [("c", .capsule ⟨"link", 7⟩)]])]
    let x : NativeValue := .map [("bounds", .seq [.int Int64.minValue, .int Int64.maxValue]),
      ("rest", .seq [.absent, .map [("c", .handle ⟨"link", 7⟩)]])]
    v.isKnown = true ∧ v.Integral ∧ x.Floatless ∧ v.toNative = .ok x ∧ x.toValue = v.loose ∧
      v.loose.toNative = .ok x := by
  intro v x
  have hintegral : v.Integral :=
    ⟨⟨⟨_, Number.quantity_ofInt64 _⟩, ⟨_, Number.quantity_ofInt64 _⟩, trivial⟩,
      ⟨trivial, ⟨trivial, trivial⟩, trivial⟩, trivial⟩
  have hfloatless : x.Floatless :=
    ⟨⟨trivial, trivial, trivial⟩, ⟨trivial, ⟨trivial, trivial⟩, trivial⟩, trivial⟩
  have hnative : v.toNative = .ok x := by
    simp only [v, toNative, toNative.toNativeEntries, toNative.toNativeItems, ofNumber_ofInt64]
    rfl
  rcases toValue_embeds.1 v rfl hintegral with ⟨y, hy, hback⟩
  rw [hnative] at hy
  cases hy
  refine ⟨rfl, hintegral, hfloatless, hnative, hback, ?_⟩
  rw [← hback]
  exact toValue_embeds.2 x hfloatless

end NativeValue

end Overlay
