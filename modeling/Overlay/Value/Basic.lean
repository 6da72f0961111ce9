import Overlay.Dict
import Overlay.Numeric.Number

/-!
# Values

What a variable can hold.

* `null` is known to be absent, `unknown` is not computed yet.
* Lists, sets and tuples keep their order; maps and objects are dictionaries.
* A capsule is a handle of the host. It is equal to its own copies only.
-/

namespace Overlay

open Numeric (Number)

/-- An opaque handle of the host: the name of its type, and which handle it is. -/
structure Capsule where
  typeName : String
  handle : Nat
deriving DecidableEq, Repr

/-- The text that stands for a capsule where it cannot be shown. -/
def Capsule.render (c : Capsule) : String := "<" ++ c.typeName ++ ">"

/-- A value of a variable. -/
inductive Value where
  | null
  | unknown
  | bool (b : Bool)
  | number (n : Number)
  | string (s : String)
  | list (items : List Value)
  | set (items : List Value)
  | tuple (items : List Value)
  | map (entries : List (String × Value))
  | object (entries : List (String × Value))
  | capsule (c : Capsule)
deriving Repr, Inhabited

namespace Value

/-! ## Equality -/

/-- Whether two values are the same. -/
def same : Value → Value → Bool
  | null, null => true
  | unknown, unknown => true
  | bool a, bool b => a == b
  | number a, number b => decide (a = b)
  | string a, string b => a == b
  | list a, list b => sameItems a b
  | set a, set b => sameItems a b
  | tuple a, tuple b => sameItems a b
  | map a, map b => sameEntries a b
  | object a, object b => sameEntries a b
  | capsule a, capsule b => decide (a = b)
  | _, _ => false
where
  /-- Whether two sequences hold the same values in the same order. -/
  sameItems : List Value → List Value → Bool
  | [], [] => true
  | a :: as, b :: bs => a.same b && sameItems as bs
  | _, _ => false
  /-- Whether two dictionaries hold the same values under the same keys. -/
  sameEntries : List (String × Value) → List (String × Value) → Bool
  | [], [] => true
  | (k, a) :: as, (l, b) :: bs => k == l && a.same b && sameEntries as bs
  | _, _ => false

mutual

theorem eq_of_same : ∀ a b : Value, a.same b = true → a = b
  | null, b, h | unknown, b, h | bool _, b, h | number _, b, h | string _, b, h
  | capsule _, b, h => by cases b <;> simp_all [same]
  | list a, b, h | set a, b, h | tuple a, b, h => by
    cases b <;> simp only [same, Bool.false_eq_true] at h
    rw [eq_of_sameItems _ _ h]
  | map a, b, h | object a, b, h => by
    cases b <;> simp only [same, Bool.false_eq_true] at h
    rw [eq_of_sameEntries _ _ h]

theorem eq_of_sameItems : ∀ a b : List Value, same.sameItems a b = true → a = b
  | [], b, h => by cases b <;> simp_all [same.sameItems]
  | a :: as, b, h => by
    cases b <;> simp only [same.sameItems, Bool.false_eq_true, Bool.and_eq_true] at h
    rw [eq_of_same _ _ h.1, eq_of_sameItems _ _ h.2]

theorem eq_of_sameEntries :
    ∀ a b : List (String × Value), same.sameEntries a b = true → a = b
  | [], b, h => by cases b <;> simp_all [same.sameEntries]
  | (k, a) :: as, b, h => by
    cases b <;>
      simp only [same.sameEntries, Bool.false_eq_true, Bool.and_eq_true, beq_iff_eq] at h
    rw [h.1.1, eq_of_same _ _ h.1.2, eq_of_sameEntries _ _ h.2]

end

mutual

theorem same_refl : ∀ a : Value, a.same a = true
  | null | unknown | bool _ | number _ | string _ | capsule _ => by simp [same]
  | list a | set a | tuple a => by simpa [same] using sameItems_refl a
  | map a | object a => by simpa [same] using sameEntries_refl a

theorem sameItems_refl : ∀ a : List Value, same.sameItems a a = true
  | [] => rfl
  | a :: as => by simp [same.sameItems, same_refl a, sameItems_refl as]

theorem sameEntries_refl : ∀ a : List (String × Value), same.sameEntries a a = true
  | [] => rfl
  | (k, a) :: as => by simp [same.sameEntries, same_refl a, sameEntries_refl as]

end

theorem same_iff {a b : Value} : a.same b = true ↔ a = b :=
  ⟨eq_of_same a b, fun h => h ▸ same_refl a⟩

instance : DecidableEq Value := fun _ _ => decidable_of_iff _ same_iff

/-! ## Looking at values -/

/-- What messages call a value's kind. -/
def kindName : Value → String
  | null => "null"
  | unknown => "unknown"
  | bool _ => "bool"
  | number _ => "number"
  | string _ => "string"
  | list _ => "list"
  | set _ => "set"
  | tuple _ => "tuple"
  | map _ => "map"
  | object _ => "object"
  | capsule _ => "capsule"

/-- Whether the value is `null`. -/
def isNull : Value → Bool
  | null => true
  | _ => false

/-- Whether neither the value nor anything in it is unknown. -/
def isKnown : Value → Bool
  | unknown => false
  | list items | set items | tuple items => areKnown items
  | map entries | object entries => areEntriesKnown entries
  | null | bool _ | number _ | string _ | capsule _ => true
where
  /-- Whether all items are known. -/
  areKnown : List Value → Bool
  | [] => true
  | v :: vs => v.isKnown && areKnown vs
  /-- Whether all entries are known. -/
  areEntriesKnown : List (String × Value) → Bool
  | [] => true
  | (_, v) :: vs => v.isKnown && areEntriesKnown vs

/-- The text of a string. -/
def string? : Value → Option String
  | string s => some s
  | _ => none

/-- The truth value of a bool. -/
def bool? : Value → Option Bool
  | bool b => some b
  | _ => none

/-- The number of a number. -/
def number? : Value → Option Number
  | number n => some n
  | _ => none

/-- The items of a list, set or tuple. -/
def items? : Value → Option (List Value)
  | list items | set items | tuple items => some items
  | _ => none

/-- The entries of a map or object. -/
def entries? : Value → Option (Dict Value)
  | map entries | object entries => some entries
  | _ => none

end Value

end Overlay
