import Overlay.Dict
import Overlay.Numeric.Layout

/-!
# JSON documents

* Numbers are integers of 64 bits, with or without a sign, or floating-point numbers.
* Objects are dictionaries, so their members are in the order of their names.
* `Json.render` writes a document without blanks.
* Documents can be compared: `Json.same` decides equality (`Json.same_iff`).
-/

namespace Overlay

open Numeric (Binary64 Layout)

/-- A JSON document. -/
inductive Json where
  | null
  | bool (b : Bool)
  | integer (n : Int)
  | float (x : Binary64)
  | string (s : String)
  | array (items : List Json)
  | object (members : List (String × Json))
deriving Repr, Inhabited

namespace Json

/-! ## Equality -/

/-- Whether two documents are the same, members in one order included. -/
def same : Json → Json → Bool
  | null, null => true
  | bool a, bool b => a == b
  | integer a, integer b => a == b
  | float a, float b => decide (a = b)
  | string a, string b => a == b
  | array a, array b => sameItems a b
  | object a, object b => sameMembers a b
  | _, _ => false
where
  /-- Whether two arrays hold the same items. -/
  sameItems : List Json → List Json → Bool
  | [], [] => true
  | a :: as, b :: bs => a.same b && sameItems as bs
  | _, _ => false
  /-- Whether two objects hold the same members. -/
  sameMembers : List (String × Json) → List (String × Json) → Bool
  | [], [] => true
  | (k, a) :: as, (l, b) :: bs => k == l && a.same b && sameMembers as bs
  | _, _ => false

mutual

theorem eq_of_same : ∀ a b : Json, a.same b = true → a = b
  | null, b, h | bool _, b, h | integer _, b, h | float _, b, h | string _, b, h => by
    cases b <;> simp_all [same]
  | array a, b, h => by
    cases b <;> simp only [same, Bool.false_eq_true] at h
    rw [eq_of_sameItems _ _ h]
  | object a, b, h => by
    cases b <;> simp only [same, Bool.false_eq_true] at h
    rw [eq_of_sameMembers _ _ h]

theorem eq_of_sameItems : ∀ a b : List Json, same.sameItems a b = true → a = b
  | [], b, h => by cases b <;> simp_all [same.sameItems]
  | a :: as, b, h => by
    cases b <;> simp only [same.sameItems, Bool.false_eq_true, Bool.and_eq_true] at h
    rw [eq_of_same _ _ h.1, eq_of_sameItems _ _ h.2]

theorem eq_of_sameMembers :
    ∀ a b : List (String × Json), same.sameMembers a b = true → a = b
  | [], b, h => by cases b <;> simp_all [same.sameMembers]
  | (k, a) :: as, b, h => by
    cases b <;>
      simp only [same.sameMembers, Bool.false_eq_true, Bool.and_eq_true, beq_iff_eq] at h
    rw [h.1.1, eq_of_same _ _ h.1.2, eq_of_sameMembers _ _ h.2]

end

mutual

theorem same_refl : ∀ a : Json, a.same a = true
  | null | bool _ | integer _ | float _ | string _ => by simp [same]
  | array a => by simpa [same] using sameItems_refl a
  | object a => by simpa [same] using sameMembers_refl a

theorem sameItems_refl : ∀ a : List Json, same.sameItems a a = true
  | [] => rfl
  | a :: as => by simp [same.sameItems, same_refl a, sameItems_refl as]

theorem sameMembers_refl : ∀ a : List (String × Json), same.sameMembers a a = true
  | [] => rfl
  | (k, a) :: as => by simp [same.sameMembers, same_refl a, sameMembers_refl as]

end

theorem same_iff {a b : Json} : a.same b = true ↔ a = b :=
  ⟨eq_of_same a b, fun h => h ▸ same_refl a⟩

instance : DecidableEq Json := fun _ _ => decidable_of_iff _ same_iff

/-! ## Text -/

/-- The four hexadecimal digits of a control character. -/
def fourDigits (n : Nat) : List Char :=
  let ds := Nat.toDigits 16 n
  List.replicate (4 - ds.length) '0' ++ ds

/-- How a character stands in a JSON string. -/
def encodeChar (c : Char) : List Char :=
  if c = '"' then ['\\', '"']
  else if c = '\\' then ['\\', '\\']
  else if c = '\x08' then ['\\', 'b']
  else if c = '\x0c' then ['\\', 'f']
  else if c = '\n' then ['\\', 'n']
  else if c = '\r' then ['\\', 'r']
  else if c = '\t' then ['\\', 't']
  else if c.toNat < 32 then '\\' :: 'u' :: fourDigits c.toNat
  else [c]

/-- A text as a JSON string. -/
def quote (s : String) : String := String.ofList ('"' :: s.toList.flatMap encodeChar ++ ['"'])

/-- A document without blanks. -/
def render : Json → String
  | null => "null"
  | bool b => if b then "true" else "false"
  | integer n => toString n
  | float x => Layout.json.render x
  | string s => quote s
  | array items => "[" ++ ",".intercalate (renderItems items) ++ "]"
  | object members => "\x7b" ++ ",".intercalate (renderMembers members) ++ "\x7d"
where
  /-- The items, each without blanks. -/
  renderItems : List Json → List String
  | [] => []
  | x :: xs => x.render :: renderItems xs
  /-- The members, each with its name and a colon. -/
  renderMembers : List (String × Json) → List String
  | [] => []
  | (k, x) :: xs => (quote k ++ ":" ++ x.render) :: renderMembers xs

end Json

end Overlay
