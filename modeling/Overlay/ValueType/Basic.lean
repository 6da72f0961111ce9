import Overlay.Dict

/-!
# Types of variables

* `ValueType` is a declared type; the keywords `list`, `set` and `map` without an element type mean
  any elements.
* `ValueType.render` writes a type as a type expression, `friendlyName` as messages say it.
-/

namespace Overlay

/-- A declared type. -/
inductive ValueType where
  | any
  | string
  | number
  | bool
  | list (element : ValueType)
  | set (element : ValueType)
  | map (element : ValueType)
  | tuple (elements : List ValueType)
  | object (attributes : List (String × ValueType))
deriving Repr, Inhabited

namespace ValueType

/-! ## Equality -/

/-- Whether two types are the same. -/
def same : ValueType → ValueType → Bool
  | any, any => true
  | string, string => true
  | number, number => true
  | bool, bool => true
  | list a, list b => a.same b
  | set a, set b => a.same b
  | map a, map b => a.same b
  | tuple a, tuple b => sameElements a b
  | object a, object b => sameAttributes a b
  | _, _ => false
where
  /-- Whether two lists hold the same types. -/
  sameElements : List ValueType → List ValueType → Bool
  | [], [] => true
  | a :: as, b :: bs => a.same b && sameElements as bs
  | _, _ => false
  /-- Whether two lists hold the same types under the same names. -/
  sameAttributes : List (String × ValueType) → List (String × ValueType) → Bool
  | [], [] => true
  | (k, a) :: as, (l, b) :: bs => k == l && a.same b && sameAttributes as bs
  | _, _ => false

mutual

theorem eq_of_same : ∀ a b : ValueType, a.same b = true → a = b
  | any, b, h | string, b, h | number, b, h | bool, b, h => by cases b <;> simp_all [same]
  | list a, b, h | set a, b, h | map a, b, h => by
    cases b <;> simp only [same, Bool.false_eq_true] at h
    rw [eq_of_same _ _ h]
  | tuple a, b, h => by
    cases b <;> simp only [same, Bool.false_eq_true] at h
    rw [eq_of_sameElements _ _ h]
  | object a, b, h => by
    cases b <;> simp only [same, Bool.false_eq_true] at h
    rw [eq_of_sameAttributes _ _ h]

theorem eq_of_sameElements : ∀ a b : List ValueType, same.sameElements a b = true → a = b
  | [], b, h => by cases b <;> simp_all [same.sameElements]
  | a :: as, b, h => by
    cases b <;> simp only [same.sameElements, Bool.false_eq_true, Bool.and_eq_true] at h
    rw [eq_of_same _ _ h.1, eq_of_sameElements _ _ h.2]

theorem eq_of_sameAttributes :
    ∀ a b : List (String × ValueType), same.sameAttributes a b = true → a = b
  | [], b, h => by cases b <;> simp_all [same.sameAttributes]
  | (k, a) :: as, b, h => by
    cases b <;>
      simp only [same.sameAttributes, Bool.false_eq_true, Bool.and_eq_true, beq_iff_eq] at h
    rw [h.1.1, eq_of_same _ _ h.1.2, eq_of_sameAttributes _ _ h.2]

end

mutual

theorem same_refl : ∀ a : ValueType, a.same a = true
  | any | string | number | bool => by simp [same]
  | list a | set a | map a => by simpa [same] using same_refl a
  | tuple a => by simpa [same] using sameElements_refl a
  | object a => by simpa [same] using sameAttributes_refl a

theorem sameElements_refl : ∀ a : List ValueType, same.sameElements a a = true
  | [] => rfl
  | a :: as => by simp [same.sameElements, same_refl a, sameElements_refl as]

theorem sameAttributes_refl : ∀ a : List (String × ValueType), same.sameAttributes a a = true
  | [] => rfl
  | (k, a) :: as => by simp [same.sameAttributes, same_refl a, sameAttributes_refl as]

end

theorem same_iff {a b : ValueType} : a.same b = true ↔ a = b :=
  ⟨eq_of_same a b, fun h => h ▸ same_refl a⟩

instance : DecidableEq ValueType := fun _ _ => decidable_of_iff _ same_iff

/-! ## Names -/

/-- Whether the type is a string, a number or a bool. -/
def isPrimitive : ValueType → Bool
  | string | number | bool => true
  | _ => false

/-- How messages call a type. -/
def friendlyName : ValueType → String
  | any => "any"
  | string => "string"
  | number => "number"
  | bool => "bool"
  | list t => "list of " ++ t.friendlyName
  | set t => "set of " ++ t.friendlyName
  | map t => "map of " ++ t.friendlyName
  | tuple _ => "tuple"
  | object _ => "object"

/-- A type as a type expression. -/
def render : ValueType → String
  | any => "any"
  | string => "string"
  | number => "number"
  | bool => "bool"
  | list t => "list(" ++ t.render ++ ")"
  | set t => "set(" ++ t.render ++ ")"
  | map t => "map(" ++ t.render ++ ")"
  | tuple ts => "tuple([" ++ ", ".intercalate (renderElements ts) ++ "])"
  | object ts => "object(\x7b" ++ ", ".intercalate (renderAttributes ts) ++ "\x7d)"
where
  /-- The types as type expressions. -/
  renderElements : List ValueType → List String
  | [] => []
  | t :: ts => t.render :: renderElements ts
  /-- The types as type expressions, each behind its name and an equals sign. -/
  renderAttributes : List (String × ValueType) → List String
  | [] => []
  | (k, t) :: ts => (k ++ " = " ++ t.render) :: renderAttributes ts

end ValueType

end Overlay
