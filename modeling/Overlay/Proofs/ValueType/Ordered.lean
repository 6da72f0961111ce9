import Mathlib.Tactic.SplitIfs
import Overlay.Proofs.Dict
import Overlay.ValueType.Expression

/-!
# Types in order

* The attributes of an object type are a dictionary. A type is `Ordered` if all dictionaries in it
  ascend.
* `ofExpr_ordered`: every type that an expression writes is.
-/

namespace Overlay.ValueType

open Hcl (Expr Entry)

/-- Whether the attributes of every object type in the type ascend. -/
def Ordered : ValueType → Prop
  | any | string | number | bool => True
  | list t | set t | map t => t.Ordered
  | tuple ts => elementsOrdered ts
  | object ts => Dict.Ascending ts ∧ attributesOrdered ts
where
  /-- Whether all elements are ordered. -/
  elementsOrdered : List ValueType → Prop
  | [] => True
  | t :: ts => t.Ordered ∧ elementsOrdered ts
  /-- Whether the types of all attributes are ordered. -/
  attributesOrdered : List (String × ValueType) → Prop
  | [] => True
  | (_, t) :: ts => t.Ordered ∧ attributesOrdered ts

/-- The types that a keyword stands for. -/
theorem ofKeyword?_ordered {name : String} {t : ValueType} (h : ofKeyword? name = some t) :
    t.Ordered := by
  unfold ofKeyword? at h
  split at h <;> cases h <;> trivial

/-! ## Types that expressions write -/

theorem map_eq_ok {ε α β : Type} {f : α → β} {x : Except ε α} {b : β} :
    x.map f = .ok b ↔ ∃ a, x = .ok a ∧ b = f a := by
  cases x <;> simp [Except.map, eq_comm]

/-- The types that a call of a constructor with one argument writes. -/
theorem ofExpr_call {name : String} {arguments : List Expr} {span : Span} {t : ValueType}
    (h : ofExpr (.call name arguments span) = .ok t) :
    ∃ argument, arguments = [argument] ∧
      ((∃ element, ofExpr argument = .ok element ∧
          (t = list element ∨ t = set element ∨ t = map element)) ∨
        (∃ items s ts, argument = .tuple items s ∧ ofExpr.ofItems items = .ok ts ∧ t = tuple ts) ∨
        ∃ entries s ts, argument = .object entries s ∧ ofExpr.ofEntries [] entries = .ok ts ∧
          t = object ts) := by
  rcases arguments with _ | ⟨argument, _ | ⟨other, rest⟩⟩
  · unfold ofExpr at h
    split_ifs at h
  · refine ⟨argument, rfl, ?_⟩
    unfold ofExpr at h
    split_ifs at h
    · rcases map_eq_ok.1 h with ⟨element, helement, rfl⟩
      exact .inl ⟨element, helement, .inl rfl⟩
    · rcases map_eq_ok.1 h with ⟨element, helement, rfl⟩
      exact .inl ⟨element, helement, .inr (.inl rfl)⟩
    · rcases map_eq_ok.1 h with ⟨element, helement, rfl⟩
      exact .inl ⟨element, helement, .inr (.inr rfl)⟩
    · simp only at h
      split at h
      · next items s =>
        rcases map_eq_ok.1 h with ⟨ts, hts, rfl⟩
        exact .inr (.inl ⟨items, s, ts, rfl, hts, rfl⟩)
      · cases h
    · simp only at h
      split at h
      · next entries s =>
        rcases map_eq_ok.1 h with ⟨ts, hts, rfl⟩
        exact .inr (.inr ⟨entries, s, ts, rfl, hts, rfl⟩)
      · cases h
  · unfold ofExpr at h
    split_ifs at h

/-- A name without steps writes the type of a keyword. -/
theorem ofExpr_traversal {path : Hcl.Traversal} {t : ValueType}
    (h : ofExpr (.traversal path) = .ok t) : ofKeyword? path.root = some t := by
  rw [ofExpr] at h
  split_ifs at h
  split at h
  · next hkeyword =>
    cases h
    exact hkeyword
  · cases h

theorem ofItems_eq_ok {x : Expr} {xs : List Expr} {ts : List ValueType}
    (h : ofExpr.ofItems (x :: xs) = .ok ts) :
    ∃ u us, ofExpr x = .ok u ∧ ofExpr.ofItems xs = .ok us ∧ ts = u :: us := by
  rw [ofExpr.ofItems] at h
  cases hx : ofExpr x with
  | error f => simp [hx, bind, Except.bind] at h
  | ok u =>
    cases hxs : ofExpr.ofItems xs with
    | error f => simp [hx, hxs, bind, Except.bind] at h
    | ok us =>
      simp only [hx, hxs, bind, Except.bind, pure, Except.pure, Except.ok.injEq] at h
      exact ⟨u, us, rfl, rfl, h.symm⟩

/-- The first entry adds an attribute, or takes the place of one with its name. -/
theorem ofEntries_eq_ok {key : Hcl.Key} {value : Expr} {rest : List Entry}
    {types ts : Dict ValueType} (h : ofExpr.ofEntries types (.mk key value :: rest) = .ok ts) :
    ∃ name u, attributeName? key = some name ∧ ofExpr value = .ok u ∧
      ofExpr.ofEntries (types.insert name u) rest = .ok ts := by
  rw [ofExpr.ofEntries] at h
  split at h
  · cases h
  · next name hname =>
    cases hvalue : ofExpr value with
    | error f => simp [hvalue, bind, Except.bind] at h
    | ok u =>
      simp only [hvalue, bind, Except.bind] at h
      exact ⟨name, u, hname, rfl, h⟩

theorem attributesOrdered_insert {name : String} {t : ValueType} {types : Dict ValueType}
    (ht : t.Ordered) (h : Ordered.attributesOrdered types) :
    Ordered.attributesOrdered (types.insert name t) := by
  induction types with
  | nil => exact ⟨ht, trivial⟩
  | cons entry rest ih =>
    rcases entry with ⟨k, u⟩
    rw [Dict.insert]
    split_ifs
    · exact ⟨ht, h⟩
    · exact ⟨ht, h.2⟩
    · exact ⟨h.1, ih h.2⟩

mutual

/-- A type that an expression writes is ordered. -/
theorem ofExpr_ordered : ∀ (e : Expr) {t : ValueType}, ofExpr e = .ok t → t.Ordered
  | .parens inner _, t, h => by
    rw [ofExpr] at h
    exact ofExpr_ordered inner h
  | .traversal path, t, h => ofKeyword?_ordered (ofExpr_traversal h)
  | .call name arguments span, t, h => by
    rcases ofExpr_call h with ⟨argument, rfl, ⟨element, helement, ht⟩ |
      ⟨items, s, ts, rfl, hts, rfl⟩ | ⟨entries, s, ts, rfl, hts, rfl⟩⟩
    · have hordered := ofExpr_ordered argument helement
      rcases ht with rfl | rfl | rfl <;> exact hordered
    · exact ofItems_ordered items hts
    · exact ofEntries_ordered entries Dict.ascending_nil trivial hts
  | .null _, _, h | .bool _ _, _, h | .number _ _, _, h | .string _ _, _, h | .tuple _ _, _, h
  | .object _ _, _, h | .negate _ _, _, h => by
    rw [ofExpr] at h
    · cases h
    all_goals intros; contradiction

theorem ofItems_ordered : ∀ (items : List Expr) {ts : List ValueType},
    ofExpr.ofItems items = .ok ts → Ordered.elementsOrdered ts
  | [], _, h => by
    cases h
    trivial
  | x :: xs, ts, h => by
    rcases ofItems_eq_ok h with ⟨u, us, hx, hxs, rfl⟩
    exact ⟨ofExpr_ordered x hx, ofItems_ordered xs hxs⟩

theorem ofEntries_ordered : ∀ (entries : List Entry) {types ts : Dict ValueType},
    Dict.Ascending types → Ordered.attributesOrdered types →
      ofExpr.ofEntries types entries = .ok ts →
        Dict.Ascending ts ∧ Ordered.attributesOrdered ts
  | [], types, ts, hascending, hordered, h => by
    rw [ofExpr.ofEntries] at h
    cases h
    exact ⟨hascending, hordered⟩
  | .mk key value :: rest, types, ts, hascending, hordered, h => by
    rcases ofEntries_eq_ok h with ⟨name, u, -, hvalue, hrest⟩
    exact ofEntries_ordered rest (Dict.ascending_insert hascending name u)
      (attributesOrdered_insert (ofExpr_ordered value hvalue) hordered) hrest

end

end Overlay.ValueType
