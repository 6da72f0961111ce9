import Mathlib.Tactic.SplitIfs
import Overlay.Proofs.Hcl.Token
import Overlay.Proofs.Hcl.Tree
import Overlay.ValueType.Expression

/-!
# Types and places

The type that an expression writes does not depend on the places in it, and where it writes none, the
problem stands where its place is changed to (`ofExpr_mapSpans`).
-/

namespace Overlay.ValueType

open Hcl (Expr Entry Key Traversal Located)

theorem mapError_map {ε η α β : Type} (g : ε → η) (h : α → β) (x : Except ε α) :
    (x.map h).mapError g = (x.mapError g).map h := by
  cases x <;> rfl

theorem attributeName?_mapSpans (f : Span → Span) (k : Key) :
    attributeName? (k.mapSpans f) = attributeName? k := by
  cases k with
  | path t =>
    rw [Key.mapSpans, attributeName?, attributeName?, Hcl.Traversal.isBare_mapSpans,
      Hcl.Traversal.root_mapSpans]
  | expr e => cases e <;> rfl

section

variable (f : Span → Span)

mutual

/-- The type of an expression does not depend on the places in it. -/
theorem ofExpr_mapSpans : ∀ e : Expr,
    ofExpr (e.mapSpans f) = (ofExpr e).mapError (Located.mapSpan f)
  | .parens inner _ => ofExpr_mapSpans inner
  | .traversal path => by
    rw [Expr.mapSpans, ofExpr, ofExpr, Hcl.Traversal.isBare_mapSpans, Hcl.Traversal.root_mapSpans,
      Hcl.Traversal.span_mapSpans]
    split
    · split <;> rfl
    · rfl
  | .call name [] span => by
    rw [Expr.mapSpans, Hcl.mapItems]
    unfold ofExpr
    split <;> rfl
  | .call name [argument] span => by
    have hargument := ofExpr_mapSpans argument
    rw [Expr.mapSpans, Hcl.mapItems, Hcl.mapItems]
    unfold ofExpr
    dsimp only
    split_ifs
    · rfl
    · rw [hargument, mapError_map]
    · rw [hargument, mapError_map]
    · rw [hargument, mapError_map]
    · -- The argument of `tuple` is a list of types and no type itself.
      cases argument with
      | tuple items s =>
        simp only [Expr.mapSpans]
        rw [ofItems_mapSpans items, mapError_map]
      | traversal path => simp only [Expr.mapSpans, Expr.span, Hcl.Traversal.span_mapSpans]; rfl
      | _ => rfl
    · cases argument with
      | object entries s =>
        simp only [Expr.mapSpans]
        rw [ofEntries_mapSpans [] entries, mapError_map]
      | traversal path => simp only [Expr.mapSpans, Expr.span, Hcl.Traversal.span_mapSpans]; rfl
      | _ => rfl
  | .call name (first :: second :: rest) span => by
    rw [Expr.mapSpans, Hcl.mapItems, Hcl.mapItems]
    unfold ofExpr
    split <;> rfl
  | .null _ | .bool _ _ | .number _ _ | .string _ _ | .tuple _ _ | .object _ _ | .negate _ _ => by
    rw [Expr.mapSpans]
    rfl

theorem ofItems_mapSpans : ∀ items : List Expr,
    ofExpr.ofItems (Hcl.mapItems f items) = (ofExpr.ofItems items).mapError (Located.mapSpan f)
  | [] => rfl
  | x :: xs => by
    rw [Hcl.mapItems, ofExpr.ofItems, ofExpr.ofItems, ofExpr_mapSpans x, ofItems_mapSpans xs]
    cases ofExpr x with
    | error _ => rfl
    | ok t => cases ofExpr.ofItems xs <;> rfl

theorem ofEntries_mapSpans (types : Dict ValueType) : ∀ entries : List Entry,
    ofExpr.ofEntries types (Hcl.mapEntries f entries) =
      (ofExpr.ofEntries types entries).mapError (Located.mapSpan f)
  | [] => rfl
  | .mk key value :: rest => by
    rw [Hcl.mapEntries, Hcl.Entry.mapSpans, ofExpr.ofEntries, ofExpr.ofEntries,
      attributeName?_mapSpans, Hcl.Key.span_mapSpans]
    cases attributeName? key with
    | none => rfl
    | some name =>
      dsimp only
      rw [ofExpr_mapSpans value]
      cases ofExpr value with
      | error _ => rfl
      | ok t => exact ofEntries_mapSpans (types.insert name t) rest

end

end

end Overlay.ValueType
