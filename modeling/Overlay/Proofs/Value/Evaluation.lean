import Overlay.Proofs.Hcl.Tree
import Overlay.Value.Evaluation

/-!
# Evaluation and places

* The value of an expression does not depend on the places in it, and its problems stand where the
  places are changed to (`Expr.evaluate_mapSpans`).
* Only the text about a key that comes a second time holds a place (`EvaluationFault.NamesPlace`).
-/

namespace Overlay

open Hcl (Expr Entry Key Located)

/-! ## Changing places -/

/-- The problem with the place in it changed by `f`. -/
def EvaluationFault.mapSpan (f : Span → Span) : EvaluationFault → EvaluationFault
  | duplicateKey name first => duplicateKey name (f first)
  | fault => fault

/-- The problem and its place changed by `f`. -/
def EvaluationFault.move (f : Span → Span) (x : Located EvaluationFault) :
    Located EvaluationFault :=
  ⟨x.item.mapSpan f, f x.span⟩

/-- The same result, with the places of all problems changed by `f`. -/
def Evaluated.mapSpans (f : Span → Span) (x : Evaluated α) : Evaluated α :=
  ⟨x.result, x.faults.map (EvaluationFault.move f)⟩

namespace Dict

theorem mapValues_cons (f : α → β) (k : String) (v : α) (rest : Dict α) :
    mapValues f ((k, v) :: rest) = (k, f v) :: mapValues f rest := rfl

theorem find?_mapValues (f : α → β) (key : String) (d : Dict α) :
    find? key (d.mapValues f) = (find? key d).map f := by
  induction d with
  | nil => rfl
  | cons kv rest ih =>
    rcases kv with ⟨k, v⟩
    rw [mapValues_cons, find?, find?, ih]
    split <;> rfl

theorem insert_mapValues (f : α → β) (key : String) (value : α) (d : Dict α) :
    insert key (f value) (d.mapValues f) = (insert key value d).mapValues f := by
  induction d with
  | nil => rfl
  | cons kv rest ih =>
    rcases kv with ⟨k, v⟩
    rw [mapValues_cons, insert, insert, ih]
    split
    · rfl
    · split <;> rfl

end Dict

namespace Hcl

variable (f : Span → Span)

theorem Key.ofValue_mapSpans (x : Evaluated Value) (span : Span) :
    Key.ofValue (x.mapSpans f) (f span) = (Key.ofValue x span).mapSpans f := by
  rcases x with ⟨result, faults⟩
  cases result <;>
    simp [Key.ofValue, Evaluated.mapSpans, Evaluated.map, Evaluated.report, EvaluationFault.move,
      EvaluationFault.mapSpan]

theorem Expr.negated_mapSpans (x : Evaluated Value) (span : Span) :
    Expr.negated (x.mapSpans f) (f span) = (Expr.negated x span).mapSpans f := by
  rcases x with ⟨result, faults⟩
  cases result <;>
    simp [Expr.negated, Evaluated.mapSpans, Evaluated.map, Evaluated.report, EvaluationFault.move,
      EvaluationFault.mapSpan]

mutual

/-- The value of an expression does not depend on the places in it. -/
theorem Expr.evaluate_mapSpans (e : Expr) : (e.mapSpans f).evaluate = e.evaluate.mapSpans f := by
  cases e with
  | null => rfl
  | bool => rfl
  | string => rfl
  | call => rfl
  | traversal path =>
    rw [Expr.mapSpans, Expr.evaluate, Expr.evaluate, Traversal.span_mapSpans]
    rfl
  | number text span =>
    rw [Expr.mapSpans, Expr.evaluate, Expr.evaluate]
    split <;> rfl
  | parens inner span => exact Expr.evaluate_mapSpans inner
  | tuple items span =>
    rw [Expr.mapSpans, Expr.evaluate, evaluateItems_mapSpans items]
    rfl
  | object entries span =>
    have hentries := evaluateEntries_mapSpans [] [] entries
    rw [Expr.mapSpans, Expr.evaluate]
    exact congrArg (Evaluated.map Value.object) hentries
  | negate operand span =>
    rw [Expr.mapSpans, Expr.evaluate, Expr.evaluate_mapSpans operand, Expr.negated_mapSpans]
    rfl

theorem evaluateItems_mapSpans (items : List Expr) :
    evaluateItems (mapItems f items) = (evaluateItems items).mapSpans f := by
  cases items with
  | nil => rfl
  | cons x xs =>
    rw [mapItems, evaluateItems, Expr.evaluate_mapSpans x, evaluateItems_mapSpans xs]
    simp only [evaluateItems, Evaluated.mapSpans, List.map_append]

theorem evaluateEntries_mapSpans (seen : Dict Span) (values : Dict Value) (entries : List Entry) :
    evaluateEntries (seen.mapValues f) values (mapEntries f entries) =
      (evaluateEntries seen values entries).mapSpans f := by
  cases entries with
  | nil => rfl
  | cons x rest =>
    rcases x with ⟨key, value⟩
    rw [mapEntries, Entry.mapSpans, evaluateEntries, evaluateEntries, Expr.evaluate_mapSpans value,
      Key.evaluate_mapSpans key, Key.span_mapSpans]
    -- The keys seen so far keep their names, so a second key is one on both sides.
    have hkey : (key.evaluate.mapSpans f).result = key.evaluate.result := rfl
    rw [hkey]
    cases key.evaluate.result with
    | none =>
      rw [evaluateEntries_mapSpans seen values rest]
      simp only [Evaluated.mapSpans, List.map_append]
    | some name =>
      dsimp only
      rw [Dict.find?_mapValues]
      cases Dict.find? name seen with
      | some first =>
        dsimp only [Option.map_some]
        rw [evaluateEntries_mapSpans seen values rest]
        simp only [Evaluated.mapSpans, List.map_append, List.map_cons]
        rfl
      | none =>
        dsimp only [Option.map_none]
        rw [Dict.insert_mapValues, evaluateEntries_mapSpans _ _ rest]
        simp only [Evaluated.mapSpans, List.map_append]

theorem Key.evaluate_mapSpans (k : Key) : (k.mapSpans f).evaluate = k.evaluate.mapSpans f := by
  cases k with
  | path path =>
    rw [Key.mapSpans, Key.evaluate, Key.evaluate, Traversal.isBare_mapSpans,
      Traversal.root_mapSpans, Traversal.span_mapSpans]
    split <;> rfl
  | expr expr =>
    rw [Key.mapSpans, Key.evaluate, Expr.evaluate_mapSpans expr, Expr.span_mapSpans,
      Key.ofValue_mapSpans]
    rfl

end

end Hcl

/-! ## Places in texts -/

namespace EvaluationFault

variable {f : Span → Span} {filename : String}

/-- The text about the problem names a place. -/
def NamesPlace : EvaluationFault → Prop
  | duplicateKey _ _ => True
  | _ => False

instance : DecidablePred NamesPlace
  | duplicateKey _ _ => .isTrue trivial
  | invalidNumber _ | invalidOperand | reference | functionCall | dottedKey | keyKind => .isFalse id

theorem namesPlace_mapSpan (x : EvaluationFault) : (x.mapSpan f).NamesPlace ↔ x.NamesPlace := by
  cases x <;> exact Iff.rfl

theorem mapSpan_of_not_namesPlace {x : EvaluationFault} (h : ¬x.NamesPlace) :
    x.mapSpan f = x := by
  cases x with
  | duplicateKey => exact absurd trivial h
  | _ => rfl

end EvaluationFault

end Overlay
