import Overlay.Proofs.Hcl.Derivation
import Overlay.Proofs.Value.Evaluation
import Overlay.Proofs.ValueType.Places

/-!
# Places of problems in derived expressions

Where a derived expression has no value (`IsExpr.evaluate_faults`) or is no type
(`IsExpr.ofExpr_fault`), the problem stands from an end of one of its tokens to an end of another.

A change of spans that keeps exactly the spans with such ends leaves the expression as it is, so it
leaves the problems as they are.
-/

namespace Overlay.Hcl

variable {P : Pos → Prop} {ts : List Token} {e : Expr}

theorem IsExpr.ne_nil (h : IsExpr ts e) : ts ≠ [] := by
  rcases h.exists_cons with ⟨t, us, rfl, -⟩
  exact List.cons_ne_nil _ _

/-- The faults of evaluating a derived expression stand where both ends are ends of its tokens. -/
theorem IsExpr.evaluate_faults (h : IsExpr ts e) (hts : EndsIn P ts) :
    ∀ f ∈ e.evaluate.faults, P f.span.start ∧ P f.span.stop := by
  rcases hts.exists_keeps h.ne_nil with ⟨keep, hkeep, hinside⟩
  have hsame : e.evaluate.faults = e.evaluate.faults.map (EvaluationFault.move keep) := by
    have heval := Expr.evaluate_mapSpans keep e
    rw [h.mapSpans_eq hkeep hts] at heval
    exact congrArg Evaluated.faults heval
  intro f hf
  rw [hsame] at hf
  rcases List.mem_map.1 hf with ⟨g, -, rfl⟩
  exact hinside g.span

/-- Where a derived expression is no type, both ends are ends of its tokens. -/
theorem IsExpr.ofExpr_fault {f : Located TypeFault} (h : IsExpr ts e) (hts : EndsIn P ts)
    (hf : ValueType.ofExpr e = .error f) : P f.span.start ∧ P f.span.stop := by
  rcases hts.exists_keeps h.ne_nil with ⟨keep, hkeep, hinside⟩
  have hmoved := ValueType.ofExpr_mapSpans keep e
  rw [h.mapSpans_eq hkeep hts, hf] at hmoved
  have hsame : f = f.mapSpan keep := Except.error.inj hmoved
  rw [hsame]
  exact hinside f.span

end Overlay.Hcl
