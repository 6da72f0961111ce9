import Overlay.Hcl.Body
import Overlay.Value.Basic

/-!
# Evaluation of literal expressions

`Hcl.Expr.evaluate` gives the value of an expression that holds nothing but literals.

* What is no literal is reported and stands for `null`, so that one run reports every problem.
* A key that comes a second time in an object is reported, and its first value stays.
-/

namespace Overlay

open Hcl (Expr Entry Key Located)
open Numeric (Number)

/-- Why an expression has no value. -/
inductive EvaluationFault where
  | invalidNumber (text : String)
  /-- The operand of a negation is no number. -/
  | invalidOperand
  | reference
  | functionCall
  /-- A key of an object has several parts. -/
  | dottedKey
  /-- A key of an object is no string. -/
  | keyKind
  /-- A key of an object comes a second time; the first one is at `first`. -/
  | duplicateKey (name : String) (first : Span)
deriving DecidableEq, Repr

namespace EvaluationFault

/-- The kind of problem. -/
def category : EvaluationFault → Category
  | duplicateKey _ _ => .duplicateDefinition
  | _ => .unsupportedConstruct

/-- The short text. -/
def summary : EvaluationFault → String
  | invalidNumber _ => "Invalid number literal"
  | invalidOperand => "Invalid operand"
  | reference => "Variables not allowed"
  | functionCall => "Function calls not allowed"
  | dottedKey | keyKind => "Invalid object key"
  | duplicateKey _ _ => "Duplicate object attribute"

/-- The sentences about an expression in the text named `filename`. -/
def detail (filename : String) : EvaluationFault → String
  | invalidNumber text => s!"{Text.inspect text} is not a valid number."
  | invalidOperand => "Unsuitable value for unary operand: a number is required."
  | reference => "Variables may not be used here."
  | functionCall => "Functions may not be called here."
  | dottedKey =>
    "Dotted keys are only allowed as top-level override addresses; " ++
      "quote the key to use it literally."
  | keyKind => "Object keys must be strings."
  | duplicateKey name first =>
    s!"An attribute named {Text.inspect name} was already defined at " ++
      s!"{(first.within filename).render}."

/-- The diagnostic of an expression without a value. -/
def diagnostic (filename : String) (f : Located EvaluationFault) : Diagnostic :=
  (Diagnostic.error f.item.category f.item.summary (f.item.detail filename)).about
    (f.span.within filename)

end EvaluationFault

/-- A result and the problems met on the way to it. -/
structure Evaluated (α : Type) where
  result : α
  faults : List (Located EvaluationFault)

namespace Evaluated

/-- A result without problems. -/
def pure (result : α) : Evaluated α := ⟨result, []⟩

/-- The result changed by `f`. -/
def map (f : α → β) (x : Evaluated α) : Evaluated β := ⟨f x.result, x.faults⟩

/-- The result with one more problem behind the others. -/
def report (x : Evaluated α) (fault : EvaluationFault) (span : Span) : Evaluated α :=
  ⟨x.result, x.faults ++ [⟨fault, span⟩]⟩

end Evaluated

namespace Hcl

/-- The result of a key of an object that is given by the value of an expression. -/
def Key.ofValue (x : Evaluated Value) (span : Span) : Evaluated (Option String) :=
  match x.result with
  | .string s => x.map fun _ => some s
  | .number n => x.map fun _ => some n.render
  | .bool b => x.map fun _ => some (if b then "true" else "false")
  | _ => (x.map fun _ => none).report .keyKind span

/-- The negation of a value. -/
def Expr.negated (x : Evaluated Value) (span : Span) : Evaluated Value :=
  match x.result with
  | .number n => x.map fun _ => .number n.negate
  | .null => x
  | _ => (x.map fun _ => .null).report .invalidOperand span

mutual

/-- The value of an expression. -/
def Expr.evaluate : Expr → Evaluated Value
  | .null _ => .pure .null
  | .bool b _ => .pure (.bool b)
  | .number text span =>
    match Number.parse? text with
    | some n => .pure (.number n)
    | none => (Evaluated.pure .null).report (.invalidNumber text) span
  | .string s _ => .pure (.string s)
  | .parens inner _ => inner.evaluate
  | .tuple items _ => (evaluateItems items).map .tuple
  | .object entries _ => (evaluateEntries [] [] entries).map .object
  | .negate operand span => Expr.negated operand.evaluate span
  | .traversal path => (Evaluated.pure .null).report .reference path.span
  | .call _ _ span => (Evaluated.pure .null).report .functionCall span

/-- The values of the items. -/
def evaluateItems : List Expr → Evaluated (List Value)
  | [] => .pure []
  | x :: xs =>
    let v := x.evaluate
    let vs := evaluateItems xs
    ⟨v.result :: vs.result, v.faults ++ vs.faults⟩

/-- The values of the entries, added to those in front; `seen` holds where keys came first. -/
def evaluateEntries (seen : Dict Span) (values : Dict Value) : List Entry → Evaluated (Dict Value)
  | [] => .pure values
  | .mk key value :: rest =>
    let v := value.evaluate
    let k := key.evaluate
    let faults := v.faults ++ k.faults
    match k.result with
    | none =>
      let x := evaluateEntries seen values rest
      ⟨x.result, faults ++ x.faults⟩
    | some name =>
      match seen.find? name with
      | some first =>
        let x := evaluateEntries seen values rest
        ⟨x.result, faults ++ ⟨.duplicateKey name first, key.span⟩ :: x.faults⟩
      | none =>
        let x := evaluateEntries (seen.insert name key.span) (values.insert name v.result) rest
        ⟨x.result, faults ++ x.faults⟩

/-- The text of a key, if it has one. -/
def Key.evaluate : Key → Evaluated (Option String)
  | .path path =>
    if path.isBare then .pure (some path.root)
    else (Evaluated.pure none).report .dottedKey path.span
  | .expr expr => Key.ofValue expr.evaluate expr.span

end

end Hcl

/-- The diagnostics of an evaluation in the text named `filename`. -/
def Evaluated.diagnostics (x : Evaluated α) (filename : String) : Diagnostics :=
  x.faults.map (EvaluationFault.diagnostic filename)

end Overlay
