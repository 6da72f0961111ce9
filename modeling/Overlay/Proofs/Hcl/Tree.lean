import Overlay.Hcl.Tree

/-!
# Trees with other places

`Expr.mapSpans f` and `Item.mapSpans f` are the trees with every span changed by `f`, at every depth.
-/

namespace Overlay.Hcl

mutual

/-- The expression with every span in it changed by `f`. -/
def Expr.mapSpans (f : Span → Span) : Expr → Expr
  | .null span => .null (f span)
  | .bool value span => .bool value (f span)
  | .number text span => .number text (f span)
  | .string text span => .string text (f span)
  | .tuple items span => .tuple (mapItems f items) (f span)
  | .object entries span => .object (mapEntries f entries) (f span)
  | .traversal path => .traversal (path.mapSpans f)
  | .call name arguments span => .call name (mapItems f arguments) (f span)
  | .negate operand span => .negate (operand.mapSpans f) (f span)
  | .parens inner span => .parens (inner.mapSpans f) (f span)

/-- The expressions with every span in them changed by `f`. -/
def mapItems (f : Span → Span) : List Expr → List Expr
  | [] => []
  | x :: xs => x.mapSpans f :: mapItems f xs

/-- The entries with every span in them changed by `f`. -/
def mapEntries (f : Span → Span) : List Entry → List Entry
  | [] => []
  | x :: xs => x.mapSpans f :: mapEntries f xs

/-- The entry with every span in it changed by `f`. -/
def Entry.mapSpans (f : Span → Span) : Entry → Entry
  | .mk key value => .mk (key.mapSpans f) (value.mapSpans f)

/-- The key with every span in it changed by `f`. -/
def Key.mapSpans (f : Span → Span) : Key → Key
  | .path path => .path (path.mapSpans f)
  | .expr expr => .expr (expr.mapSpans f)

/-- The traversal with every span in it changed by `f`. -/
def Traversal.mapSpans (f : Span → Span) : Traversal → Traversal
  | .mk root rootSpan steps span => .mk root (f rootSpan) (mapSteps f steps) (f span)

/-- The steps with every span in them changed by `f`. -/
def mapSteps (f : Span → Span) : List Step → List Step
  | [] => []
  | x :: xs => x.mapSpans f :: mapSteps f xs

/-- The step with every span in it changed by `f`. -/
def Step.mapSpans (f : Span → Span) : Step → Step
  | .attr name span => .attr name (f span)
  | .index key span => .index (key.mapSpans f) (f span)

end

section

variable (f : Span → Span)

theorem Traversal.span_mapSpans (t : Traversal) : (t.mapSpans f).span = f t.span := by
  cases t
  rfl

theorem Expr.span_mapSpans (e : Expr) : (e.mapSpans f).span = f e.span := by
  cases e with
  | traversal path => exact path.span_mapSpans f
  | _ => rfl

theorem Key.span_mapSpans (k : Key) : (k.mapSpans f).span = f k.span := by
  cases k with
  | path path => exact path.span_mapSpans f
  | expr expr => exact expr.span_mapSpans f

theorem Traversal.root_mapSpans (t : Traversal) : (t.mapSpans f).root = t.root := by
  cases t
  rfl

theorem Traversal.isBare_mapSpans (t : Traversal) : (t.mapSpans f).isBare = t.isBare := by
  rcases t with ⟨root, rootSpan, steps, span⟩
  cases steps <;> rfl

end

/-! ## Bodies -/

/-- The attribute with every span in it changed by `f`. -/
def Attribute.mapSpans (f : Span → Span) (a : Attribute) : Attribute :=
  ⟨a.name, f a.nameSpan, a.expr.mapSpans f⟩

/-- The label with its span changed by `f`. -/
def Label.mapSpan (f : Span → Span) (l : Label) : Label := ⟨l.text, f l.span⟩

/-- The header with every span in it changed by `f`. -/
def Header.mapSpans (f : Span → Span) (h : Header) : Header :=
  ⟨h.kind, f h.kindSpan, h.labels.map (Label.mapSpan f)⟩

/-- The item with every span in it changed by `f`. -/
def Item.mapSpans (f : Span → Span) : Item → Item
  | .attr a => .attr (a.mapSpans f)
  | .block h items bodySpan span =>
    .block (h.mapSpans f) (each items) (f bodySpan) (f span)
where
  /-- The items with every span in them changed by `f`. -/
  each : List Item → List Item
  | [] => []
  | x :: xs => x.mapSpans f :: each xs

theorem Item.each_eq_map (f : Span → Span) (items : List Item) :
    mapSpans.each f items = items.map (mapSpans f) := by
  induction items with
  | nil => rfl
  | cons x xs ih => exact congrArg (x.mapSpans f :: ·) ih

end Overlay.Hcl
