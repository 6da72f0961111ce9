import Overlay.Text.Position

/-!
# Trees

What the tokens of a text make.

* `Expr` is the tree of an expression; every node has the span of its text.
* `Body` is a list of attributes and blocks, and a block has a body of its own.
-/

namespace Overlay.Hcl

/-! ## Expressions -/

mutual

/-- An expression. Numbers keep their text, strings are decoded. -/
inductive Expr where
  | null (span : Span)
  | bool (value : Bool) (span : Span)
  | number (text : String) (span : Span)
  | string (text : String) (span : Span)
  | tuple (items : List Expr) (span : Span)
  | object (entries : List Entry) (span : Span)
  | traversal (path : Traversal)
  | call (name : String) (arguments : List Expr) (span : Span)
  | negate (operand : Expr) (span : Span)
  | parens (inner : Expr) (span : Span)

/-- An entry of an object: a key and its value. -/
inductive Entry where
  | mk (key : Key) (value : Expr)

/-- The key of an entry: a traversal, or an expression such as a quoted string. -/
inductive Key where
  | path (path : Traversal)
  | expr (expr : Expr)

/-- A root name and the steps that lead away from it. -/
inductive Traversal where
  | mk (root : String) (rootSpan : Span) (steps : List Step) (span : Span)

/-- A step of a traversal: behind a dot or in brackets. -/
inductive Step where
  | attr (name : String) (span : Span)
  | index (key : Expr) (span : Span)

end

namespace Traversal

/-- The first name. -/
def root : Traversal → String
  | mk root _ _ _ => root

/-- The span of the first name. -/
def rootSpan : Traversal → Span
  | mk _ rootSpan _ _ => rootSpan

/-- What follows the first name. -/
def steps : Traversal → List Step
  | mk _ _ steps _ => steps

/-- From the first name to the last step. -/
def span : Traversal → Span
  | mk _ _ _ span => span

/-- Whether the traversal is nothing but a name. -/
def isBare (t : Traversal) : Bool := t.steps.isEmpty

end Traversal

/-- The span of a step, from its dot or bracket on. -/
def Step.span : Step → Span
  | attr _ span | index _ span => span

/-- The span of an expression. -/
def Expr.span : Expr → Span
  | null span | bool _ span | number _ span | string _ span | tuple _ span | object _ span
  | call _ _ span | negate _ span | parens _ span => span
  | traversal path => path.span

/-- The span of a key. -/
def Key.span : Key → Span
  | .path t => t.span
  | .expr e => e.span

/-- The key of an entry. -/
def Entry.key : Entry → Key
  | mk key _ => key

/-- The value of an entry. -/
def Entry.value : Entry → Expr
  | mk _ value => value

instance : Inhabited Expr := ⟨.null default⟩

/-! ## Bodies -/

/-- A name, an equals sign and an expression. -/
structure Attribute where
  name : String
  nameSpan : Span
  expr : Expr

/-- From the name of an attribute to the end of its expression. -/
def Attribute.span (a : Attribute) : Span := a.nameSpan.upTo a.expr.span

/-- A name or quoted string between the type of a block and its body. -/
structure Label where
  text : String
  span : Span
deriving DecidableEq, Repr

/-- What stands in front of the body of a block: its type and its labels. -/
structure Header where
  kind : String
  kindSpan : Span
  labels : List Label
deriving DecidableEq, Repr

/-- From the type of a block to its last label. -/
def Header.span (h : Header) : Span :=
  match h.labels.getLast? with
  | some label => h.kindSpan.upTo label.span
  | none => h.kindSpan

/-- An item of a body. The span of a block's body starts at its opening brace. -/
inductive Item where
  | attr (attr : Attribute)
  | block (header : Header) (items : List Item) (bodySpan : Span) (span : Span)

/-- The span of an item. -/
def Item.span : Item → Span
  | attr a => a.span
  | block _ _ _ span => span

/-- Items in text order, and the span they were read from. -/
structure Body where
  items : List Item
  span : Span

namespace Body

/-- The attributes of a body. -/
def attributes (body : Body) : List Attribute :=
  body.items.filterMap fun
    | .attr a => some a
    | .block .. => none

/-- How many items of a body are blocks. -/
def blockCount (body : Body) : Nat :=
  body.items.countP fun
    | .attr _ => false
    | .block .. => true

end Body

end Overlay.Hcl
