import Overlay.Identifier
import Overlay.Value.Evaluation
import Overlay.ValueType.Expression
import Overlay.Variable.Basic

/-!
# Declarations

A pack declares its variables in blocks with one label, the name.

* A block that is wrong in any way declares nothing, and every problem in it is reported.
* Of blocks with one name the first one counts.
-/

namespace Overlay

open Hcl (Expr Item Attribute Header Body)

/-- A source text with the name that diagnostics use. -/
structure SourceFile where
  name : String
  content : String
deriving DecidableEq, Repr

namespace Declaration

/-! ## Diagnostics -/

/-- A diagnostic about a span of the file. -/
def fault (file : String) (category : Category) (summary detail : String) (span : Span) :
    Diagnostic :=
  (Diagnostic.error category summary detail).about (span.within file)

/-- A block that has no place here. -/
def unsupportedBlock (file : String) (h : Header) : Diagnostic :=
  fault file .unsupportedConstruct "Unsupported block type"
    s!"Blocks of type {Text.inspect h.kind} are not expected here." h.kindSpan

/-- An argument that has no place here. -/
def unsupportedArgument (file : String) (a : Attribute) : Diagnostic :=
  fault file .unsupportedConstruct "Unsupported argument"
    s!"An argument named {Text.inspect a.name} is not expected here." a.nameSpan

/-- An argument that is set a second time; it was set at `first` before. -/
def duplicateArgument (file : String) (a : Attribute) (first : Span) : Diagnostic :=
  fault file .duplicateDefinition "Duplicate argument"
    (s!"The argument {Text.inspect a.name} was already set at " ++
      s!"{(first.within file).render}. Each argument may be set only once.") a.nameSpan

/-- A variable that is declared a second time. -/
def duplicateVariable (file : String) (first : Variable) (h : Header) : Diagnostic :=
  fault file .duplicateDefinition "Duplicate variable declaration"
    (s!"A variable named {Text.inspect first.name} was already declared at " ++
      s!"{first.range.render}. Variable names must be unique within a pack.") h.span

/-- A name that is no identifier. -/
def invalidName (file : String) (name : String) (span : Span) : Diagnostic :=
  fault file .invalidIdentifier "Invalid variable name"
    (s!"{Text.inspect name} is not a valid name. A name must start with a letter or underscore " ++
      "and may contain only letters, digits, underscores, and dashes.") span

/-- A block that has not exactly one label. -/
def labelCount (file : String) (h : Header) : Diagnostic :=
  fault file .unsupportedConstruct "Invalid variable block"
    "A variable block requires exactly one label: the variable name." h.span

/-- A description that is no string. -/
def invalidDescription (file : String) (span : Span) : Diagnostic :=
  fault file .unsupportedConstruct "Invalid description"
    "A variable description must be a string literal." span

/-- A default that does not convert to the declared type. -/
def invalidDefault (file : String) (f : ValueFault) (span : Span) (h : Header) : Diagnostic :=
  (fault file .invalidDeclaredDefault "Invalid default value for variable"
    ("This default value is not compatible with the variable's type " ++
      s!"constraint: {f.message}.") span).inside (h.span.within file)

/-! ## One block -/

/-- What the arguments of a block have given so far: the arguments seen, the type, the default with
its span, the description, and the problems. -/
structure Draft where
  seen : Dict Span := []
  type : Option ValueType := none
  default : Option (Value × Span) := none
  description : Option String := none
  faults : Diagnostics := []

namespace Draft

/-- The draft with more problems. -/
def report (d : Draft) (ds : Diagnostics) : Draft := { d with faults := d.faults ++ ds }

/-- The draft with the argument that comes next. -/
def argument (file : String) (d : Draft) (a : Attribute) : Draft :=
  let first? := d.seen.find? a.name
  let d := { d with seen := d.seen.insert a.name a.nameSpan }
  match first? with
  | some first => d.report [duplicateArgument file a first]
  | none =>
    if a.name = "type" then
      match ValueType.ofExpr a.expr with
      | .ok t => { d with type := some t }
      | .error f => d.report [TypeFault.diagnostic file f]
    else if a.name = "default" then
      let x := a.expr.evaluate
      { d with default := some (x.result, a.expr.span) }.report (x.diagnostics file)
    else if a.name = "description" then
      match a.expr with
      | .string text _ => { d with description := some text }
      | other => d.report [invalidDescription file other.span]
    else d.report [unsupportedArgument file a]

/-- The draft with the item that comes next. -/
def item (file : String) (d : Draft) : Item → Draft
  | .attr a => d.argument file a
  | .block h _ _ _ => d.report [unsupportedBlock file h]

end Draft

/-- The variable of a draft without problems, or the diagnostic of its default. -/
def finish (file name : String) (h : Header) (span : Span) (d : Draft) :
    Except Diagnostic Variable :=
  let make (default : Option Value) : Variable :=
    ⟨name, d.type, default, default.getD .null, d.description, span.within file⟩
  match d.type, d.default with
  | some t, some (value, valueSpan) =>
    match value.convert t with
    | .ok converted => .ok (make (some converted))
    | .error f => .error (invalidDefault file f valueSpan h)
  | _, default => .ok (make (default.map Prod.fst))

/-- The variable that a block declares, or what is wrong with the block. -/
def variableOf (file : String) (h : Header) (items : List Item) (span : Span) :
    Except Diagnostics Variable :=
  match h.labels with
  | [label] =>
    if isIdentifier label.text then
      let d := items.foldl (Draft.item file) {}
      if d.faults.isEmpty then (finish file label.text h span d).mapError ([·])
      else .error d.faults
    else .error [invalidName file label.text label.span]
  | _ => .error [labelCount file h]

/-! ## Whole files -/

/-- The type of the blocks that declare variables. -/
def blockKind : String := "variable"

/-- The variables declared so far, with the item that comes next. -/
def addItem (file : String) (declared : Dict Variable) : Item → Dict Variable × Diagnostics
  | .attr a => (declared, [unsupportedArgument file a])
  | .block h items _ span =>
    if h.kind ≠ blockKind then (declared, [unsupportedBlock file h])
    else
      match variableOf file h items span with
      | .error ds => (declared, ds)
      | .ok v =>
        match declared.find? v.name with
        | some first => (declared, [duplicateVariable file first h])
        | none => (declared.insert v.name v, [])

/-- The variables declared so far, with all items in turn. -/
def addItems (file : String) (declared : Dict Variable) : List Item → Dict Variable × Diagnostics
  | [] => (declared, [])
  | x :: xs =>
    let (declared, ds) := addItem file declared x
    let (declared, rest) := addItems file declared xs
    (declared, ds ++ rest)

/-- The variables that a file declares, by name, and what is wrong with the file. -/
def collect (source : SourceFile) : Dict Variable × Diagnostics :=
  let body := Body.parse source.content source.name
  let (vars, ds) := addItems source.name [] body.tree.items
  (vars, body.diagnostics ++ ds)

end Declaration

end Overlay
