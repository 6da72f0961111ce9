import Overlay.Hcl.Expression

/-!
# Reading bodies

A body is a list of items, each on lines of its own.

* An attribute is a name, an equals sign and an expression; a block is a name, labels, and a body
  in braces.
* A malformed item is reported once and skipped through the end of its line.
* `Expr.parse` and `Body.parse` read whole texts, and read all of their tokens.
-/

namespace Overlay.Hcl

namespace Parser

/-- The labels of a block. -/
def labelsFrom (last : Pos) : List Token → Parsed (List Label)
  | [] => ⟨[], ⟨last, []⟩, []⟩
  | t :: ts =>
    match t.kind with
    | .str text | .ident text =>
      let rest := labelsFrom t.span.stop ts
      ⟨⟨text, t.span⟩ :: rest.value, rest.next, []⟩
    | _ => ⟨[], ⟨last, t :: ts⟩, []⟩

/-- The labels of a block. -/
def labels : Parser (List Label) := fun _ c => labelsFrom c.last c.rest

/-- Reports a fault and gives up the item. -/
def skipItem (fault : SyntaxFault) : Parser (Option Item) := do
  report fault
  move Cursor.recoverLine
  return none

/-- The attribute behind its name, whose equals sign comes next. -/
def attributeBody (name : String) (nameSpan : Span) : Parser Item := do
  advance
  let expr ← expression
  endOfItem
  return .attr ⟨name, nameSpan, expr⟩

/-- The block behind its header, whose opening brace comes next. -/
def blockBody (items : Parser (List Item)) (header : Header) : Parser Item := do
  let opener ← lookahead
  advance
  let items ← items
  newlines
  let closed ← mark .closeBrace
  let bodySpan ← spanFrom opener.start
  let span ← spanFrom header.kindSpan.start
  unless closed do reportAt opener .unclosedBlock
  endOfItem
  return .block header items bodySpan span

/-- The item that starts with the next token; `items` reads the items of a block. -/
def itemOf (items : Parser (List Item)) : Parser (Option Item) := do
  match ← peek with
  | some ⟨.ident name, span⟩ =>
    advance
    if ← atMark .equals then return some (← attributeBody name span)
    else
      let labels ← labels
      if ← atMark .openBrace then return some (← blockBody items ⟨name, span, labels⟩)
      else if labels.isEmpty then skipItem .invalidDefinition
      else skipItem .invalidBlock
  | _ => skipItem .definitionRequired

/-- The items of a block, up to a closing brace or the end. -/
def items : (depth : Nat) → Parser (List Item)
  | 0 => exhausted []
  | depth + 1 => do
    newlines
    match ← peekKind with
    | none | some (.mark .closeBrace) => return []
    | some _ =>
      let item ← itemOf (items depth)
      return item.toList ++ (← items depth)

/-- The items of a whole text. A closing brace among them is reported and skipped. -/
def topItems : (depth : Nat) → Parser (List Item)
  | 0 => exhausted []
  | depth + 1 => do
    newlines
    match ← peekKind with
    | none => return []
    | some (.mark .closeBrace) =>
      report .unexpectedClosingBrace
      advance
      topItems depth
    | some _ =>
      let item ← itemOf (items depth)
      return item.toList ++ (← topItems depth)

/-- The span of what `p` takes; the span of the next token's start where it takes nothing. -/
def spanned (p : Parser α) : Parser (α × Span) := do
  let first ← lookahead
  let x ← p
  return (x, ← spanFrom first.start)

/-- The body that a whole text is. -/
def body : Parser Body := do
  match ← peek with
  | none => return ⟨[], ← lookahead⟩
  | some _ =>
    let (items, span) ← spanned (do topItems ((← remaining) + 1))
    return ⟨items, span⟩

/-- The expression that a whole text is. -/
def loneExpression : Parser Expr := do
  newlines
  let e ← expression
  newlines
  unless (← peek).isNone do
    report .extraCharacters
    move fun c => Cursor.skipWhile (fun _ => true) c.last c.rest
  return e

end Parser

/-! ## Whole texts -/

/-- A tree and what was reported while it was read. -/
structure Reading (α : Type) where
  tree : α
  diagnostics : Diagnostics

/-- The frame of a whole text. -/
def Frame.ofText (text : String) : Frame :=
  ⟨.point (.endOf text), (Pos.endOf text).byte⟩

/-- Reads a whole text with `p`. Lexical diagnostics come first. -/
def Parser.readText (p : Parser α) (text filename : String) : Reading α :=
  let ts := Tokens.ofText text
  let x := p (.ofText text) (.ofTokens .start ts.tokens)
  ⟨x.value, ts.diagnostics filename ++ x.faults.map (Located.syntaxDiagnostic filename)⟩

/-- Reads a text as one expression. -/
def Expr.parse (text filename : String) : Reading Expr :=
  Parser.loneExpression.readText text filename

/-- Reads a text as a body. -/
def Body.parse (text filename : String) : Reading Body := Parser.body.readText text filename

end Overlay.Hcl
