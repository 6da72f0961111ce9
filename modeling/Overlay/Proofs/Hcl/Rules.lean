import Mathlib.Data.List.ReduceOption
import Overlay.Proofs.Hcl.Choice
import Overlay.Proofs.Hcl.Grammar

/-!
# The rules of the grammar

Each construct as a choice between its well-formed shapes and, behind them, the reports that stand in for
the malformed ones.

* `boundary` is the end of the input. Every recovery stops there: `skipToClose` behind a group,
  `recoverLine` behind a line.
* `expression` refuses what no expression starts with. `value` reports it instead, and so never refuses.
* `bodyText`, `containerText` and `loneExpressionText` read whole texts. They end with the end of the
  tokens, and so refuse a text that the rules in front do not take to its end.
-/

namespace Overlay.Hcl.Rule

open Overlay.Hcl.Parser (Closing)

variable {α : Type}

/-! ## Borders -/

/-- The line ends at the front. -/
def newlines : Rule Unit := do discard (many (just .newline))

/-- The end of the input, and its span. Nothing is taken. The last closing brace of a container, behind
which there are line ends only, is its end too. -/
def boundary : Rule Span :=
  ahead (choice [
    ending,
    do
      closes
      let span ← spanOf (just .closeBrace)
      newlines
      discard ending
      return span])

/-- The rule in front of the end of the input. -/
def inside (r : Rule α) : Rule α := do
  absent boundary
  r

/-- The span of the next token, or of the end of the input. -/
def lookahead : Rule Span := choice [boundary, ahead (spanOf any)]

/-- Reports a fault at a place, and says which place it is. -/
def report (place : Rule Span) (fault : SyntaxFault) : Rule Span := do
  let span ← place
  emit fault span
  return span

/-- A group with the groups inside it, or a token that neither opens nor closes one. Any closer ends a
group, and so does the end of the input. -/
def groupOf (group : Rule Unit) : Rule Unit :=
  choice [
    do
      satisfy TokenKind.isOpener
      discard (many group)
      discard (optional (inside (satisfy TokenKind.isCloser))),
    satisfy fun k => !k.isOpener && !k.isCloser]

/-- A group, or a token that neither opens nor closes one. -/
def group : Rule Unit := recursive groupOf

/-- Skips groups up to the closer `own` and takes that one. Any other closer stays in place. -/
def skipToClose (own : Mark) : Rule Unit := do
  discard (many group)
  discard (optional (inside (just own)))

/-- Skips the rest of the line and its end. -/
def recoverLine : Rule Unit := do
  discard (many (inside (satisfy fun k => !k.isNewline)))
  discard (optional (just .newline))

/-- How a construct with the closer `own` ends. -/
def closing (own : Mark) : Rule Closing :=
  choice [
    do
      inside (just own)
      return .closed,
    do
      discard boundary
      return .unclosed,
    ahead do
      absent (just own)
      satisfy TokenKind.isCloser
      return .unclosed]

/-- The closer `own`. At a token that ends nothing the construct is reported and skipped. -/
def close (own : Mark) (fault : SyntaxFault) : Rule Closing :=
  choice [
    closing own,
    do
      discard (report lookahead fault)
      skipToClose own
      return .broken]

/-- The end of an item: the end of its line, or a closing brace or the end behind it. -/
def endOfItem : Rule Unit :=
  choice [
    just .newline,
    ahead (choice [just .closeBrace, discard ending]),
    do
      discard (report lookahead .missingNewline)
      recoverLine]

/-- A name and its span. -/
def ident : Rule (String × Span) :=
  spanned (select fun
    | .ident name => some name
    | _ => none)

/-! ## Expressions -/

/-- Stands in for an expression. What ends something stays in place, any other token is taken. -/
def invalidExpression : Rule Expr := do
  let name ← found
  let terminator := satisfy fun k => k.isNewline || k == .mark .comma || k.isCloser
  let place := choice [boundary, ahead (spanOf terminator), spanOf any]
  return .null (← report place (.invalidExpression name))

/-- A step of a traversal. -/
def step (value : Rule Expr) : Rule Step :=
  choice [
    do
      let (name, span) ← spanned do
        just .dot
        select fun
          | .ident name => some name
          | _ => none
      return .attr name span,
    do
      let ((text, keySpan), span) ← spanned do
        just .dot
        spanned (select fun
          | .number text => some text
          | _ => none)
      return .index (.number text keySpan) span,
    do
      let (key, span) ← spanned do
        just .openBracket
        newlines
        let key ← value
        newlines
        choice [
          just .closeBracket,
          do
            discard (report lookahead .missingIndexBracket)
            skipToClose .closeBracket]
        return key
      return .index key span]

/-- A name and the steps behind it. A dot without a name behind them is reported. -/
def traversal (value : Rule Expr) : Rule Traversal := do
  let (((root, rootSpan), steps), span) ← spanned do
    let root ← ident
    let steps ← many (step value)
    discard (optional do
      just .dot
      report lookahead .invalidAttributeName)
    return (root, steps)
  return .mk root rootSpan steps span

/-- The key of an entry. -/
def key (expr value : Rule Expr) : Rule Key :=
  choice [
    do return .path (← traversal value),
    do
      ahead (satisfy startsKeyExpr)
      return .expr (← expr)]

/-- An item of a list. A closer and the end of the tokens end the list. -/
def listItem (value : Rule Expr) : Rule Expr := do
  absent (choice [satisfy TokenKind.isCloser, discard ending])
  value

/-- A comma and the line ends around it. -/
def comma : Rule Unit := do
  newlines
  just .comma
  newlines

/-- Expressions with commas between them, up to the closer `own`. -/
def commaList (value : Rule Expr) (own : Mark) (missing : SyntaxFault) :
    Rule (List Expr × Closing) := do
  newlines
  let items ← separated (listItem value) comma
  newlines
  return (items, ← close own missing)

/-- A literal. -/
def literal : Rule (Span → Expr) :=
  select fun
    | .number text => some (.number text)
    | .str text | .heredoc text => some (.string text)
    | .ident name =>
      if name = "true" then some (.bool true)
      else if name = "false" then some (.bool false)
      else if name = "null" then some .null
      else none
    | _ => none

/-- A minus sign and what it negates. -/
def negate (value : Rule Expr) : Rule (Span → Expr) := do
  just .minus
  return .negate (← value)

/-- A function call. -/
def call (value : Rule Expr) : Rule (Span → Expr) := do
  let (name, _) ← ident
  let opener ← spanOf (just .openParen)
  let (arguments, closing) ← commaList value .closeParen .missingArgumentSeparator
  if closing = .unclosed then emit .unclosedCall opener
  return .call name arguments

/-- A tuple. -/
def tuple (value : Rule Expr) : Rule (Span → Expr) := do
  let opener ← spanOf (just .openBracket)
  let (items, closing) ← commaList value .closeBracket .missingItemSeparator
  if closing = .unclosed then emit .unclosedTuple opener
  return .tuple items

/-- An entry of an object. -/
def entry (expr value : Rule Expr) : Rule Entry := do
  let key ← key expr value
  satisfy fun k => k == .mark .equals || k == .mark .colon
  return .mk key (← value)

/-- The last entry of an object, if nothing separates it from the end, and how the object ends. -/
def lastEntry (expr value : Rule Expr) : Rule (Option Entry × Closing) :=
  choice [
    do
      let entry ← entry expr value
      return (some entry, ← close .closeBrace .missingAttributeSeparator),
    do
      let closing ← choice [
        closing .closeBrace,
        do
          discard (key expr value)
          discard (report lookahead .missingKeyValueSeparator)
          skipToClose .closeBrace
          return .broken,
        do
          discard (report lookahead .invalidObjectKey)
          skipToClose .closeBrace
          return .broken]
      return (none, closing)]

/-- An entry of an object and what separates it from the next one. -/
def separatedEntry (expr value : Rule Expr) : Rule Entry := do
  newlines
  let entry ← entry expr value
  satisfy fun k => k == .mark .comma || k.isNewline
  return entry

/-- What stands between the braces of an object. -/
def entries (expr value : Rule Expr) : Rule (List Entry × Closing) := do
  let entries ← many (separatedEntry expr value)
  newlines
  let (last, closing) ← lastEntry expr value
  return (entries ++ last.toList, closing)

/-- An object. -/
def object (expr value : Rule Expr) : Rule (Span → Expr) := do
  let opener ← spanOf (just .openBrace)
  let (entries, closing) ← entries expr value
  if closing = .unclosed then emit .unclosedObject opener
  return .object entries

/-- An expression in parentheses. -/
def parens (value : Rule Expr) : Rule (Span → Expr) := do
  just .openParen
  newlines
  let inner ← value
  newlines
  choice [
    just .closeParen,
    do
      discard (report lookahead .unbalancedParentheses)
      choice [
        discard boundary,
        ahead (satisfy fun k => k == .mark .closeBrace || k == .mark .closeBracket),
        skipToClose .closeParen]]
  return .parens inner

/-- An expression, or a report that there is none. -/
def valueOf (expr : Rule Expr) : Rule Expr := choice [expr, invalidExpression]

/-- A traversal, the span of which is its own. -/
def path (value : Rule Expr) : Rule (Span → Expr) := do
  let path ← traversal value
  return fun _ => .traversal path

/-- The forms of an expression, up to its span. -/
def form (expr value : Rule Expr) : Rule (Span → Expr) :=
  choice [literal, negate value, call value, path value, tuple value, object expr value, parens value]

/-- An expression made of expressions. -/
def expressionOf (expr : Rule Expr) : Rule Expr := do
  let (make, span) ← spanned (form expr (valueOf expr))
  return make span

/-- An expression. -/
def expression : Rule Expr := recursive expressionOf

/-- An expression, or a report that there is none. -/
def value : Rule Expr := valueOf expression

/-! ## Bodies -/

/-- A name, an equals sign and an expression. -/
def attr : Rule Item := do
  let (name, nameSpan) ← ident
  just .equals
  let expr ← value
  endOfItem
  return .attr ⟨name, nameSpan, expr⟩

/-- A label of a block. -/
def label : Rule Label := do
  let (text, span) ← spanned (select fun
    | .str text | .ident text => some text
    | _ => none)
  return ⟨text, span⟩

/-- Items with line ends in front of them and behind the last one. Those that are skipped are left out. -/
def lines (item : Rule (Option α)) : Rule (List α) := do
  let items ← many do
    newlines
    item
  newlines
  return items.reduceOption

/-- A block, the items of which `item` reads. -/
def block (item : Rule (Option Item)) : Rule Item := do
  let ((header, opener, items, bodySpan, closed), span) ← spanned do
    let (kind, kindSpan) ← ident
    let labels ← many label
    let ((opener, items, closed), bodySpan) ← spanned do
      let opener ← spanOf (just .openBrace)
      let items ← lines item
      let closed ← optional (just .closeBrace)
      return (opener, items, closed.isSome)
    return (⟨kind, kindSpan, labels⟩, opener, items, bodySpan, closed)
  if !closed then emit .unclosedBlock opener
  endOfItem
  return .block header items bodySpan span

/-- A malformed item: what stands in front of the place of its fault, and the rest of its line. -/
def malformed (front : Rule Unit) (place : Rule Span) (fault : SyntaxFault) :
    Rule (Option α) := do
  front
  discard (report place fault)
  recoverLine
  return none

/-- An item of a body, or what stands in for it. -/
def itemOf (item : Rule (Option Item)) : Rule (Option Item) :=
  choice [
    do return some (← attr),
    do return some (← block item),
    malformed
      (do
        discard ident
        discard label
        discard (many label))
      lookahead .invalidBlock,
    malformed (discard ident) lookahead .invalidDefinition,
    malformed (pure ()) (ahead (spanOf (satisfy (· != .mark .closeBrace)))) .definitionRequired]

/-- An item of a body, or what stands in for it. -/
def item : Rule (Option Item) := recursive itemOf

/-- A closing brace that closes nothing. -/
def strayBrace (brace : Rule Unit) : Rule (Option α) := do
  discard (report (spanOf brace) .unexpectedClosingBrace)
  return none

/-- The body that a whole text is. -/
def bodyText : Rule Body := do
  let (items, span) ← spanned do
    let items ← lines (choice [item, strayBrace (just .closeBrace)])
    discard ending
    return items
  return ⟨items, span⟩

/-- The expression that a whole text is. -/
def expressionText : Rule Expr := do
  newlines
  let e ← value
  newlines
  choice [
    discard ending,
    do
      discard (report lookahead .extraCharacters)
      discard (many any)]
  discard ending
  return e

/-! ## Containers -/

/-- An assignment of a container, or what stands in for it. -/
def assignment : Rule (Option Entry) :=
  choice [
    do
      let key ← key expression value
      just .equals
      let value ← value
      endOfItem
      return some (.mk key value),
    malformed (discard (key expression value)) lookahead .missingKeyValueSeparator,
    strayBrace (inside (just .closeBrace)),
    malformed (pure ()) (ahead (spanOf (inside any))) .definitionRequired]

/-- The container that a whole text is. -/
def containerText : Rule Container := do
  let ((nameSpan, entries, objectSpan), span) ← spanned do
    newlines
    let nameSpan ← spanOf (satisfy (· == .ident wrapperName))
    just .equals
    let (entries, objectSpan) ← spanned do
      just .openBrace
      let entries ← lines assignment
      discard (optional (just .closeBrace))
      return entries
    newlines
    discard ending
    return (nameSpan, entries, objectSpan)
  return ⟨nameSpan, entries, objectSpan, span⟩

end Overlay.Hcl.Rule
