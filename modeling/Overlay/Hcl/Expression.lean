import Overlay.Hcl.Parser
import Overlay.Hcl.Tree

/-!
# Reading expressions

* `value` reads one expression. Where none starts, it reports that and stands `null` in its place.
* Entries of tuples, calls and objects are read up to their closer; a closer that is somebody
  else's ends them too.
* The number in front bounds the depth of the reading. Twice the number of tokens and two is always
  enough, and `expression` sets it; the forms that hold other expressions are written over the
  readers of those.
-/

namespace Overlay.Hcl.Parser

/-- Reports that no expression starts here. A token that ends something stays in place, any other
is taken. -/
def invalidExpression : Parser Expr := do
  let span ← lookahead
  reportAt span (.invalidExpression (← found))
  match ← peekKind with
  | none => return .null span
  | some k =>
    if k.isNewline || k == .mark .comma || k.isCloser then
      return .null span
    else
      advance
      return .null span

/-- Stands in where the depth is used up. -/
def exhausted (fallback : α) : Parser α := do
  report (.unexpected (← found))
  return fallback

/-- The literal that a name is. -/
def literalName? (name : String) (span : Span) : Option Expr :=
  if name = "true" then some (.bool true span)
  else if name = "false" then some (.bool false span)
  else if name = "null" then some (.null span)
  else none

/-- Whether an entry's key starts with the token: a name, or what starts an expression that can
be a key. -/
def startsKey : TokenKind → Bool
  | .ident _ | .str _ | .heredoc _ | .number _ | .mark .openParen | .mark .minus => true
  | _ => false

/-! ## Forms over the readers of their parts -/

/-- What stands between an opener and the closer `own`. -/
def delimited (items : Parser α) (own : Mark) (fault : SyntaxFault) : Parser (α × Closing) := do
  newlines
  let items ← items
  newlines
  return (items, ← close own fault)

/-- The closing parenthesis of an expression in parentheses. -/
def closeParens : Parser Unit := do
  unless ← mark .closeParen do
    report .unbalancedParentheses
    match ← peekKind with
    | none | some (.mark .closeBrace) | some (.mark .closeBracket) => return ()
    | some _ => move (Cursor.skipToClose .closeParen)

/-- An expression in parentheses, the first of which comes next and stands at `start`. -/
def parens (inner : Parser Expr) (start : Pos) : Parser Expr := do
  advance
  newlines
  let inner ← inner
  newlines
  closeParens
  return .parens inner (← spanFrom start)

/-- A tuple, the bracket of which comes next and stands at `opener`. -/
def tuple (items : Parser (List Expr)) (opener : Span) : Parser Expr := do
  advance
  let (items, closing) ← delimited items .closeBracket .missingItemSeparator
  if closing = .unclosed then reportAt opener .unclosedTuple
  return .tuple items (← spanFrom opener.start)

/-- A call of the function whose name comes next and stands at `start`. -/
def call (arguments : Parser (List Expr)) (name : String) (start : Pos) : Parser Expr := do
  advance
  let opener ← lookahead
  advance
  let (arguments, closing) ← delimited arguments .closeParen .missingArgumentSeparator
  if closing = .unclosed then reportAt opener .unclosedCall
  return .call name arguments (← spanFrom start)

/-- An object, the brace of which comes next and stands at `opener`. -/
def object (entries : Parser (List Entry × Closing)) (opener : Span) : Parser Expr := do
  advance
  let (entries, closing) ← entries
  if closing = .unclosed then reportAt opener .unclosedObject
  return .object entries (← spanFrom opener.start)

/-- The traversal whose root comes next. A dot without a name behind its steps belongs to it. -/
def traversal (steps : Parser (List Step)) (root : String) (rootSpan : Span) :
    Parser Traversal := do
  advance
  let steps ← steps
  if ← mark .dot then report .invalidAttributeName
  return .mk root rootSpan steps (← spanFrom rootSpan.start)

/-- A key in brackets, the first of which comes next and stands at `start`. -/
def indexStep (key : Parser Expr) (start : Pos) : Parser Step := do
  advance
  newlines
  let key ← key
  newlines
  unless ← mark .closeBracket do
    report .missingIndexBracket
    move (Cursor.skipToClose .closeBracket)
  return .index key (← spanFrom start)

/-- The step behind the dot that comes next and stands at `start`, if there is one. -/
def dotStep? (start : Pos) : Parser (Option Step) := do
  match ← peekSecond with
  | some (.ident name) =>
    advance
    advance
    return some (.attr name (← spanFrom start))
  | some (.number text) =>
    advance
    let span ← lookahead
    advance
    return some (.index (.number text span) (← spanFrom start))
  | _ => return none

/-- The key that starts with the next token. -/
def keyOf (value : Parser Expr) (steps : Parser (List Step)) : Parser Key := do
  match ← peek with
  | some ⟨.ident name, span⟩ => return .path (← traversal steps name span)
  | _ => return .expr (← value)

/-! ## Expressions -/

mutual

/-- An expression, or a report that there is none. -/
def value : (depth : Nat) → Parser Expr
  | 0 => do exhausted (.null (← lookahead))
  | depth + 1 => do
    match ← peek with
    | none => invalidExpression
    | some t =>
      match t.kind with
      | .number text =>
        advance
        return .number text t.span
      | .str text | .heredoc text =>
        advance
        return .string text t.span
      | .ident name =>
        match literalName? name t.span with
        | some e =>
          advance
          return e
        | none =>
          -- The token behind a name tells a call from a traversal.
          if (← peekSecond) = some (.mark .openParen) then
            call (elements depth) name t.span.start
          else return .traversal (← traversal (steps depth) name t.span)
      | .mark .minus =>
        advance
        let operand ← value depth
        return .negate operand (← spanFrom t.span.start)
      | .mark .openBracket => tuple (elements depth) t.span
      | .mark .openBrace => object (objectEntries depth) t.span
      | .mark .openParen => parens (value depth) t.span.start
      | _ => invalidExpression

/-- The steps of a traversal. -/
def steps : (depth : Nat) → Parser (List Step)
  | 0 => exhausted []
  | depth + 1 => do
    match ← peek with
    | some ⟨.mark .dot, span⟩ =>
      match ← dotStep? span.start with
      | some step => return step :: (← steps depth)
      | none => return []
    | some ⟨.mark .openBracket, span⟩ =>
      let step ← indexStep (value depth) span.start
      return step :: (← steps depth)
    | _ => return []

/-- Expressions with commas between them, the last of which may be followed by one. -/
def elements : (depth : Nat) → Parser (List Expr)
  | 0 => exhausted []
  | depth + 1 => do
    match ← peekKind with
    | none => return []
    | some k =>
      if k.isCloser then return []
      else
        let item ← value depth
        if ← comma then return item :: (← elements depth)
        else return [item]

/-- The entries of an object, each ended by a comma or a line end, and how the object ends. -/
def objectEntries : (depth : Nat) → Parser (List Entry × Closing)
  | 0 => exhausted ([], .broken)
  | depth + 1 => do
    newlines
    match ← peekKind with
    | none => return ([], .unclosed)
    | some k =>
      if startsKey k then
        let key ← keyOf (value depth) (steps depth)
        match ← peekKind with
        | some (.mark .equals) | some (.mark .colon) =>
          advance
          let entry := Entry.mk key (← value depth)
          match ← peekKind with
          | some (.mark .comma) | some (.mark .newline) =>
            advance
            let (entries, closing) ← objectEntries depth
            return (entry :: entries, closing)
          | _ => return ([entry], ← close .closeBrace .missingAttributeSeparator)
        | _ =>
          -- Without a separator the rest of the object is passed over, and so is its end.
          report .missingKeyValueSeparator
          move (Cursor.skipToClose .closeBrace)
          return ([], .broken)
      else return ([], ← close .closeBrace .invalidObjectKey)

end

/-- The depth that is enough for the tokens left. -/
def enoughDepth : Parser Nat := do return 2 * (← remaining) + 2

/-- An expression, or a report that there is none. -/
def expression : Parser Expr := do value (← enoughDepth)

/-- The key that starts with the next token. -/
def entryKey : Parser Key := do
  let depth ← enoughDepth
  keyOf (value depth) (steps depth)

end Overlay.Hcl.Parser
