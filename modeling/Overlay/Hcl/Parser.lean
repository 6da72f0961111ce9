import Overlay.Hcl.Token

/-!
# Reading tokens

The steps that the grammar is made of.

* A `Parser` reads from the front of a token list and reports faults in the order it meets them.
  It has no way to fail: where the text is malformed it reports, skips and goes on.
* A construct that ends early is resynchronised at its own border: an item at the end of its line
  (`recoverLine`), a collection at its closing mark (`skipToClose`).
* `Frame` says what the end of the tokens is called and where it stands.
-/

namespace Overlay.Hcl

/-! ## Cursors -/

/-- A place between tokens: where the token in front ends, and the tokens behind. -/
structure Cursor where
  last : Pos
  rest : List Token
deriving DecidableEq, Repr

namespace Mark

/-- Whether the mark opens a group. -/
def isOpener : Mark → Bool
  | openBrace | openBracket | openParen => true
  | _ => false

/-- Whether the mark closes a group. -/
def isCloser : Mark → Bool
  | closeBrace | closeBracket | closeParen => true
  | _ => false

end Mark

namespace TokenKind

/-- Whether the token opens a group. -/
def isOpener : TokenKind → Bool
  | mark m => m.isOpener
  | _ => false

/-- Whether the token closes a group. -/
def isCloser : TokenKind → Bool
  | mark m => m.isCloser
  | _ => false

/-- Whether the token is the end of a line. -/
def isNewline (k : TokenKind) : Bool := k == mark .newline

end TokenKind

namespace Cursor

/-- The place in front of all `tokens`, the text of which starts at `p`. -/
def ofTokens (p : Pos) (tokens : List Token) : Cursor := ⟨p, tokens⟩

/-- The kind of the next token. -/
def kind? (c : Cursor) : Option TokenKind := c.rest.head?.map Token.kind

/-- The place behind the next token. -/
def advance (c : Cursor) : Cursor :=
  match c.rest with
  | [] => c
  | t :: ts => ⟨t.span.stop, ts⟩

/-- The place behind the tokens at the front that pass `test`. -/
def skipWhile (test : TokenKind → Bool) (last : Pos) : List Token → Cursor
  | [] => ⟨last, []⟩
  | t :: ts => if test t.kind then skipWhile test t.span.stop ts else ⟨last, t :: ts⟩

/-- The place behind the line ends at the front. -/
def skipNewlines (c : Cursor) : Cursor := skipWhile TokenKind.isNewline c.last c.rest

/-- The place behind the groups at the front, in front of a closer that none of them has; `depth`
groups are open. Any closer closes the innermost group. -/
def skipGroups (last : Pos) : (depth : Nat) → List Token → Cursor
  | _, [] => ⟨last, []⟩
  | depth, t :: ts =>
    if t.kind.isOpener then skipGroups t.span.stop (depth + 1) ts
    else if t.kind.isCloser then
      match depth with
      | 0 => ⟨last, t :: ts⟩
      | depth + 1 => skipGroups t.span.stop depth ts
    else skipGroups t.span.stop depth ts

/-- Skips groups up to the closer `own` and that one too. Any other closer stays in place. -/
def skipToClose (own : Mark) (c : Cursor) : Cursor :=
  let c := skipGroups c.last 0 c.rest
  if c.kind? = some (.mark own) then c.advance else c

/-- Skips the rest of the line and its end. -/
def recoverLine (c : Cursor) : Cursor := (skipWhile (fun k => !k.isNewline) c.last c.rest).advance

end Cursor

/-! ## Parsers -/

/-- What stands around the tokens: the span of their end, and the byte from which on a token is
called the end of the file. -/
structure Frame where
  ending : Span
  fileEnd : Nat
deriving DecidableEq, Repr

/-- What reading gave: a value, the place behind it, and the faults met on the way. -/
structure Parsed (α : Type) where
  value : α
  next : Cursor
  faults : List (Located SyntaxFault)
deriving DecidableEq, Repr

/-- A reader of tokens. -/
def Parser (α : Type) : Type := Frame → Cursor → Parsed α

namespace Parser

instance : Monad Parser where
  pure a := fun _ c => ⟨a, c, []⟩
  bind p f := fun frame c =>
    let x := p frame c
    let y := f x.value frame x.next
    ⟨y.value, y.next, x.faults ++ y.faults⟩

/-- The next token. -/
def peek : Parser (Option Token) := fun _ c => ⟨c.rest.head?, c, []⟩

/-- The kind of the next token. -/
def peekKind : Parser (Option TokenKind) := fun _ c => ⟨c.kind?, c, []⟩

/-- The kind of the token behind the next one. -/
def peekSecond : Parser (Option TokenKind) := fun _ c => ⟨c.advance.kind?, c, []⟩

/-- How many tokens are left. -/
def remaining : Parser Nat := fun _ c => ⟨c.rest.length, c, []⟩

/-- Moves the place. -/
def move (f : Cursor → Cursor) : Parser Unit := fun _ c => ⟨(), f c, []⟩

/-- Takes the next token. -/
def advance : Parser Unit := move Cursor.advance

/-- Takes the line ends at the front. -/
def newlines : Parser Unit := move Cursor.skipNewlines

/-- The span of the next token, or of the end. -/
def lookahead : Parser Span := fun frame c =>
  ⟨(c.rest.head?.map Token.span).getD frame.ending, c, []⟩

/-- How messages call the next token. -/
def found : Parser String := fun frame c =>
  let text := match c.rest with
    | t :: _ => if frame.fileEnd ≤ t.span.start.byte then "end of file" else t.kind.describe
    | [] => "end of file"
  ⟨text, c, []⟩

/-- The span from `start` to the end of the last token taken. -/
def spanFrom (start : Pos) : Parser Span := fun _ c => ⟨⟨start, c.last⟩, c, []⟩

/-- Reports a fault. -/
def reportAt (span : Span) (fault : SyntaxFault) : Parser Unit :=
  fun _ c => ⟨(), c, [⟨fault, span⟩]⟩

/-- Reports a fault at the next token. -/
def report (fault : SyntaxFault) : Parser Unit := do reportAt (← lookahead) fault

/-- Whether the next token is the mark `m`. -/
def atMark (m : Mark) : Parser Bool := do return (← peekKind) == some (.mark m)

/-- Takes the mark `m` if it comes next, and says whether it did. -/
def mark (m : Mark) : Parser Bool := do
  if ← atMark m then
    advance
    return true
  else
    return false

/-- How a delimited construct ends. -/
inductive Closing where
  | closed
  /-- It ran into the end, or into a closer that belongs to somebody else. -/
  | unclosed
  /-- The fault is reported already. -/
  | broken
deriving DecidableEq, Repr

/-- Ends a construct with the closer `own`. The end of the tokens and any other closer leave it
unclosed and stay in place; at any other token `fault` is reported and the construct skipped. -/
def close (own : Mark) (fault : SyntaxFault) : Parser Closing := do
  match ← peekKind with
  | none => return .unclosed
  | some k =>
    if k = .mark own then
      advance
      return .closed
    else if k.isCloser then
      return .unclosed
    else
      report fault
      move (Cursor.skipToClose own)
      return .broken

/-- Takes a comma with the line ends around it, and says whether there is one; without a comma
nothing is taken. -/
def comma : Parser Bool := fun _ c =>
  let ahead := c.skipNewlines
  if ahead.kind? = some (.mark .comma) then ⟨true, ahead.advance.skipNewlines, []⟩
  else ⟨false, c, []⟩

/-- Ends an item: with the end of its line, or in front of a closing brace or the end. -/
def endOfItem : Parser Unit := do
  match ← peekKind with
  | none | some (.mark .closeBrace) => return ()
  | some (.mark .newline) => advance
  | some _ =>
    report .missingNewline
    move Cursor.recoverLine

end Parser

end Overlay.Hcl
