import Overlay.Hcl.Lexeme
import Overlay.Hcl.Template

/-!
# Tokens

* A token is what a lexeme stands for: words and numbers with their text, strings and heredocs with
  the text they decode to, marks, and line ends, which count.
* Blanks and comments are no tokens.
* `Tokens.ofText` gives all tokens of a text and all lexical faults, both in text order.
-/

namespace Overlay.Hcl

/-- What a token stands for. -/
inductive TokenKind where
  | ident (name : String)
  /-- A number as it is written. -/
  | number (text : String)
  /-- A quoted string, decoded. -/
  | str (text : String)
  /-- A heredoc, decoded. -/
  | heredoc (text : String)
  | mark (m : Mark)
  /-- A character that no token starts with. -/
  | stray (c : Char)
deriving DecidableEq, Repr

/-- How messages call a mark. -/
def Mark.describe : Mark → String
  | openBrace => "opening brace"
  | closeBrace => "closing brace"
  | openBracket => "opening bracket"
  | closeBracket => "closing bracket"
  | openParen => "opening parenthesis"
  | closeParen => "closing parenthesis"
  | equals => "equals sign"
  | colon => "colon"
  | comma => "comma"
  | dot => "dot"
  | minus => "minus sign"
  | newline => "newline"

namespace TokenKind

/-- How messages call a token. -/
def describe : TokenKind → String
  | ident name => s!"identifier {Text.inspect name}"
  | number text => s!"number {text}"
  | str _ => "quoted string"
  | heredoc _ => "heredoc"
  | mark m => m.describe
  | stray c => s!"character {Text.inspectLone c}"

/-- The decoded text of a token that has one. -/
def payload? : TokenKind → Option String
  | ident text | number text | str text | heredoc text => some text
  | _ => none

end TokenKind

/-- A token and where it stands. -/
structure Token where
  kind : TokenKind
  span : Span
deriving DecidableEq, Repr

/-! ## Heredoc text -/

namespace Heredoc

/-- How many characters of indentation every line that is not blank has. -/
def commonIndent (lines : List (List Char)) : Nat :=
  let indents := (lines.filter fun l => !(Text.trim l).isEmpty).map fun l =>
    (l.takeWhile Text.isBlank).length
  match indents with
  | [] => 0
  | n :: ns => ns.foldl min n

/-- The text that decoded lines make: each line with its end. -/
def join (indented : Bool) (lines : List (List Char)) : List Char :=
  let n := if indented then commonIndent lines else 0
  lines.flatMap fun l => l.drop n ++ ['\n']

end Heredoc

/-! ## From lexemes to tokens -/

/-- The tokens of a text and what is wrong inside them. -/
structure Tokens where
  tokens : List Token
  faults : List (Located LexicalFault)
deriving DecidableEq, Repr

namespace Tokens

/-- Both parts of one text in front of both parts of another. -/
def append (a b : Tokens) : Tokens := ⟨a.tokens ++ b.tokens, a.faults ++ b.faults⟩

/-- The token of a lexeme that stands at `p`, if it is one, and its faults. -/
def ofLexeme (p : Pos) (x : Lexeme) : Tokens :=
  let span : Span := ⟨p, p.advanceAll x.text⟩
  let token (kind : TokenKind) : List Token := [⟨kind, span⟩]
  match x.shape with
  | .blank | .lineComment => ⟨[], []⟩
  | .blockComment closed => ⟨[], if closed then [] else [⟨.unterminatedComment, span⟩]⟩
  | .word => ⟨token (.ident (String.ofList x.text)), []⟩
  | .number => ⟨token (.number (String.ofList x.text)), []⟩
  | .quoted closed =>
    let inner := if closed then x.text.tail.dropLast else x.text.tail
    let decoded := Template.decode true (p.advance '"') inner
    ⟨token (.str (String.ofList decoded.text)),
      decoded.faults ++ if closed then [] else [⟨.unterminatedString, span⟩]⟩
  | .heredoc doc =>
    let intro := x.text.takeWhile (· ≠ '\n') ++ ['\n']
    let (lines, faults) := Template.decodeLines (p.advanceAll intro) doc.lines
    ⟨token (.heredoc (String.ofList (Heredoc.join doc.indented lines))),
      faults ++ if doc.closed then []
        else [⟨.unterminatedHeredoc (String.ofList doc.marker), span⟩]⟩
  | .brokenHeredoc => ⟨token (.heredoc ""), [⟨.invalidHeredoc, span⟩]⟩
  | .mark m => ⟨token (.mark m), []⟩
  | .stray =>
    match x.text with
    | c :: _ => ⟨token (.stray c), [⟨.invalidCharacter c, span⟩]⟩
    | [] => ⟨[], []⟩

/-- The tokens of lexemes that stand one behind the other, the first one at `p`. -/
def ofLexemes (p : Pos) : List Lexeme → Tokens
  | [] => ⟨[], []⟩
  | x :: xs => (ofLexeme p x).append (ofLexemes (p.advanceAll x.text) xs)

/-- The tokens of a text. -/
def ofText (text : String) : Tokens := ofLexemes .start (Lexeme.split text.toList)

/-- The lexical diagnostics of the text named `filename`. -/
def diagnostics (ts : Tokens) (filename : String) : Diagnostics :=
  ts.faults.map (Located.lexicalDiagnostic filename)

end Tokens

end Overlay.Hcl
