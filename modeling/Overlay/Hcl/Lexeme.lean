import Overlay.Text.Letter
import Overlay.Text.Blank

/-!
# Lexemes

A text is cut into lexemes: tokens as they are written, and the blanks and comments between them.

* `Lexeme.next` takes the longest lexeme at the front of a text.
* `Lexeme.split` cuts a whole text; nothing is lost, so the lexemes put together are the text.
* What a lexeme stands for is decided later, from its shape and its place.
-/

namespace Overlay.Hcl

/-- Lexemes that are one fixed character. -/
inductive Mark where
  | openBrace
  | closeBrace
  | openBracket
  | closeBracket
  | openParen
  | closeParen
  | equals
  | colon
  | comma
  | dot
  | minus
  | newline
deriving DecidableEq, Repr

namespace Mark

/-- The mark that a character is. -/
def ofChar? : Char → Option Mark
  | '{' => some openBrace
  | '}' => some closeBrace
  | '[' => some openBracket
  | ']' => some closeBracket
  | '(' => some openParen
  | ')' => some closeParen
  | '=' => some equals
  | ':' => some colon
  | ',' => some comma
  | '.' => some dot
  | '-' => some minus
  | '\n' => some newline
  | _ => none

end Mark

/-- What a heredoc holds: its marker, whether its indentation is dropped, the lines in front of the
closing one, and whether there is a closing one. -/
structure Heredoc where
  indented : Bool
  marker : List Char
  lines : List (List Char)
  closed : Bool
deriving DecidableEq, Repr

/-- What kind of lexeme a stretch of text is. -/
inductive Shape where
  /-- Spaces, tabs and carriage returns. -/
  | blank
  /-- A comment up to the end of its line. -/
  | lineComment
  /-- A comment between markers. -/
  | blockComment (closed : Bool)
  | word
  | number
  /-- A quoted string on one line. -/
  | quoted (closed : Bool)
  | heredoc (doc : Heredoc)
  /-- The start of a heredoc without a marker at the end of its line. -/
  | brokenHeredoc
  | mark (m : Mark)
  /-- A character that starts no lexeme. -/
  | stray
deriving DecidableEq, Repr

/-- A stretch of text and what it is. -/
structure Lexeme where
  shape : Shape
  text : List Char
deriving DecidableEq, Repr

namespace Lexeme

/-! ## Character classes -/

/-- Whether `c` is a decimal digit. -/
def isDigit (c : Char) : Bool := '0' ≤ c && c ≤ '9'

/-- Whether a word can start with `c`. -/
def startsWord (c : Char) : Bool := c == '_' || Text.isLetter c

/-- Whether a word can go on with `c`. -/
def continuesWord (c : Char) : Bool :=
  c == '_' || c == '-' || Text.isLetter c || Text.isNumber c

/-- Whether `c` only separates tokens. -/
def isSpace (c : Char) : Bool := c == ' ' || c == '\t' || c == '\r'

/-! ## What follows the first character -/

/-- The fraction at the front of `cs`: a dot and at least one digit, or nothing. -/
def fraction : List Char → List Char
  | '.' :: cs =>
    let ds := cs.takeWhile isDigit
    if ds.isEmpty then [] else '.' :: ds
  | _ => []

/-- The sign at the front of `cs`, if there is one. -/
def sign : List Char → List Char
  | '+' :: _ => ['+']
  | '-' :: _ => ['-']
  | _ => []

/-- The exponent at the front of `cs`: its letter, a sign or none, and at least one digit. -/
def exponent : List Char → List Char
  | [] => []
  | c :: cs =>
    if c = 'e' ∨ c = 'E' then
      let s := sign cs
      let ds := (cs.drop s.length).takeWhile isDigit
      if ds.isEmpty then [] else c :: s ++ ds
    else []

/-- What a number goes on with behind its first digit. -/
def numberTail (cs : List Char) : List Char :=
  let ds := cs.takeWhile isDigit
  let f := fraction (cs.drop ds.length)
  ds ++ f ++ exponent (cs.drop (ds.length + f.length))

/-- What a quoted string goes on with behind its opening quote, and whether it is closed. A
backslash protects the character behind it, but not the end of the line. -/
def quotedTail : List Char → List Char × Bool
  | [] => ([], false)
  | '"' :: _ => (['"'], true)
  | '\\' :: c :: cs =>
    if c = '\n' then ([], false)
    else
      let (rest, closed) := quotedTail cs
      ('\\' :: c :: rest, closed)
  | c :: cs =>
    -- A backslash gets here only as the last character of the text.
    if c = '\n' ∨ c = '\\' then ([], false)
    else
      let (rest, closed) := quotedTail cs
      (c :: rest, closed)

/-- A block comment behind its opening marker, through its closing one if there is one. -/
def commentTail : List Char → List Char × Bool
  | [] => ([], false)
  | '*' :: '/' :: _ => (['*', '/'], true)
  | c :: cs =>
    let (rest, closed) := commentTail cs
    (c :: rest, closed)

/-- The marker at the front of `cs`, empty if `cs` starts no word. -/
def marker : List Char → List Char
  | [] => []
  | c :: cs => if startsWord c then c :: cs.takeWhile continuesWord else []

/-- The lines of a heredoc body: those in front of the closing line, the closing line if there is
one, and how many characters both take. `line` holds the start of the current line, reversed. -/
def bodyLines (mark : List Char) (line : List Char) :
    List Char → List (List Char) × Bool × Nat
  | [] =>
    if line.isEmpty then ([], false, 0)
    else if Text.trim line.reverse = mark then ([], true, 0)
    else ([line.reverse], false, 0)
  | c :: cs =>
    if c = '\n' then
      if Text.trim line.reverse = mark then ([], true, 0)
      else
        let (lines, closed, n) := bodyLines mark [] cs
        (line.reverse :: lines, closed, n + 1)
    else
      let (lines, closed, n) := bodyLines mark (c :: line) cs
      (lines, closed, n + 1)

/-- The heredoc behind its first `<`, or what stands in its place. -/
def heredocTail (cs : List Char) : Shape × List Char :=
  let dash := match cs with
    | '<' :: '-' :: _ => ['-']
    | _ => []
  let mark := marker (cs.drop (1 + dash.length))
  let intro := '<' :: dash ++ mark
  match mark, cs.drop intro.length with
  -- Nothing may stand between the marker and the end of its line.
  | _ :: _, '\n' :: body =>
    let (lines, closed, n) := bodyLines mark [] body
    (.heredoc ⟨!dash.isEmpty, mark, lines, closed⟩, intro ++ '\n' :: body.take n)
  | _, _ => (.brokenHeredoc, intro)

/-! ## The lexeme at the front -/

/-- The shape of the longest lexeme that starts with `c` in front of `cs`, and what of `cs` belongs
to it. -/
def tail (c : Char) (cs : List Char) : Shape × List Char :=
  if isSpace c then (.blank, cs.takeWhile isSpace)
  else if c = '#' then (.lineComment, cs.takeWhile (· ≠ '\n'))
  else if startsWord c then (.word, cs.takeWhile continuesWord)
  else if isDigit c then (.number, numberTail cs)
  else if c = '"' then
    let (rest, closed) := quotedTail cs
    (.quoted closed, rest)
  else
    match c, cs, Mark.ofChar? c with
    | _, _, some m => (.mark m, [])
    | '/', '/' :: rest, _ => (.lineComment, '/' :: rest.takeWhile (· ≠ '\n'))
    | '/', '*' :: rest, _ =>
      let (rest, closed) := commentTail rest
      (.blockComment closed, '*' :: rest)
    | '<', '<' :: _, _ => heredocTail cs
    | _, _, _ => (.stray, [])

/-- The longest lexeme that starts with `c` in front of `cs`. -/
def next (c : Char) (cs : List Char) : Lexeme :=
  let (shape, rest) := tail c cs
  ⟨shape, c :: rest⟩

/-- The lexemes of a text, of which the first `skip` characters belong to a lexeme in front. -/
def splitFrom : (skip : Nat) → List Char → List Lexeme
  | _, [] => []
  | skip + 1, _ :: cs => splitFrom skip cs
  | 0, c :: cs =>
    let x := next c cs
    x :: splitFrom (x.text.length - 1) cs

/-- The lexemes of a text. -/
def split (cs : List Char) : List Lexeme := splitFrom 0 cs

end Lexeme

end Overlay.Hcl
