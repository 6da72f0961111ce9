/-!
# Walking through a YAML text

* `plainBreaks` makes line feeds of all line ends but the separators of lines and paragraphs, and
  refuses control characters.
* A `Cursor` is a place in a text with what follows it.
-/

namespace Overlay.Yaml

/-- Whether a text can hold `c`. -/
def isAllowed (c : Char) : Bool :=
  let n := c.toNat
  c == '\t' || c == '\n' || c == '\r' || 0x20 ≤ n && n ≤ 0x7E || n == 0x85 ||
    0xA0 ≤ n && n ≤ 0xFFFD || 0x10000 ≤ n

/-- The text with line feeds for carriage returns, for both together, and for next lines. A
character that no text can hold is refused. -/
def plainBreaks : List Char → Option (List Char)
  | [] => some []
  | '\r' :: '\n' :: cs => (plainBreaks cs).map ('\n' :: ·)
  | c :: cs =>
    if isAllowed c then
      (plainBreaks cs).map ((if c = '\r' ∨ c = '\x85' then '\n' else c) :: ·)
    else none

/-- Whether `c` ends a line. -/
def isBreak (c : Char) : Bool := c == '\n' || c == '\u2028' || c == '\u2029'

/-- Whether `c` is a blank inside a line. -/
def isBlank (c : Char) : Bool := c == ' ' || c == '\t'

/-- Whether a text starts with a blank or a line end, or is empty. -/
def startsBlank : List Char → Bool
  | [] => true
  | c :: _ => isBlank c || isBreak c

/-- A place in a text: how many characters are in front of it, the line, the column, and the text
behind it. -/
structure Cursor where
  rest : List Char
  index : Nat
  line : Nat
  column : Nat
deriving Repr

namespace Cursor

/-- The start of a text. -/
def ofChars (cs : List Char) : Cursor := ⟨cs, 0, 0, 0⟩

/-- The place behind a character. -/
def past (c : Cursor) (d : Char) (rest : List Char) : Cursor :=
  if isBreak d then ⟨rest, c.index + 1, c.line + 1, 0⟩
  else ⟨rest, c.index + 1, c.line, c.column + 1⟩

/-- The place behind the next character. -/
def advance (c : Cursor) : Cursor :=
  match c.rest with
  | [] => c
  | d :: rest => c.past d rest

/-- The next character. -/
def next? (c : Cursor) : Option Char := c.rest.head?

/-- The place behind the next `count` characters. -/
def skip : (count : Nat) → Cursor → Cursor
  | 0, c => c
  | count + 1, c => skip count c.advance

/-- The characters at the front that pass `test`, and the place behind them. -/
def takeWhile (test : Char → Bool) (c : Cursor) : List Char × Cursor :=
  go c c.rest
where
  /-- Takes from the text given, at the cursor given. -/
  go (c : Cursor) : List Char → List Char × Cursor
  | [] => ([], c)
  | d :: rest =>
    if test d then
      let (ds, c) := go (c.past d rest) rest
      (d :: ds, c)
    else ([], c)

/-- The place behind the characters at the front that pass `test`. -/
def skipWhile (test : Char → Bool) (c : Cursor) : Cursor := (c.takeWhile test).2

/-- The place at the end of the line. -/
def skipLine (c : Cursor) : Cursor := c.skipWhile fun d => !isBreak d

/-- Whether the text is at its end or at the end of a line. -/
def atBreak (c : Cursor) : Bool := c.next?.all isBreak

/-- Whether a line starts here with three of `mark` and a blank. -/
def atMark (mark : Char) (c : Cursor) : Bool :=
  c.column == 0 && c.rest.take 3 == [mark, mark, mark] && startsBlank (c.rest.drop 3)

/-- Whether a line starts here that starts or ends a document. -/
def atDocumentMark (c : Cursor) : Bool := c.atMark '-' || c.atMark '.'

/-- The place behind the blanks and the comment at the end of a line, if nothing else is there. -/
def endLine? (c : Cursor) : Option Cursor :=
  let c := c.skipWhile isBlank
  let c := if c.next? = some '#' then c.skipLine else c
  if c.atBreak then some c.advance else none

end Cursor

end Overlay.Yaml
