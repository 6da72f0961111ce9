import Overlay.Yaml.Cursor

/-!
# Scalars of YAML

The text of a scalar in each of its styles.

* Between the lines of a plain or quoted scalar a single line end becomes a blank, and of more line
  ends the first is left out.
* A literal scalar keeps its line ends. A folded one joins lines unless one of them starts with a
  blank. A sign in the header says what becomes of the line ends behind the last line.
-/

namespace Overlay.Yaml

/-- The style of a scalar. -/
inductive Style where
  | plain
  | quoted
  | literal
  | folded
deriving DecidableEq, Repr

/-! ## Gaps between words -/

/-- Line ends that stand between words, as text. -/
def foldBreaks : List Char → List Char
  | ['\n'] => [' ']
  | '\n' :: more => more
  | breaks => breaks

/-- Reads blanks and line ends up to the next word, given those read already. A tab that stands in
front of the column `indent` on a line of its own is refused. -/
def readBreaks (indent : Nat) (c : Cursor) : Option (List Char × Cursor) :=
  go c c.rest
where
  /-- Reads from the text given, at the cursor given. -/
  go (c : Cursor) : List Char → Option (List Char × Cursor)
  | [] => some ([], c)
  | d :: rest =>
    if isBreak d then (go (c.past d rest) rest).map fun (ds, c) => (d :: ds, c)
    else if isBlank d then
      if d = '\t' ∧ c.column < indent then none else go (c.past d rest) rest
    else some ([], c)

/-- What stands between two words: its text, whether it has line ends, and the place behind it. -/
structure Gap where
  text : List Char
  hasBreak : Bool
  behind : Cursor

/-- Reads the gap behind a word. -/
def readGap (indent : Nat) (c : Cursor) : Option Gap := do
  let (blanks, c) := c.takeWhile isBlank
  let (breaks, c) ← readBreaks indent c
  return if breaks.isEmpty then ⟨blanks, false, c⟩ else ⟨foldBreaks breaks, true, c⟩

/-! ## Plain scalars -/

/-- Whether `c` ends a plain scalar in a flow collection. -/
def isFlowMark (c : Char) : Bool := c == ',' || c == '[' || c == ']' || c == '{' || c == '}'

/-- Reads a word of a plain scalar. In a flow collection a colon must not stand in front of a mark
of the collection. -/
def readWord (inFlow : Bool) (c : Cursor) : Option (List Char × Cursor) :=
  go c c.rest
where
  /-- Reads from the text given, at the cursor given. -/
  go (c : Cursor) : List Char → Option (List Char × Cursor)
  | [] => some ([], c)
  | d :: rest =>
    if isBlank d || isBreak d then some ([], c)
    else if inFlow && d = ':' && (rest.head?.any fun e => isFlowMark e || e == '?') then none
    else if d = ':' && startsBlank rest then some ([], c)
    else if inFlow && isFlowMark d then some ([], c)
    else (go (c.past d rest) rest).map fun (ds, c) => (d :: ds, c)

/-- A scalar that was read: its text, whether line ends follow it, and the place behind these. -/
structure ScalarText where
  text : List Char
  endsLine : Bool
  behind : Cursor

/-- Reads the words of a plain scalar whose lines stand at the column `indent` or behind it; `gap`
is what stands in front of the next word. -/
def readPlain (inFlow : Bool) (indent : Nat) : (fuel : Nat) → (gap : Gap) → Option ScalarText
  | 0, _ => none
  | fuel + 1, gap =>
    let finished : ScalarText := ⟨[], gap.hasBreak, gap.behind⟩
    if gap.behind.atDocumentMark || gap.behind.next? = some '#' then some finished
    else do
      let (word, c) ← readWord inFlow gap.behind
      if word.isEmpty then return finished
      if !startsBlank c.rest || c.rest.isEmpty then return ⟨gap.text ++ word, false, c⟩
      let next ← readGap indent c
      if !inFlow && next.behind.column < indent then
        return ⟨gap.text ++ word, next.hasBreak, next.behind⟩
      let scalar ← readPlain inFlow indent fuel next
      return { scalar with text := gap.text ++ word ++ scalar.text }

/-! ## Quoted scalars -/

/-- The character that a letter behind a backslash stands for. -/
def escaped? : Char → Option Char
  | '0' => some '\x00'
  | 'a' => some '\x07'
  | 'b' => some '\x08'
  | 't' | '\t' => some '\t'
  | 'n' => some '\n'
  | 'v' => some '\x0b'
  | 'f' => some '\x0c'
  | 'r' => some '\r'
  | 'e' => some '\x1b'
  | ' ' => some ' '
  | '"' => some '"'
  | '/' => some '/'
  | '\\' => some '\\'
  | 'N' => some '\x85'
  | '_' => some '\xa0'
  | 'L' => some '\u2028'
  | 'P' => some '\u2029'
  | _ => none

/-- How many hexadecimal digits follow a letter behind a backslash. -/
def codeLength? : Char → Option Nat
  | 'x' => some 2
  | 'u' => some 4
  | 'U' => some 8
  | _ => none

/-- The value of a hexadecimal digit. -/
def hexValue? (c : Char) : Option Nat :=
  if '0' ≤ c ∧ c ≤ '9' then some (c.toNat - 48)
  else if 'a' ≤ c ∧ c ≤ 'f' then some (c.toNat - 87)
  else if 'A' ≤ c ∧ c ≤ 'F' then some (c.toNat - 55)
  else none

/-- The character with a number in hexadecimal digits. -/
def codeChar? (digits : List Char) : Option Char := do
  let values ← digits.mapM hexValue?
  let n := values.foldl (fun n d => 16 * n + d) 0
  if n.isValidChar then some (Char.ofNat n) else none

/-- Reads an escape at its backslash. -/
def readEscape (c : Cursor) : Option (Char × Cursor) := do
  let letter ← c.rest[1]?
  let c := c.skip 2
  match codeLength? letter with
  | none => return (← escaped? letter, c)
  | some length =>
    let digits := c.rest.take length
    if digits.length < length then none
    else return (← codeChar? digits, c.skip length)

/-- Reads a word of a quoted scalar, up to a blank, a line end or the closing quote. With `true`,
the word ends with a backslash in front of a line end. -/
def readQuotedWord (single : Bool) : (fuel : Nat) → Cursor → Option (List Char × Bool × Cursor)
  | 0, _ => none
  | fuel + 1, c =>
    let push (d : Char) (c : Cursor) : Option (List Char × Bool × Cursor) :=
      (readQuotedWord single fuel c).map fun (ds, escape, c) => (d :: ds, escape, c)
    match c.rest with
    | [] => some ([], false, c)
    | d :: rest =>
      if isBlank d || isBreak d then some ([], false, c)
      else if single then
        if d = '\'' then
          if rest.head? = some '\'' then push '\'' (c.skip 2) else some ([], false, c)
        else push d c.advance
      else if d = '"' then some ([], false, c)
      else if d = '\\' then
        if rest.head?.any isBreak then some ([], true, c.skip 2)
        else do
          let (e, c) ← readEscape c
          push e c
      else push d c.advance

/-- Reads a quoted scalar behind its opening quote. -/
def readQuoted (single : Bool) : (fuel : Nat) → Cursor → Option (List Char × Cursor)
  | 0, _ => none
  | fuel + 1, c => do
    if c.atDocumentMark || c.rest.isEmpty then none
    let (word, escape, c) ← readQuotedWord single (c.rest.length + 1) c
    if c.next? = some (if single then '\'' else '"') then return (word, c.advance)
    let (gap, c) ← if escape then readBreaks 0 c
      else (readGap 0 c).map fun gap => (gap.text, gap.behind)
    let (words, c) ← readQuoted single fuel c
    return (word ++ gap ++ words, c)

/-! ## Literal and folded scalars -/

/-- What becomes of the line ends behind the last line of a block. -/
inductive Chomping where
  | strip
  | clip
  | keep
deriving DecidableEq, Repr

/-- The chomping that a sign says. -/
def Chomping.ofSign? : Char → Option Chomping
  | '-' => some .strip
  | '+' => some .keep
  | _ => none

/-- Reads a sign of chomping, which may be missing. -/
def readChomping (c : Cursor) : Option Chomping × Cursor :=
  match c.next?.bind Chomping.ofSign? with
  | some chomping => (some chomping, c.advance)
  | none => (none, c)

/-- Reads a digit that says how far a block is indented, which may be missing. Zero is refused. -/
def readIncrement (c : Cursor) : Option (Option Nat × Cursor) :=
  match c.next? with
  | some d =>
    if d = '0' then none
    else if '1' ≤ d ∧ d ≤ '9' then some (some (d.toNat - 48), c.advance)
    else some (none, c)
  | none => some (none, c)

/-- Reads the header of a block behind its mark, up to the end of the line. -/
def readBlockHeader (c : Cursor) : Option (Chomping × Option Nat × Cursor) := do
  let (before, c) := readChomping c
  let (increment, c) ← readIncrement c
  let (after, c) := if before.isSome || increment.isNone then (none, c) else readChomping c
  return ((before <|> after).getD .clip, increment, ← c.endLine?)

/-- Reads the indentation of the lines in front of the next line with text: their line ends, the
greatest column that blanks lead to, and the place behind them. Without an indent all blanks count;
with one, those in front of it. -/
def readIndentation (indent : Option Nat) :
    (fuel : Nat) → (greatest : Nat) → Cursor → Option (List Char × Nat × Cursor)
  | 0, _, _ => none
  | fuel + 1, greatest, c =>
    let c := readSpaces c c.rest
    let greatest := max greatest c.column
    if c.next? = some '\t' ∧ indent.all (c.column < ·) then none
    else
      match c.rest with
      | [] => some ([], greatest, c)
      | d :: _ =>
        if isBreak d then
          (readIndentation indent fuel greatest c.advance).map fun (ds, rest) => (d :: ds, rest)
        else some ([], greatest, c)
where
  /-- Reads spaces up to the indent. -/
  readSpaces (c : Cursor) : List Char → Cursor
  | [] => c
  | d :: rest =>
    if d = ' ' ∧ indent.all (c.column < ·) then readSpaces (c.past d rest) rest else c

/-- A line end and further line ends between two lines of a block, as text. -/
def blockGap (isLiteral blankBefore blankAfter : Bool) (first more : List Char) : List Char :=
  if !isLiteral && first = ['\n'] && !blankBefore && !blankAfter then
    if more.isEmpty then [' '] else more
  else first ++ more

/-- Reads the lines of a block at the column `indent`. `first` and `more` are the line end of the
line in front and those behind it, `blankBefore` says that the line in front starts with a blank. -/
def readBlockLines (isLiteral : Bool) (chomping : Chomping) (indent : Nat) :
    (fuel : Nat) → (blankBefore : Bool) → (first more : List Char) → Cursor →
    Option (List Char × Cursor)
  | 0, _, _, _, _ => none
  | fuel + 1, blankBefore, first, more, c =>
    if c.column = indent ∧ !c.rest.isEmpty then do
      let isBlankLine := c.next?.any isBlank
      let gap := blockGap isLiteral blankBefore isBlankLine first more
      let (line, c) := c.takeWhile fun d => !isBreak d
      let first := c.rest.take 1
      let (more, _, c) ← readIndentation (some indent) (c.rest.length + 2) 0 c.advance
      let (lines, c) ← readBlockLines isLiteral chomping indent fuel isBlankLine first more c
      return (gap ++ line ++ lines, c)
    else
      match chomping with
      | .strip => some ([], c)
      | .clip => some (first, c)
      | .keep => some (first ++ more, c)

/-- Reads a block behind its mark. Its lines stand behind the column `parent`. -/
def readBlock (isLiteral : Bool) (parent : Option Nat) (c : Cursor) :
    Option (List Char × Cursor) := do
  let (chomping, increment, c) ← readBlockHeader c
  let fuel := c.rest.length + 2
  let given := increment.map (· + parent.getD 0)
  let (more, greatest, c) ← readIndentation given fuel 0 c
  let least := max 1 ((parent.map (· + 1)).getD 0)
  readBlockLines isLiteral chomping (given.getD (max greatest least)) fuel false [] more c

end Overlay.Yaml
