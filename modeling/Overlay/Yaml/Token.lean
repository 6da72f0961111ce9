import Overlay.Yaml.Scalar

/-!
# Tokens of YAML texts

* Indentation becomes tokens that open and close block collections.
* A scalar can turn out to be a key when a colon follows it. The place where it starts is kept, and
  the tokens for the key are put there later. Such a key stands in one line and is short.
-/

namespace Overlay.Yaml

/-- A part of a text. -/
inductive Token where
  | versionDirective (major minor : Nat)
  | tagDirective (handle front : String)
  | documentStart
  | documentEnd
  | blockSequenceStart
  | blockMappingStart
  | blockEnd
  | flowSequenceStart
  | flowSequenceEnd
  | flowMappingStart
  | flowMappingEnd
  | blockEntry
  | flowEntry
  | key
  | value
  | reference (name : String)
  | anchor (name : String)
  | tag (handle suffix : String)
  | scalar (style : Style) (text : String)
deriving DecidableEq, Repr

/-! ## Names and tags -/

/-- Whether `c` can stand in the name of an anchor. -/
def isWordChar (c : Char) : Bool :=
  'a' ≤ c && c ≤ 'z' || 'A' ≤ c && c ≤ 'Z' || '0' ≤ c && c ≤ '9' || c == '_' || c == '-'

/-- Whether `c` can follow the name of an anchor without a blank. -/
def endsAnchor (c : Char) : Bool := c ∈ ['?', ':', ',', ']', '}', '%', '@', '\x60']

/-- Reads the name of an anchor. -/
def readAnchor (c : Cursor) : Option (String × Cursor) :=
  let (name, c) := c.takeWhile isWordChar
  if name.isEmpty then none
  else if startsBlank c.rest || c.next?.any endsAnchor then some (String.ofList name, c)
  else none

/-- Whether `c` can stand in a tag; between angle brackets more characters can. -/
def isTagChar (bracketed : Bool) (c : Char) : Bool :=
  isWordChar c || c ∈ [';', '/', '?', ':', '@', '&', '=', '+', '$', '.', '!', '~', '*', '\'', '(',
    ')'] || bracketed && c ∈ [',', '[', ']']

/-- Reads one character that is written as bytes in hexadecimal digits. -/
def readTagEscape (c : Cursor) : Option (List Char × Cursor) :=
  let rec bytes : (fuel : Nat) → List Char → List UInt8
    | 0, _ => []
    | fuel + 1, cs =>
      match cs with
      | '%' :: a :: b :: cs =>
        match hexValue? a, hexValue? b with
        | some a, some b => .ofNat (16 * a + b) :: bytes fuel cs
        | _, _ => []
      | _ => []
  let found := bytes 4 c.rest
  let whole := (List.range 4).findSome? fun n =>
    (String.fromUTF8? ⟨(found.take (n + 1)).toArray⟩).bind fun s =>
      if s.length = 1 then some (s.toList, c.skip (3 * (n + 1))) else none
  whole

/-- Reads the characters of a tag. -/
def readTagChars (bracketed : Bool) : (fuel : Nat) → Cursor → Option (List Char × Cursor)
  | 0, c => some ([], c)
  | fuel + 1, c =>
    match c.next? with
    | none => some ([], c)
    | some d =>
      if d = '%' then do
        let (ds, c) ← readTagEscape c
        let (rest, c) ← readTagChars bracketed fuel c
        return (ds ++ rest, c)
      else if isTagChar bracketed d then
        (readTagChars bracketed fuel c.advance).map fun (ds, c) => (d :: ds, c)
      else some ([], c)

/-- Reads the characters of a tag, of which there is at least one unless some are read already. -/
def readTagText (bracketed : Bool) (before : List Char) (c : Cursor) :
    Option (String × Cursor) := do
  let (ds, c) ← readTagChars bracketed (c.rest.length + 1) c
  if before.isEmpty && ds.isEmpty then none
  else return (String.ofList (before.drop 1 ++ ds), c)

/-- Reads an exclamation mark, a word, and another mark if there is one. -/
def readHandle (c : Cursor) : Option (List Char × Cursor) :=
  if c.next? = some '!' then
    let (word, c) := c.advance.takeWhile isWordChar
    if c.next? = some '!' then some ('!' :: word ++ ['!'], c.advance) else some ('!' :: word, c)
  else none

/-- Whether the characters are a handle between two marks. -/
def isHandle (cs : List Char) : Bool := 2 ≤ cs.length && cs.getLast? == some '!'

/-- Reads a tag. -/
def readTag (inFlow : Bool) (c : Cursor) : Option (Token × Cursor) := do
  let (token, c) ←
    if c.rest[1]? = some '<' then do
      let (suffix, c) ← readTagText true [] (c.skip 2)
      if c.next? = some '>' then some (Token.tag "" suffix, c.advance) else none
    else do
      let (handle, c) ← readHandle c
      if isHandle handle then
        let (suffix, c) ← readTagText false [] c
        pure (Token.tag (String.ofList handle) suffix, c)
      else
        let (suffix, c) ← readTagText false handle c
        pure (if suffix.isEmpty then Token.tag "" "!" else Token.tag "!" suffix, c)
  if startsBlank c.rest || inFlow && c.next? = some ',' then return (token, c) else none

/-! ## Directives -/

/-- Reads a number of at most nine digits. -/
def readVersionPart (c : Cursor) : Option (Nat × Cursor) :=
  let (ds, c) := c.takeWhile fun d => '0' ≤ d && d ≤ '9'
  if ds.isEmpty || 9 < ds.length then none
  else some (ds.foldl (fun n d => 10 * n + (d.toNat - 48)) 0, c)

/-- Reads the directive of a version behind its name. -/
def readVersion (c : Cursor) : Option (Token × Cursor) := do
  let (major, c) ← readVersionPart (c.skipWhile isBlank)
  if c.next? ≠ some '.' then none
  let (minor, c) ← readVersionPart c.advance
  return (.versionDirective major minor, c)

/-- Reads the directive of a handle behind its name. -/
def readHandleDirective (c : Cursor) : Option (Token × Cursor) := do
  let (handle, c) ← readHandle (c.skipWhile isBlank)
  if handle ≠ ['!'] ∧ !isHandle handle ∨ !c.next?.any isBlank then none
  let (front, c) ← readTagText true [] (c.skipWhile isBlank)
  if startsBlank c.rest then return (.tagDirective (String.ofList handle) front, c) else none

/-- Reads a directive and the rest of its line. -/
def readDirective (c : Cursor) : Option (Token × Cursor) := do
  let (name, c) := c.advance.takeWhile isWordChar
  if !startsBlank c.rest then none
  let (token, c) ←
    if name = ['Y', 'A', 'M', 'L'] then readVersion c
    else if name = ['T', 'A', 'G'] then readHandleDirective c
    else none
  return (token, ← c.endLine?)

/-! ## Scanning -/

/-- The start of what may turn out to be a key: how many tokens are in front of it, and its place. A
start is required where nothing but a key can stand. -/
structure KeyStart where
  number : Nat
  required : Bool
  index : Nat
  line : Nat
  column : Nat
deriving Repr

/-- A text that is partly read. -/
structure Scanner where
  cursor : Cursor
  /-- The tokens read so far, the last one in front. -/
  tokens : List Token := []
  /-- The column of the innermost block collection; none outside of all of them. -/
  indent : Option Nat := none
  /-- The columns of the block collections around that one. -/
  outer : List (Option Nat) := []
  /-- The starts of keys in the block and in every open flow collection, the innermost in front. -/
  keys : List (Option KeyStart) := [none]
  /-- Whether a key can start here. -/
  keyAllowed : Bool := true

namespace Scanner

/-- Whether a flow collection is open. -/
def inFlow (s : Scanner) : Bool := 1 < s.keys.length

/-- The scanner with one more token. -/
def push (s : Scanner) (t : Token) : Scanner := { s with tokens := t :: s.tokens }

/-- The scanner with a token put behind the first `number` ones. -/
def insert (s : Scanner) (number : Nat) (t : Token) : Scanner :=
  let behind := s.tokens.length - number
  { s with tokens := s.tokens.take behind ++ t :: s.tokens.drop behind }

/-- Whether the column is behind that of the innermost block collection. -/
def isDeeper (s : Scanner) (column : Nat) : Bool := s.indent.all (· < column)

/-- Opens a block collection at a column, unless one is open there; its token is put behind the
first `number` ones. -/
def openBlock (s : Scanner) (column number : Nat) (t : Token) : Scanner :=
  if !s.inFlow && s.isDeeper column then
    { s.insert number t with indent := some column, outer := s.indent :: s.outer }
  else s

/-- Closes the block collections, given the innermost one and those around it, whose columns are
behind `column`; without one, all of them. -/
def closeFrom (s : Scanner) (column : Option Nat) (indent : Option Nat) :
    List (Option Nat) → Scanner
  | [] => { s with indent, outer := [] }
  | next :: outer =>
    if indent.any fun i => column.all (· < i) then
      (s.push .blockEnd).closeFrom column next outer
    else { s with indent, outer := next :: outer }

/-- Closes block collections, unless a flow collection is open. -/
def closeBlocks (s : Scanner) (column : Option Nat) : Scanner :=
  if s.inFlow then s else s.closeFrom column s.indent s.outer

/-- The scanner with the start of a key in the innermost collection. -/
def setKey (s : Scanner) (k : Option KeyStart) : Scanner := { s with keys := k :: s.keys.drop 1 }

/-- The start of a key in the innermost collection. -/
def key? (s : Scanner) : Option KeyStart := s.keys.head?.join

/-- Drops the start of a key; one that is required cannot be dropped. -/
def dropKey (s : Scanner) : Option Scanner :=
  if s.key?.any KeyStart.required then none else some (s.setKey none)

/-- Keeps this place as the start of a key, if a key can start here. -/
def keepKey (s : Scanner) : Option Scanner :=
  if s.keyAllowed then do
    let c := s.cursor
    let required := !s.inFlow && s.indent = some c.column
    return (← s.dropKey).setKey (some ⟨s.tokens.length, required, c.index, c.line, c.column⟩)
  else some s

/-- A key is shorter than this. -/
def keyLimit : Nat := 1024

/-- Whether what starts at `k` can no longer be a key. -/
def isStale (s : Scanner) (k : KeyStart) : Bool :=
  k.line < s.cursor.line || k.index + keyLimit < s.cursor.index

/-- Drops all starts that are stale. -/
def dropStale (s : Scanner) : Option Scanner :=
  if s.keys.any fun k => k.any fun k => k.required && s.isStale k then none
  else some { s with keys := s.keys.map fun k => k.filter fun k => !s.isStale k }

/-- The scanner behind blanks, comments and line ends. A tab counts as a blank only where no key can
start. -/
def skipIdle (s : Scanner) : (fuel : Nat) → Scanner
  | 0 => s
  | fuel + 1 =>
    let isIdle (c : Char) : Bool := c == ' ' || c == '\t' && (s.inFlow || !s.keyAllowed)
    let c := s.cursor.skipWhile isIdle
    let c := if c.next? = some '#' then c.skipLine else c
    if c.next?.any isBreak then
      skipIdle { s with cursor := c.advance, keyAllowed := s.keyAllowed || !s.inFlow } fuel
    else { s with cursor := c }

/-! ### Tokens that are marks -/

/-- The scanner behind `count` characters, with a token for them. -/
def take (s : Scanner) (count : Nat) (t : Token) : Scanner :=
  { s.push t with cursor := s.cursor.skip count }

/-- Scans the mark that starts or ends a document. -/
def scanDocumentMark (s : Scanner) (t : Token) : Option Scanner := do
  let s ← (s.closeBlocks none).dropKey
  return { s with keyAllowed := false }.take 3 t

/-- Scans a directive. -/
def scanDirective (s : Scanner) : Option Scanner := do
  let s ← (s.closeBlocks none).dropKey
  let (t, cursor) ← readDirective s.cursor
  return { s.push t with cursor, keyAllowed := false }

/-- Scans the mark that opens a flow collection. -/
def scanFlowStart (s : Scanner) (t : Token) : Option Scanner := do
  let s ← s.keepKey
  return { s with keys := none :: s.keys, keyAllowed := true }.take 1 t

/-- Scans the mark that closes a flow collection. -/
def scanFlowEnd (s : Scanner) (t : Token) : Option Scanner := do
  let s ← s.dropKey
  let keys := if s.inFlow then s.keys.drop 1 else s.keys
  return { s with keys, keyAllowed := false }.take 1 t

/-- Scans the comma between the items of a flow collection. -/
def scanFlowEntry (s : Scanner) : Option Scanner := do
  let s ← s.dropKey
  return { s with keyAllowed := true }.take 1 .flowEntry

/-- Opens a block collection here, where an entry of it starts. -/
def startEntry (s : Scanner) (t : Token) : Option Scanner :=
  if s.inFlow then some s
  else if s.keyAllowed then some (s.openBlock s.cursor.column s.tokens.length t)
  else none

/-- Scans the mark in front of an item of a block sequence. -/
def scanBlockEntry (s : Scanner) : Option Scanner := do
  let s ← (← s.startEntry .blockSequenceStart).dropKey
  return { s with keyAllowed := true }.take 1 .blockEntry

/-- Scans the mark in front of a key. -/
def scanKey (s : Scanner) : Option Scanner := do
  let s ← (← s.startEntry .blockMappingStart).dropKey
  return { s with keyAllowed := !s.inFlow }.take 1 .key

/-- Scans the colon in front of a value. Where a key has started, its tokens are put there. -/
def scanValue (s : Scanner) : Option Scanner := do
  match s.key? with
  | some k =>
    let s := (s.insert k.number .key).openBlock k.column k.number .blockMappingStart
    return { s.setKey none with keyAllowed := false }.take 1 .value
  | none =>
    let s ← s.startEntry .blockMappingStart
    return { s with keyAllowed := !s.inFlow }.take 1 .value

/-! ### Tokens with text -/

/-- Scans a name behind its mark. -/
def scanName (s : Scanner) (token : String → Token) : Option Scanner := do
  let s ← s.keepKey
  let (name, cursor) ← readAnchor s.cursor.advance
  return { s.push (token name) with cursor, keyAllowed := false }

/-- Scans a tag. -/
def scanTag (s : Scanner) : Option Scanner := do
  let s ← s.keepKey
  let (t, cursor) ← readTag s.inFlow s.cursor
  return { s.push t with cursor, keyAllowed := false }

/-- Scans a literal or folded scalar. -/
def scanBlock (s : Scanner) (style : Style) : Option Scanner := do
  let s ← s.dropKey
  let (text, cursor) ← readBlock (style = .literal) s.indent s.cursor.advance
  return { s.push (.scalar style (String.ofList text)) with cursor, keyAllowed := true }

/-- Scans a quoted scalar. -/
def scanQuoted (s : Scanner) (single : Bool) : Option Scanner := do
  let s ← s.keepKey
  let c := s.cursor.advance
  let (text, cursor) ← readQuoted single (c.rest.length + 1) c
  return { s.push (.scalar .quoted (String.ofList text)) with cursor, keyAllowed := false }

/-- Scans a plain scalar. A key can start behind it if line ends follow it. -/
def scanPlain (s : Scanner) : Option Scanner := do
  let s ← s.keepKey
  let indent := (s.indent.map (· + 1)).getD 0
  let x ← readPlain s.inFlow indent (s.cursor.rest.length + 1) ⟨[], false, s.cursor⟩
  return { s.push (.scalar .plain (String.ofList x.text)) with
    cursor := x.behind
    keyAllowed := x.endsLine }

/-- Whether a plain scalar can start with `c` and what follows it. -/
def startsPlain (inFlow : Bool) (c : Char) (rest : List Char) : Bool :=
  if c = '-' then !rest.head?.any isBlank
  else if c = '?' ∨ c = ':' then !inFlow && !startsBlank rest
  else
    !(isBlank c || isBreak c) && c ∉ [',', '[', ']', '{', '}', '#', '&', '*', '!', '|', '>', '\'',
      '"', '%', '@', '\x60']

/-! ### All tokens -/

/-- Scans the token that starts with `c`. -/
def scanFrom (s : Scanner) (c : Char) (rest : List Char) : Option Scanner :=
  let markAlone := s.inFlow || startsBlank rest
  if s.cursor.column = 0 ∧ c = '%' then s.scanDirective
  else if s.cursor.atMark '-' then s.scanDocumentMark .documentStart
  else if s.cursor.atMark '.' then s.scanDocumentMark .documentEnd
  else if c = '[' then s.scanFlowStart .flowSequenceStart
  else if c = '{' then s.scanFlowStart .flowMappingStart
  else if c = ']' then s.scanFlowEnd .flowSequenceEnd
  else if c = '}' then s.scanFlowEnd .flowMappingEnd
  else if c = ',' then s.scanFlowEntry
  else if c = '-' ∧ startsBlank rest then s.scanBlockEntry
  else if c = '?' ∧ markAlone then s.scanKey
  else if c = ':' ∧ markAlone then s.scanValue
  else if c = '*' then s.scanName .reference
  else if c = '&' then s.scanName .anchor
  else if c = '!' then s.scanTag
  else if c = '|' ∧ !s.inFlow then s.scanBlock .literal
  else if c = '>' ∧ !s.inFlow then s.scanBlock .folded
  else if c = '\'' then s.scanQuoted true
  else if c = '"' then s.scanQuoted false
  else if startsPlain s.inFlow c rest then s.scanPlain
  else none

/-- Ends the text. -/
def finish (s : Scanner) : Option Scanner := (s.closeBlocks none).dropKey

/-- Scans all tokens. -/
def scanAll : (fuel : Nat) → Scanner → Option Scanner
  | 0, _ => none
  | fuel + 1, s => do
    let s ← (s.skipIdle (s.cursor.rest.length + 1)).dropStale
    let s := s.closeBlocks (some s.cursor.column)
    match s.cursor.rest with
    | [] => s.finish
    | c :: rest => scanAll fuel (← s.scanFrom c rest)

end Scanner

/-- The text without a byte order mark at its front. -/
def withoutMark : List Char → List Char
  | '\uFEFF' :: cs => cs
  | cs => cs

/-- The tokens of a text. -/
def tokens? (text : String) : Option (List Token) := do
  let cs ← plainBreaks (withoutMark text.toList)
  let s ← Scanner.scanAll (cs.length + 1) { cursor := .ofChars cs }
  return s.tokens.reverse

end Overlay.Yaml
