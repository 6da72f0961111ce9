import Overlay.Hcl.Body

/-!
# Containers

An override file is a list of assignments whose keys may be dotted, which attribute names may not.

* `Wrapped` puts such a text into one attribute whose value is an object, and maps positions of the
  wrapped text back: those in front to the start, those behind to the end.
* `Container.parse` reads a wrapped text. Its entries follow the rules of a body's attributes, and
  the last closing brace of the text counts as the end, whatever is open before it.
-/

namespace Overlay.Hcl

/-! ## Wrapping -/

/-- The name of the attribute around an override text. -/
def wrapperName : String := "__overrides__"

/-- What stands in front of a wrapped text. -/
def wrapperFront : String := "__overrides__ = \x7b\n"

/-- What stands behind a wrapped text. -/
def wrapperBack : String := "\n\x7d\n"

/-- A text that is put into a container. -/
structure Wrapped where
  content : String
deriving DecidableEq, Repr

namespace Wrapped

/-- The text with the container around it. -/
def text (w : Wrapped) : String := wrapperFront ++ w.content ++ wrapperBack

/-- How many bytes stand in front of the content. -/
def frontLength : Nat := wrapperFront.utf8ByteSize

/-- The place in the content that a place in the wrapped text stands for. -/
def unwrapPos (w : Wrapped) (p : Pos) : Pos :=
  if p.line ≤ 1 ∨ p.byte < frontLength then .start
  else if w.content.utf8ByteSize < p.byte - frontLength then .endOf w.content
  else ⟨p.line - 1, p.column, p.byte - frontLength⟩

/-- The range in the content that a range in the wrapped text stands for. One that starts in
front of the content is the point at its start. -/
def unwrapRange (w : Wrapped) (r : SourceRange) : SourceRange :=
  if r.start.line ≤ 1 ∨ r.start.byte < frontLength then .point r.filename .start
  else
    let start := w.unwrapPos r.start
    ⟨r.filename, start, Pos.latest (w.unwrapPos r.stop) start⟩

/-- The diagnostics with ranges in the content. -/
def unwrapDiagnostics (w : Wrapped) (ds : Diagnostics) : Diagnostics := ds.mapRanges w.unwrapRange

end Wrapped

/-! ## Reading containers -/

namespace Parser

/-- The assignments of a container, each ended like an attribute. -/
def assignments : (depth : Nat) → Parser (List Entry)
  | 0 => exhausted []
  | depth + 1 => do
    newlines
    match ← peekKind with
    | none => return []
    | some k =>
      if startsKey k then
        let key ← entryKey
        if ← mark .equals then
          let entry := Entry.mk key (← expression)
          endOfItem
          return entry :: (← assignments depth)
        else
          report .missingKeyValueSeparator
          move Cursor.recoverLine
          assignments depth
      -- The brace in front of which the container ends is cut off, so this one closes nothing.
      else if k = .mark .closeBrace then
        report .unexpectedClosingBrace
        advance
        assignments depth
      else
        report .definitionRequired
        move Cursor.recoverLine
        assignments depth

/-- The name, the equals sign and the opening brace of a container; its name's span and the start of
its object. -/
def containerHeader : Parser (Option (Span × Pos)) := do
  newlines
  match ← peek with
  | some ⟨.ident name, span⟩ =>
    if name = wrapperName then
      advance
      if ← mark .equals then
        let opener ← lookahead
        if ← mark .openBrace then return some (span, opener.start)
        else return none
      else return none
    else return none
  | _ => return none

end Parser

/-- The tokens of a container in front of its last closing brace, and that brace with the line ends
behind it; all tokens and nothing, where the last token that is no line end is no closing brace. -/
def splitContainer (tokens : List Token) : List Token × List Token :=
  let reversed := tokens.reverse
  let lineEnds := reversed.takeWhile fun t => t.kind.isNewline
  match reversed.dropWhile fun t => t.kind.isNewline with
  | t :: front =>
    if t.kind = .mark .closeBrace then (front.reverse, t :: lineEnds.reverse) else (tokens, [])
  | [] => (tokens, [])

/-- The frame of the tokens in front of a container's last closing brace. One line end in front of
that brace is called the end of the file too. -/
def Frame.ofContainer (text : String) (front back : List Token) : Frame :=
  match back, front.getLast? with
  | [], _ => .ofText text
  | brace :: _, some t =>
    ⟨brace.span, if t.kind.isNewline then t.span.start.byte else brace.span.start.byte⟩
  | brace :: _, none => ⟨brace.span, brace.span.start.byte⟩

/-- A container: the span of its name, its entries, the span of its object, and its whole span. -/
structure Container where
  nameSpan : Span
  entries : List Entry
  objectSpan : Span
  span : Span

namespace Container

/-- The container as a body with one attribute. -/
def toBody (c : Container) : Body :=
  ⟨[.attr ⟨wrapperName, c.nameSpan, .object c.entries c.objectSpan⟩], c.span⟩

/-- The container that the tokens of a text make, if they start like one, and the faults. -/
def ofTokens (text : String) (tokens : List Token) :
    Option Container × List (Located SyntaxFault) :=
  let (front, back) := splitContainer tokens
  let frame := Frame.ofContainer text front back
  let header := Parser.containerHeader frame (.ofTokens .start front)
  match header.value with
  | none =>
    let fault := (do Parser.report (.unexpected (← Parser.found)) : Parser Unit) frame header.next
    (none, fault.faults)
  | some (nameSpan, opener) =>
    let x := Parser.assignments (header.next.rest.length + 1) frame header.next
    let stop := match back with
      | brace :: _ => brace.span.stop
      | [] => x.next.last
    let first := (tokens.head?.map (·.span.start)).getD .start
    let last := (tokens.getLast?.map (·.span.stop)).getD .start
    (some ⟨nameSpan, x.value, ⟨opener, stop⟩, ⟨first, last⟩⟩, x.faults)

/-- Reads a text as a container; there is none if the text does not start like one. -/
def parse (text filename : String) : Reading (Option Container) :=
  let ts := Tokens.ofText text
  let (container, faults) := ofTokens text ts.tokens
  ⟨container, ts.diagnostics filename ++ faults.map (Located.syntaxDiagnostic filename)⟩

/-- The body of a container that was read; all of the text without items if there is none. -/
def bodyOf (text : String) (container : Option Container) : Body :=
  match container with
  | some c => c.toBody
  | none => ⟨[], ⟨.start, .endOf text⟩⟩

end Container

end Overlay.Hcl
