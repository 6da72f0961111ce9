/-!
# Positions and ranges in a source text

* `Pos` is a place in a text: a line and a column that count from one, the column in
  characters, and a byte offset that counts from zero.
* `Pos.advance` moves over one character; every other position is made by walking the text
  with it (`ofOffset`, `ofLineColumn`, `endOf`).
* `Span` is a pair of positions of one text, `SourceRange` a span in a named text.
-/

namespace Overlay

/-! ## Positions -/

/-- A place in a text. Its order is by line, then column, then byte. -/
structure Pos where
  line : Nat
  column : Nat
  byte : Nat
deriving DecidableEq, Repr

namespace Pos

/-- The place in front of the first character of any text. -/
def start : Pos := ⟨1, 1, 0⟩

instance : Inhabited Pos := ⟨start⟩

/-- The place right behind the character `c` that stands at `p`. -/
def advance (p : Pos) (c : Char) : Pos :=
  if c = '\n' then ⟨p.line + 1, 1, p.byte + 1⟩
  else ⟨p.line, p.column + 1, p.byte + c.utf8Size⟩

/-- The place right behind the characters `cs`, the first of which stands at `p`. -/
def advanceAll (p : Pos) (cs : List Char) : Pos := cs.foldl advance p

@[simp] theorem advanceAll_nil (p : Pos) : p.advanceAll [] = p := rfl

@[simp] theorem advanceAll_cons (p : Pos) (c : Char) (cs : List Char) :
    p.advanceAll (c :: cs) = (p.advance c).advanceAll cs := rfl

theorem advanceAll_append (p : Pos) (xs ys : List Char) :
    p.advanceAll (xs ++ ys) = (p.advanceAll xs).advanceAll ys := List.foldl_append

/-- Walks while a whole character still ends at or before the byte `offset`. -/
def walkToOffset (p : Pos) (offset : Nat) : List Char → Pos
  | [] => p
  | c :: cs => if offset < p.byte + c.utf8Size then p else (p.advance c).walkToOffset offset cs

/-- The place of the byte `offset` in `text`. An offset inside a character stands for the place
in front of that character, an offset past the end for the end. -/
def ofOffset (text : String) (offset : Nat) : Pos := start.walkToOffset offset text.toList

/-- Walks to a line, and on it to a column or to the end of the line. -/
def walkToLineColumn (p : Pos) (line column : Nat) : List Char → Pos
  | [] => p
  | c :: cs =>
    if line < p.line ∨ p.line = line ∧ (column ≤ p.column ∨ c = '\n') then p
    else (p.advance c).walkToLineColumn line column cs

/-- The place of a line and a column in `text`; a column past the end of its line stands for that
end, a line past the last one for the end of the text. -/
def ofLineColumn (text : String) (line column : Nat) : Pos :=
  start.walkToLineColumn line column text.toList

/-- The place behind the last character of `text`. -/
def endOf (text : String) : Pos := start.advanceAll text.toList

/-- Compares by line, then column, then byte. -/
protected def compare (a b : Pos) : Ordering :=
  (compare a.line b.line).then ((compare a.column b.column).then (compare a.byte b.byte))

instance : Ord Pos := ⟨Pos.compare⟩

/-- The later of two places. -/
def latest (a b : Pos) : Pos := if a.compare b = .gt then a else b

end Pos

/-! ## Spans and ranges -/

/-- Two places of one text: the first character of a stretch and the one behind its last. -/
structure Span where
  start : Pos
  stop : Pos
deriving DecidableEq, Repr, Inhabited

namespace Span

/-- The empty span at a place. -/
def point (p : Pos) : Span := ⟨p, p⟩

/-- From the start of one span to the end of another. -/
def upTo (a b : Span) : Span := ⟨a.start, b.stop⟩

end Span

/-- A span in the text named `filename`. -/
structure SourceRange where
  filename : String
  start : Pos
  stop : Pos
deriving DecidableEq, Repr, Inhabited

/-- The range that a span has in the text named `filename`. -/
def Span.within (s : Span) (filename : String) : SourceRange := ⟨filename, s.start, s.stop⟩

namespace SourceRange

/-- The empty range at a place. -/
def point (filename : String) (p : Pos) : SourceRange := ⟨filename, p, p⟩

/-- The range of all of `text`. -/
def whole (filename text : String) : SourceRange := ⟨filename, .start, .endOf text⟩

/-- From the start of one range to the end of another, in the first one's text. -/
def upTo (a b : SourceRange) : SourceRange := ⟨a.filename, a.start, b.stop⟩

/-- How many bytes the range covers; a range whose ends are swapped covers none. -/
def length (r : SourceRange) : Nat := r.stop.byte - r.start.byte

/-- Whether the range covers no byte. -/
def isEmpty (r : SourceRange) : Bool := r.length == 0

/-- The text of the range: file, first line and column, and the end, whose line is left out where
it is the first line. -/
def render (r : SourceRange) : String :=
  let first := s!"{r.filename}:{r.start.line},{r.start.column}-"
  if r.start.line = r.stop.line then s!"{first}{r.stop.column}"
  else s!"{first}{r.stop.line},{r.stop.column}"

end SourceRange

end Overlay
