import Overlay.Text.Position
import Overlay.Text.Bytes

/-!
# Positions by a table of line starts

`LineIndex` keeps where each line of a text starts and finds the line of an offset by bisection.
It answers what `Pos.ofOffset` answers by walking.
-/

namespace Overlay

/-- The least index in `[low, high]` from which on the test `below` fails, by bisection. It is the
border when `below` holds up to one place and fails from there on. -/
def bisect (below : Nat → Bool) (low high : Nat) : Nat :=
  if h : low < high then
    let middle := (low + high) / 2
    if below middle then bisect below (middle + 1) high else bisect below low middle
  else low
termination_by high - low

/-- A text with the byte offsets at which its lines start. -/
structure LineIndex where
  text : List Char
  lineStarts : Array Nat
deriving Repr

namespace LineIndex

/-- The offsets behind the line ends of `cs`, the first character of which stands at `offset`. -/
def startsBehind (offset : Nat) : List Char → List Nat
  | [] => []
  | c :: cs =>
    let next := offset + c.utf8Size
    if c = '\n' then next :: startsBehind next cs else startsBehind next cs

/-- The index of a text. -/
def ofText (text : String) : LineIndex :=
  ⟨text.toList, (0 :: startsBehind 0 text.toList).toArray⟩

/-- The place of the byte `offset`, moved back to the nearest place between two characters. -/
def pos (index : LineIndex) (offset : Nat) : Pos :=
  let offset := Text.floorBoundary index.text offset
  let line := bisect (fun i => index.lineStarts.getD i 0 ≤ offset) 0 index.lineStarts.size
  let lineStart := index.lineStarts.getD (line - 1) 0
  let before := Text.takeBytes index.text offset
  let column := (before.drop (Text.takeBytes index.text lineStart).length).length + 1
  ⟨line, column, offset⟩

end LineIndex

/-- The text of a range in `text`, if its ends lie between characters of `text`, in this order. -/
def SourceRange.slice? (r : SourceRange) (text : String) : Option String :=
  (Text.sliceBytes? text.toList r.start.byte r.stop.byte).map String.ofList

end Overlay
