/-!
# Cutting text at characters
-/

namespace Overlay.Text

/-- The stretches between the characters `separator`; there is always at least one. -/
def splitAtChar (separator : Char) : List Char → List (List Char)
  | [] => [[]]
  | c :: cs =>
    if c = separator then [] :: splitAtChar separator cs
    else
      match splitAtChar separator cs with
      | [] => [[c]]
      | first :: rest => (c :: first) :: rest

/-- The parts of a dotted text. -/
def splitDots (s : String) : List String := (splitAtChar '.' s.toList).map String.ofList

/-- The parts with dots between them. -/
def joinDots (parts : List String) : String := ".".intercalate parts

/-- The lines of a text. A line end belongs to its line, and so does a carriage return in front of
it; behind the last line end there is a line only if there is text. -/
def lines (s : String) : List String :=
  let pieces := splitAtChar '\n' s.toList
  let closed := pieces.dropLast.map fun line =>
    if line.getLast? = some '\r' then line.dropLast else line
  let last := match pieces.getLast? with
    | some (c :: cs) => [c :: cs]
    | _ => []
  (closed ++ last).map String.ofList

end Overlay.Text
