import Overlay.Toml.Reader

/-!
# Tables that stand for dates

A date is handed on as a table with its text under `dateTimeName`. So any table whose first key is
this name stands for a date: the text has to be one, and the other members do not count. Only the
table of a whole document is no date.
-/

namespace Overlay.Toml

/-- The document of the date or time that a string is. -/
def date? (text : String) : Option Json :=
  match readDateTime .quoted text.toList with
  | some (date, []) => some (.object [(dateTimeName, .string date)])
  | _ => none

/-- What stands under `dateTimeName`, if it is the first key. -/
def marked? : List (String × Json) → Option Json
  | [] => none
  | (key, x) :: _ => if key = dateTimeName then some x else none

/-- A document with the dates that its tables stand for. -/
def withDates? : Json → Option Json
  | .array items => (itemsWithDates? items).map .array
  | .object members =>
    match marked? members with
    | some (.string text) => date? text
    | some _ => none
    | none => (membersWithDates? members).map .object
  | x => some x
where
  /-- The items of an array with dates. -/
  itemsWithDates? : List Json → Option (List Json)
  | [] => some []
  | x :: xs => do return (← withDates? x) :: (← itemsWithDates? xs)
  /-- The members of a table with dates. -/
  membersWithDates? : List (String × Json) → Option (List (String × Json))
  | [] => some []
  | (key, x) :: rest => do return (key, ← withDates? x) :: (← membersWithDates? rest)

/-- The document that a text is, with dates. -/
def parseDated? (text : String) : Option Json := do
  let t ← readTable? text
  return .object (← withDates?.membersWithDates? (Item.toJson.membersToJson t.members))

end Overlay.Toml
