import Overlay.Json.Basic
import Overlay.Value.Basic

/-!
# Values from JSON documents

Arrays become tuples and objects become objects; a declared type decides later which collection is
meant. A number is the one that its text writes.
-/

namespace Overlay.Value

open Numeric (Number Layout)

/-- The number with a text, `null` if the text writes none. -/
def ofNumberText (text : String) : Value := ((Number.parse? text).map number).getD null

/-- The value of a JSON document. -/
def ofJson : Json → Value
  | .null => null
  | .bool b => bool b
  | .integer n => ofNumberText (toString n)
  | .float x => ofNumberText (Layout.json.render x)
  | .string s => string s
  | .array items => tuple (ofItems items)
  | .object members => object (ofMembers members)
where
  /-- The values of the items. -/
  ofItems : List Json → List Value
  | [] => []
  | x :: xs => ofJson x :: ofItems xs
  /-- The values of the members. -/
  ofMembers : List (String × Json) → List (String × Value)
  | [] => []
  | (k, x) :: xs => (k, ofJson x) :: ofMembers xs

end Overlay.Value
