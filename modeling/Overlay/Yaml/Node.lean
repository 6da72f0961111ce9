import Overlay.Json.Basic
import Overlay.Numeric.FloatText
import Overlay.Yaml.Scalar

/-!
# Nodes of YAML documents

* A `Node` is a scalar, a sequence or a mapping, with its tag. Aliases are replaced by what they
  stand for.
* A plain scalar is null, a boolean or a number if it looks like one; any other scalar is a text. A
  tag of the core schema asks for one of these.
* `Node.toJson?` refuses nodes with tags of their own and mappings whose keys are no scalars.
-/

namespace Overlay.Yaml

open Numeric (Binary64)

/-- A part of a document. -/
inductive Node where
  | scalar (tag : Option String) (style : Style) (text : String)
  | sequence (tag : Option String) (items : List Node)
  | mapping (tag : Option String) (entries : List (Node × Node))
deriving Inhabited

/-! ## What plain scalars look like -/

namespace Plain

/-- Whether a text is a word for no value. -/
def isNull (s : String) : Bool := s ∈ ["null", "Null", "NULL", "~"]

/-- The boolean that a text is a word for. -/
def bool? (s : String) : Option Bool :=
  if s ∈ ["true", "True", "TRUE"] then some true
  else if s ∈ ["false", "False", "FALSE"] then some false
  else none

/-- The text behind a plus sign. -/
def withoutPlus : List Char → List Char
  | '+' :: cs => cs
  | cs => cs

/-- Whether a text is a zero with more digits behind it, which is no number. -/
def hasIdleZero (cs : List Char) : Bool :=
  match (Binary64.splitSign cs).2 with
  | '0' :: d :: ds => (d :: ds).all Numeric.isDigit
  | _ => false

/-- The value of a digit in some base up to sixteen. -/
def digit? (base : Nat) (c : Char) : Option Nat := (hexValue? c).filter (· < base)

/-- The number that digits write in a base; there is at least one. -/
def natural? (base : Nat) (cs : List Char) : Option Nat :=
  if cs.isEmpty then none
  else (cs.mapM (digit? base)).map fun ds => ds.foldl (fun n d => base * n + d) 0

/-- The base that a mark in front of digits says, and the digits. -/
def splitBase : List Char → Nat × List Char
  | '0' :: 'x' :: cs => (16, cs)
  | '0' :: 'o' :: cs => (8, cs)
  | '0' :: 'b' :: cs => (2, cs)
  | cs => (10, cs)

/-- The integer that a text writes, with or without a sign and in one of four bases. -/
def integer? (cs : List Char) : Option Int :=
  if hasIdleZero cs then none
  else
    let (negative, cs) := Binary64.splitSign cs
    let (base, digits) := splitBase cs
    (natural? base digits).map fun n => if negative then -(n : Int) else n

/-- Whether an integer fits in 64 bits, with or without a sign. -/
def fits (n : Int) : Bool := Numeric.leastInt64 ≤ n && n < Nat.pow 2 64

/-- Whether an integer fits in 128 bits, with or without a sign. -/
def isLong (n : Int) : Bool := -(Nat.pow 2 127 : Int) ≤ n && n < Nat.pow 2 128

/-- The floating-point number that a text writes; numbers that are too great are none. -/
def float? (cs : List Char) : Option Binary64 :=
  let unsigned := withoutPlus cs
  if unsigned ∈ [".inf".toList, ".Inf".toList, ".INF".toList] then some (.infinity false)
  else if cs ∈ ["-.inf".toList, "-.Inf".toList, "-.INF".toList] then some (.infinity true)
  else if cs ∈ [".nan".toList, ".NaN".toList, ".NAN".toList] then
    some (.ofMagnitude false (Binary64.infinityBits + 1))
  else (Binary64.parse? cs).filter fun x => !x.isInfinite

/-- The document of a floating-point number; what is not finite is `null`. -/
def floatJson (x : Binary64) : Json := if x.isInfinite || x.isNaN then .null else .float x

/-- The document of an integer that fits in 64 bits. -/
def integerJson? (n : Int) : Option Json := if fits n then some (.integer n) else none

/-- The document of a plain scalar. Integers that fit in 128 bits, but not in 64, have none. -/
def json? (s : String) : Option Json :=
  let cs := s.toList
  if cs.isEmpty || isNull s then some .null
  else
    match bool? s with
    | some b => some (.bool b)
    | none =>
      match (integer? cs).filter isLong with
      | some n => integerJson? n
      | none =>
        if hasIdleZero cs then some (.string s)
        else some (((float? cs).map floatJson).getD (.string s))

end Plain

/-! ## Tags -/

/-- A tag of the core schema. -/
def coreTag (name : String) : String := "tag:yaml.org,2002:" ++ name

/-- The name in a tag of one's own. -/
def ownTag? : Option String → Option String
  | some tag =>
    match tag.toList with
    | ['!'] => some "!"
    | '!' :: cs => some (String.ofList cs)
    | _ => none
  | none => none

/-- The document of a scalar with a tag of the core schema, or with some other tag. -/
def taggedJson? (tag text : String) : Option Json :=
  let cs := text.toList
  if tag = coreTag "bool" then (Plain.bool? text).map .bool
  else if tag = coreTag "int" then ((Plain.integer? cs).filter Plain.isLong).bind Plain.integerJson?
  else if tag = coreTag "float" then (Plain.float? cs).map Plain.floatJson
  else if tag = coreTag "null" then if Plain.isNull text then some .null else none
  else some (.string text)

namespace Node

/-! ## Parts of a known form -/

/-- The text of a scalar. -/
def text? : Node → Option String
  | scalar _ _ text => some text
  | _ => none

/-- Whether a node is a plain scalar without text. -/
def isEmpty : Node → Bool
  | scalar _ .plain text => text.isEmpty
  | _ => false

/-- The boolean that a scalar is; only plain ones are looked at, and literal ones with the tag of
booleans. -/
def bool? : Node → Option Bool
  | scalar _ .plain text => Plain.bool? text
  | scalar tag .literal text => if tag = some (coreTag "bool") then Plain.bool? text else none
  | _ => none

/-- The name of a choice: a tag of one's own on no value, or the text of a scalar. -/
def choice? : Node → Option String
  | scalar tag style text =>
    match ownTag? tag with
    | none => some text
    | some name =>
      if style = .plain ∧ (text.isEmpty || Plain.isNull text) then some name else none
  | _ => none

/-- The items of a sequence; an empty scalar has none. -/
def items? (n : Node) : Option (List Node) :=
  match n with
  | sequence _ items => some items
  | n => if n.isEmpty then some [] else none

/-- The entries of a mapping; an empty scalar has none. -/
def entries? (n : Node) : Option (List (Node × Node)) :=
  match n with
  | mapping _ entries => some entries
  | n => if n.isEmpty then some [] else none

/-! ## Documents -/

/-- The node as a document; of entries with one key the last one counts. -/
def toJson? : Node → Option Json
  | scalar tag style text =>
    if (ownTag? tag).isSome then none
    else
      match tag with
      | some tag => taggedJson? tag text
      | none => if style = .plain then Plain.json? text else some (.string text)
  | sequence tag items =>
    if (ownTag? tag).isSome then none else (itemsToJson? items).map .array
  | mapping tag entries =>
    if (ownTag? tag).isSome then none
    else (entriesToJson? entries).map fun pairs => .object (Dict.ofPairs pairs)
where
  /-- The items as documents. -/
  itemsToJson? : List Node → Option (List Json)
  | [] => some []
  | n :: ns => do
    let x ← n.toJson?
    return x :: (← itemsToJson? ns)
  /-- The entries as members. -/
  entriesToJson? : List (Node × Node) → Option (List (String × Json))
  | [] => some []
  | (key, n) :: rest => do
    let name ← key.text?
    let x ← n.toJson?
    return (name, x) :: (← entriesToJson? rest)

end Node

end Overlay.Yaml
