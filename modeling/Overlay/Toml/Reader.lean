import Overlay.Json.Reader
import Overlay.Toml.Scalar
import Overlay.Toml.Table

/-!
# Reading TOML

`Toml.readTable?` reads a text of TOML version 1.0 as a table, `Toml.parse?` as a document. Arrays
and inline tables nest less deep than `nestingLimit`.
-/

namespace Overlay.Toml

/-! ## Values -/

/-- A reader of a value: the value and what follows it. -/
abbrev ValueReader := List Char → Option (Json × List Char)

/-- Reads the items of an array behind its bracket or behind a comma, and its end. -/
def readItems (value : ValueReader) : (fuel : Nat) → List Char → Option (List Json × List Char)
  | 0, _ => none
  | fuel + 1, cs =>
    match skipLines false cs with
    | ']' :: cs => some ([], cs)
    | cs => do
      let (x, cs) ← value cs
      match skipLines false cs with
      | ']' :: cs => return ([x], cs)
      | ',' :: cs =>
        let (xs, cs) ← readItems value fuel cs
        return (x :: xs, cs)
      | _ => none

/-- Reads a key, an equals sign and a value. -/
def readAssignment (value : ValueReader) (cs : List Char) :
    Option ((List String × Json) × List Char) := do
  let (path, cs) ← readKey? cs
  let cs ← readMark '=' cs
  let (x, cs) ← value (skipBlanks cs)
  return ((path, x), cs)

/-- Reads the assignments of an inline table up to its end. -/
def readInlineMembers (value : ValueReader) :
    (fuel : Nat) → Table → List Char → Option (Table × List Char)
  | 0, _, _ => none
  | fuel + 1, t, cs => do
    let ((path, x), cs) ← readAssignment value cs
    let t ← t.assign path x
    match skipBlanks cs with
    | '}' :: cs => return (t, cs)
    | ',' :: cs => readInlineMembers value fuel t cs
    | _ => none

/-- Reads an inline table behind its brace. -/
def readInlineTable (value : ValueReader) (cs : List Char) : Option (Json × List Char) :=
  match skipBlanks cs with
  | '}' :: cs => some (.object [], cs)
  | cs => (readInlineMembers value cs.length .root cs).map fun (t, cs) => (t.toJson, cs)

/-- Arrays and inline tables nest less deep than this. -/
def nestingLimit : Nat := 80

/-- Reads a value; arrays and inline tables nest in it less deep than `room`. -/
def readValue : (room : Nat) → ValueReader
  | 0, _ => none
  | room + 1, cs =>
    match cs with
    | '[' :: cs =>
      if room = 0 then none
      else (readItems (readValue room) (cs.length + 1) cs).map fun (xs, cs) => (.array xs, cs)
    | '{' :: cs => if room = 0 then none else readInlineTable (readValue room) cs
    | cs => readScalar cs

/-! ## Documents -/

/-- A document that is partly read: its tables, and the path of the header that counts. -/
structure Draft where
  root : Table := .root
  path : List String := []

/-- Reads a header behind its first bracket and opens its table. -/
def readHeader (d : Draft) (cs : List Char) : Option (Draft × List Char) := do
  let isArray := cs.head? = some '['
  let (path, cs) ← readKey? (if isArray then cs.drop 1 else cs)
  let cs ← readMark ']' cs
  let cs ← if isArray then readMark ']' cs else some cs
  return (⟨← d.root.openTable isArray path, path⟩, cs)

/-- Changes the table that headers lead to. -/
def atHeader (path : List String) (change : Table → Option Table) (t : Table) : Option Table :=
  Table.descend false change path t

/-- Reads an assignment into the table of the last header. -/
def readMember (d : Draft) (cs : List Char) : Option (Draft × List Char) := do
  let ((path, x), cs) ← readAssignment (readValue nestingLimit) cs
  return ({ d with root := ← atHeader d.path (Table.assign path x) d.root }, cs)

/-- Reads the lines of a document. -/
def readLines : (fuel : Nat) → Draft → List Char → Option Draft
  | 0, _, _ => none
  | fuel + 1, d, cs =>
    match skipBlanks cs with
    | [] => some d
    | c :: cs => do
      let (d, rest) ←
        if c = '[' then readHeader d cs
        else if c = '#' ∨ c = '\n' ∨ c = '\r' then some (d, c :: cs)
        else readMember d (c :: cs)
      readLines fuel d (← restOfLine? rest)

/-- The text without a byte order mark at its front. -/
def withoutMark : List Char → List Char
  | '\uFEFF' :: cs => cs
  | cs => cs

/-- The table that a text is. -/
def readTable? (text : String) : Option Table := do
  let cs := withoutMark text.toList
  return (← readLines (cs.length + 1) {} cs).root

/-- The document that a text is. -/
def parse? (text : String) : Option Json := (readTable? text).map fun t => t.toJson.collapse

end Overlay.Toml
