import Overlay.Json.Reader
import Overlay.Text.Inspect

/-!
# Reading JSON of a known form

Readers for the parts of a document whose form is known. A part of another form is refused with what
was found and what was expected; a scalar is read before it is refused.
-/

namespace Overlay.Json

/-- Reads a part of a document; in it, arrays and objects nest less deep than `room`. -/
abbrev PartReader (α : Type) := (room : Nat) → Scan → Except ReadError (α × Scan)

/-! ## Parts of another form -/

/-- Refuses what was found. -/
def mismatch (found expected : String) (s : Scan) : Except ReadError α :=
  s.fail (.mismatch s!"invalid type: {found}, expected {expected}")

/-- What messages call a number. -/
def describeNumber : Json → String
  | integer n => s!"integer `{n}`"
  | x => s!"floating point `{x.render}`"

/-- Refuses the part that starts with the next character. -/
def refusePart (expected : String) (s : Scan) : Except ReadError α :=
  match s.rest with
  | [] => s.failNext .endInValue
  | c :: _ =>
    match c with
    | 'n' => do mismatch "null" expected (← readName s.advance ['u', 'l', 'l'])
    | 't' => do mismatch "boolean `true`" expected (← readName s.advance ['r', 'u', 'e'])
    | 'f' => do mismatch "boolean `false`" expected (← readName s.advance ['a', 'l', 's', 'e'])
    | '"' => do
      let (text, s) ← readText s.advance
      mismatch s!"string {Text.inspect text}" expected s
    | '[' => mismatch "sequence" expected s
    | '{' => mismatch "map" expected s
    | '-' => do
      let (n, s) ← readNumber s.advance true
      mismatch (describeNumber n) expected s
    | _ =>
      if isDigit c then do
        let (n, s) ← readNumber s false
        mismatch (describeNumber n) expected s
      else s.failNext .expectedValue

/-! ## Scalars -/

/-- Reads `null`. -/
def readNullPart : PartReader Unit := fun _ s =>
  let s := s.skipBlanks
  match s.rest with
  | 'n' :: _ => (readName s.advance ['u', 'l', 'l']).map ((), ·)
  | _ => refusePart "unit" s

/-- Reads a boolean. -/
def readBoolPart : PartReader Bool := fun _ s =>
  let s := s.skipBlanks
  match s.rest with
  | 't' :: _ => (readName s.advance ['r', 'u', 'e']).map (true, ·)
  | 'f' :: _ => (readName s.advance ['a', 'l', 's', 'e']).map (false, ·)
  | _ => refusePart "a boolean" s

/-- Reads a string, which messages call `expected`. -/
def readTextPart (expected : String) : PartReader String := fun _ s =>
  let s := s.skipBlanks
  match s.rest with
  | '"' :: _ => readText s.advance
  | _ => refusePart expected s

/-- Reads any document and puts its members in order. -/
def readAnyPart : PartReader Json := fun room s => do
  let (x, s) ← readValue (2 * s.rest.length + 2) room s
  return (x.collapse, s)

/-! ## Collections -/

/-- Opens an array or an object in front of which the text stands. -/
def openPart (room : Nat) (s : Scan) : Except ReadError Scan :=
  if room ≤ 1 then s.failNext .tooDeep else .ok s.advance

/-- Reads the items of an array and its end. -/
def readItemParts (item : PartReader α) :
    (fuel : Nat) → (first : Bool) → PartReader (List α)
  | 0, _, _, s => s.fail .tooDeep
  | fuel + 1, first, room, s => do
    let (s, more) ← nextItem s first
    if more then
      let (x, s) ← item room s
      let (xs, s) ← readItemParts item fuel false room s
      return (x :: xs, s)
    else return ([], s)

/-- Reads an array. -/
def readArrayPart (item : PartReader α) : PartReader (List α) := fun room s => do
  let s := s.skipBlanks
  match s.rest with
  | '[' :: _ => readItemParts item (s.rest.length + 1) true (room - 1) (← openPart room s)
  | _ => refusePart "a sequence" s

/-- Reads the members of an object and its end, each into what the ones in front have given. -/
def readMemberParts (member : String → α → PartReader α) :
    (fuel : Nat) → (first : Bool) → α → PartReader α
  | 0, _, _, _, s => s.fail .tooDeep
  | fuel + 1, first, x, room, s => do
    let (s, more) ← nextMember s first
    if more then
      let (name, s) ← readText s
      let (x, s) ← member name x room s
      readMemberParts member fuel false x room s
    else return (x, s)

/-- Reads the value of a member behind its name. -/
def readMemberPart (value : PartReader α) : PartReader α := fun room s => do
  value room (← readColon s)

/-- Reads an object as a dictionary; of members with one name the last one counts. -/
def readDictPart (value : PartReader α) : PartReader (Dict α) := fun room s => do
  let member (name : String) (front : Dict α) : PartReader (Dict α) := fun room s => do
    let (x, s) ← readMemberPart value room s
    return (front.insert name x, s)
  let s := s.skipBlanks
  match s.rest with
  | '{' :: _ =>
    readMemberParts member (s.rest.length + 1) true [] (room - 1) (← openPart room s)
  | _ => refusePart "a map" s

/-! ## Records and choices -/

/-- Refuses a member behind its name. The place is that of the next character, or behind the end of
the object. -/
def refuseMember (message : String) (s : Scan) : Except ReadError α :=
  let s := s.skipBlanks
  match s.rest with
  | '}' :: _ => s.advance.fail (.mismatch message)
  | _ => s.fail (.mismatch message)

/-- Ends the array of a record whose parts are all read. -/
def readRecordEnd (s : Scan) : Except ReadError Scan :=
  let s := s.skipBlanks
  match s.rest with
  | [] => s.failNext .endInArray
  | ']' :: _ => .ok s.advance
  | ',' :: _ =>
    let s := s.advance.skipBlanks
    match s.rest with
    | ']' :: _ => s.failNext .trailingComma
    | _ => s.failNext .trailingCharacters
  | _ => s.failNext .trailingCharacters

/-- Reads the items of a record that is written as an array, each with the reader of its place. -/
def readRecordItems : (first : Bool) → List (α → PartReader α) → α → PartReader α
  | _, [], x, _, s => do return (x, ← readRecordEnd s)
  | first, part :: parts, x, room, s => do
    let (s, more) ← nextItem s first
    if more then
      let (x, s) ← part x room s
      readRecordItems false parts x room s
    else return (x, s)

/-- Reads a record from an object by the names of its members, or from an array by their places.
`parts` are the readers in the order of their places, `member` finds the one with a name. -/
def readRecord (expected : String) (parts : List (α → PartReader α))
    (member : String → α → PartReader α) (empty : α) : PartReader α := fun room s => do
  let s := s.skipBlanks
  match s.rest with
  | '{' :: _ =>
    readMemberParts member (s.rest.length + 1) true empty (room - 1) (← openPart room s)
  | '[' :: _ => readRecordItems true parts empty (room - 1) (← openPart room s)
  | _ => refusePart expected s

/-- The names in quotes, as messages list them. -/
def listNames (names : List String) : String :=
  match names.map fun name => s!"`{name}`" with
  | [a, b] => s!"expected {a} or {b}"
  | quoted => "expected one of " ++ ", ".intercalate quoted

/-- Reads the name of one of the choices. -/
def readChoiceName (choices : List (String × α)) : PartReader α := fun room s => do
  let (name, s) ← readTextPart "variant identifier" room s
  match choices.find? fun choice => choice.1 = name with
  | some choice => return (choice.2, s)
  | none =>
    s.fail (.mismatch s!"unknown variant `{name}`, {listNames (choices.map Prod.fst)}")

/-- Reads one of the choices: its name, or an object with its name and `null`. -/
def readChoice (choices : List (String × α)) : PartReader α := fun room s => do
  let s := s.skipBlanks
  match s.rest with
  | [] => s.failNext .endInValue
  | '"' :: _ => readChoiceName choices room s
  | '{' :: _ =>
    let (x, s) ← readChoiceName choices (room - 1) (← openPart room s)
    let ((), s) ← readMemberPart readNullPart (room - 1) s
    let s := s.skipBlanks
    match s.rest with
    | [] => s.fail .endInObject
    | '}' :: _ => return (x, s.advance)
    | _ => s.fail .expectedValue
  | _ => s.failNext .expectedValue

/-- Reads a text as one document of a known form. -/
def readAs (reader : PartReader α) (text : String) : Except ReadError α := do
  let (x, s) ← reader nestingLimit (.ofText text)
  readEnd s
  return x

end Overlay.Json
