import Overlay.Json.Basic

/-!
# Reading JSON

* `Json.read` reads a text as one document. Members of objects stay as they are written, in their
  order and with repeated names.
* `Json.collapse` puts members in the order of their names; of members with one name the last one
  counts. `Json.parse?` does both.
* A malformed text is refused with a cause and a place; places count lines from one and bytes from
  the start of the line. Arrays and objects nest at most 127 deep.
* Floating-point numbers are put together from the leading digits that fit in 64 bits and a power
  of ten, with one rounding for each.
-/

namespace Overlay.Json

open Numeric (Binary64)

/-! ## Faults -/

/-- Why a text is no document. -/
inductive ReadFault where
  | endInValue
  | endInArray
  | endInObject
  | endInString
  | expectedColon
  | expectedItemEnd
  | expectedMemberEnd
  | expectedName
  | expectedValue
  | invalidEscape
  | invalidNumber
  | numberOutOfRange
  | controlCharacter
  | keyNotString
  | loneSurrogate
  | trailingComma
  | trailingCharacters
  | endOfHexEscape
  | tooDeep
  /-- The document does not have the form that is asked for. -/
  | mismatch (message : String)
deriving DecidableEq, Repr

/-- The text of a cause. -/
def ReadFault.message : ReadFault → String
  | endInValue => "EOF while parsing a value"
  | endInArray => "EOF while parsing a list"
  | endInObject => "EOF while parsing an object"
  | endInString => "EOF while parsing a string"
  | expectedColon => "expected `:`"
  | expectedItemEnd => "expected `,` or `]`"
  | expectedMemberEnd => "expected `,` or `\x7d`"
  | expectedName => "expected ident"
  | expectedValue => "expected value"
  | invalidEscape => "invalid escape"
  | invalidNumber => "invalid number"
  | numberOutOfRange => "number out of range"
  | controlCharacter => "control character (\\u0000-\\u001F) found while parsing a string"
  | keyNotString => "key must be a string"
  | loneSurrogate => "lone leading surrogate in hex escape"
  | trailingComma => "trailing comma"
  | trailingCharacters => "trailing characters"
  | endOfHexEscape => "unexpected end of hex escape"
  | tooDeep => "recursion limit exceeded"
  | mismatch message => message

/-- A place in a text: the line, and how many bytes of it are read. -/
structure Place where
  line : Nat
  column : Nat
deriving DecidableEq, Repr

/-- The place behind a character. -/
def Place.advance (p : Place) (c : Char) : Place :=
  if c = '\n' then ⟨p.line + 1, 0⟩ else ⟨p.line, p.column + c.utf8Size⟩

/-- A cause and where it was met. -/
structure ReadError where
  fault : ReadFault
  place : Place
deriving DecidableEq, Repr

/-- The text of an error. -/
def ReadError.message (e : ReadError) : String :=
  s!"{e.fault.message} at line {e.place.line} column {e.place.column}"

/-! ## Scanning -/

/-- A text that is partly read. -/
structure Scan where
  place : Place
  rest : List Char
deriving DecidableEq, Repr

namespace Scan

/-- A text of which nothing is read. -/
def ofText (text : String) : Scan := ⟨⟨1, 0⟩, text.toList⟩

/-- The text behind the next character. -/
def advance (s : Scan) : Scan :=
  match s.rest with
  | [] => s
  | c :: cs => ⟨s.place.advance c, cs⟩

/-- The place behind the first byte of the next character. -/
def nextPlace (s : Scan) : Place :=
  match s.rest with
  | [] => s.place
  | c :: _ => if c = '\n' then ⟨s.place.line + 1, 0⟩ else ⟨s.place.line, s.place.column + 1⟩

/-- An error at what is read. -/
def fail (s : Scan) (fault : ReadFault) : Except ReadError α := .error ⟨fault, s.place⟩

/-- An error at the next character. -/
def failNext (s : Scan) (fault : ReadFault) : Except ReadError α := .error ⟨fault, s.nextPlace⟩

/-- Whether `c` is a blank between the parts of a document. -/
def isBlank (c : Char) : Bool := c == ' ' || c == '\n' || c == '\t' || c == '\r'

/-- The text behind the characters at the front that pass `test`. -/
def skipFrom (test : Char → Bool) (place : Place) : List Char → Scan
  | [] => ⟨place, []⟩
  | c :: cs => if test c then skipFrom test (place.advance c) cs else ⟨place, c :: cs⟩

/-- The text behind the blanks at the front. -/
def skipBlanks (s : Scan) : Scan := skipFrom isBlank s.place s.rest

/-- The place behind at most `bytes` bytes, and the number of bytes that are missing. -/
def placeAfterBytes (place : Place) (bytes : Nat) : List Char → Place × Nat
  | [] => (place, bytes)
  | c :: cs =>
    if bytes = 0 then (place, 0)
    else if bytes < c.utf8Size then (⟨place.line, place.column + bytes⟩, 0)
    else placeAfterBytes (place.advance c) (bytes - c.utf8Size) cs

end Scan

/-! ## Names and strings -/

/-- Reads the rest of one of the names `true`, `false` and `null`. -/
def readName (s : Scan) : List Char → Except ReadError Scan
  | [] => .ok s
  | c :: cs =>
    match s.rest with
    | [] => s.fail .endInValue
    | d :: _ => if d = c then readName s.advance cs else s.failNext .expectedName

/-- The value of a hexadecimal digit. -/
def hexValue? (c : Char) : Option Nat :=
  if '0' ≤ c ∧ c ≤ '9' then some (c.toNat - 48)
  else if 'a' ≤ c ∧ c ≤ 'f' then some (c.toNat - 87)
  else if 'A' ≤ c ∧ c ≤ 'F' then some (c.toNat - 55)
  else none

/-- Reads the four digits of an escape by code unit. -/
def readHexEscape (s : Scan) : Except ReadError (Nat × Scan) :=
  let (place, missing) := Scan.placeAfterBytes s.place 4 s.rest
  if missing ≠ 0 then .error ⟨.endInString, place⟩
  else
    match (s.rest.take 4).mapM hexValue? with
    | some [a, b, c, d] => .ok (4096 * a + 256 * b + 16 * c + d, ⟨place, s.rest.drop 4⟩)
    | _ => .error ⟨.invalidEscape, place⟩

/-- Reads one given character of an escape for the second half of a pair of surrogates. -/
def readPairMark (s : Scan) (mark : Char) : Except ReadError Scan :=
  match s.rest with
  | [] => s.fail .endInString
  | c :: _ => if c = mark then .ok s.advance else s.failNext .endOfHexEscape

/-- Reads an escape by code unit behind its `u`, and that of a second surrogate. -/
def readCodeUnits (s : Scan) : Except ReadError (Char × Scan) := do
  let (n, s) ← readHexEscape s
  if 0xDC00 ≤ n ∧ n ≤ 0xDFFF then s.fail .loneSurrogate
  else if n < 0xD800 ∨ 0xDBFF < n then return (Char.ofNat n, s)
  else
    -- The first half of a pair, and the second has to follow at once.
    let s ← readPairMark s '\\'
    let s ← readPairMark s 'u'
    let (m, s) ← readHexEscape s
    if m < 0xDC00 ∨ 0xDFFF < m then s.fail .loneSurrogate
    else return (Char.ofNat (0x10000 + 1024 * (n - 0xD800) + (m - 0xDC00)), s)

/-- Reads an escape behind its backslash. -/
def readEscape (s : Scan) : Except ReadError (Char × Scan) :=
  match s.rest with
  | [] => s.fail .endInString
  | c :: _ =>
    let simple (c : Char) : Except ReadError (Char × Scan) := .ok (c, s.advance)
    match c with
    | '"' => simple '"'
    | '\\' => simple '\\'
    | '/' => simple '/'
    | 'b' => simple '\x08'
    | 'f' => simple '\x0c'
    | 'n' => simple '\n'
    | 'r' => simple '\r'
    | 't' => simple '\t'
    | 'u' => readCodeUnits s.advance
    | _ => s.failNext .invalidEscape

/-- Reads a string behind its opening quote; `fuel` bounds its length. -/
def readString : (fuel : Nat) → Scan → Except ReadError (List Char × Scan)
  | 0, s => s.fail .endInString
  | fuel + 1, s =>
    match s.rest with
    | [] => s.fail .endInString
    | c :: _ =>
      if c = '"' then .ok ([], s.advance)
      else if c = '\\' then do
        let (d, s) ← readEscape s.advance
        let (ds, s) ← readString fuel s
        return (d :: ds, s)
      else if c.toNat < 32 then s.failNext .controlCharacter
      else do
        let (ds, s) ← readString fuel s.advance
        return (c :: ds, s)

/-- Reads a string behind its opening quote. -/
def readText (s : Scan) : Except ReadError (String × Scan) := do
  let (cs, s) ← readString (s.rest.length + 1) s
  return (String.ofList cs, s)

/-! ## Numbers -/

/-- Whether `c` is a decimal digit. -/
def isDigit (c : Char) : Bool := '0' ≤ c && c ≤ '9'

/-- The greatest number that is kept digit by digit. -/
def greatestSignificand : Nat := 18446744073709551615

/-- The greatest exponent that is kept digit by digit. -/
def greatestExponent : Nat := 2147483647

/-- The power of ten nearest to `10 ^ n`. -/
def powerOfTen (n : Nat) : Binary64 := .ofDecimal false 1 n

/-- `f * 10 ^ exponent` in at most `fuel` steps of 308 places, each rounded; `none` if it is too
great. -/
def scaleByPower : (fuel : Nat) → Binary64 → Int → Option Binary64
  | 0, f, _ => some f
  | fuel + 1, f, exponent =>
    if exponent.natAbs ≤ 308 then
      if 0 ≤ exponent then
        let x := f.multiply (powerOfTen exponent.natAbs)
        if x.isInfinite then none else some x
      else some (f.divide (powerOfTen exponent.natAbs))
    else if f.magnitude = 0 then some f
    -- Upwards it is out of range already, downwards it shrinks step by step to zero.
    else if 0 ≤ exponent then none
    else scaleByPower fuel (f.divide (powerOfTen 308)) (exponent + 308)

/-- The floating-point number of a significand and an exponent. -/
def makeFloat (s : Scan) (negative : Bool) (significand : Nat) (exponent : Int) :
    Except ReadError (Json × Scan) :=
  match scaleByPower 5 (.ofNat significand) exponent with
  | some x => .ok (.float (if negative then x.negate else x), s)
  | none => s.fail .numberOutOfRange

/-- Reads digits into the significand while it fits; the significand, how many digits were taken,
how many were left out, and the text behind all of them. -/
def readDigits (significand taken : Nat) (place : Place) : List Char → Nat × Nat × Nat × Scan
  | [] => (significand, taken, 0, ⟨place, []⟩)
  | c :: cs =>
    if isDigit c then
      let next := 10 * significand + (c.toNat - 48)
      if greatestSignificand < next then
        let s := Scan.skipFrom isDigit place (c :: cs)
        (significand, taken, (c :: cs).length - s.rest.length, s)
      else readDigits next (taken + 1) (place.advance c) cs
    else (significand, taken, 0, ⟨place, c :: cs⟩)

/-- Reads the digits of an exponent while it fits; `none` if it does not. -/
def readExponentDigits (exponent : Nat) (place : Place) : List Char → Option Nat × Scan
  | [] => (some exponent, ⟨place, []⟩)
  | c :: cs =>
    if isDigit c then
      let next := 10 * exponent + (c.toNat - 48)
      if greatestExponent < next then (none, ⟨place.advance c, cs⟩)
      else readExponentDigits next (place.advance c) cs
    else (some exponent, ⟨place, c :: cs⟩)

/-- Reads an exponent behind its letter and makes the number. -/
def readExponent (s : Scan) (negative : Bool) (significand : Nat) (before : Int) :
    Except ReadError (Json × Scan) :=
  let (down, s) := match s.rest with
    | '+' :: _ => (false, s.advance)
    | '-' :: _ => (true, s.advance)
    | _ => (false, s)
  match s.rest with
  | [] => s.fail .endInValue
  | c :: _ =>
    if !isDigit c then s.failNext .invalidNumber
    else
      match readExponentDigits 0 s.place s.rest with
      | (some n, s) => makeFloat s negative significand (if down then before - n else before + n)
      | (none, s) =>
        -- An exponent beyond the range makes zero, unless the number is too great.
        if significand ≠ 0 ∧ !down then s.fail .numberOutOfRange
        else
          .ok (.float (.ofMagnitude negative 0), Scan.skipFrom isDigit s.place s.rest)

/-- Reads what follows the mantissa of a floating-point number, and makes the number. -/
def readScale (s : Scan) (negative : Bool) (significand : Nat) (exponent : Int) :
    Except ReadError (Json × Scan) :=
  match s.rest with
  | 'e' :: _ | 'E' :: _ => readExponent s.advance negative significand exponent
  | _ => makeFloat s negative significand exponent

/-- Reads a fraction behind its point and what follows it. -/
def readFraction (s : Scan) (negative : Bool) (significand : Nat) (before : Int) :
    Except ReadError (Json × Scan) :=
  match s.rest with
  | [] => s.failNext .endInValue
  | c :: _ =>
    if !isDigit c then s.failNext .invalidNumber
    else
      let (significand, taken, _, s) := readDigits significand 0 s.place s.rest
      readScale s negative significand (before - taken)

/-- The integer of a significand, or negative zero and what is too small as a floating-point
number. -/
def makeInteger (negative : Bool) (significand : Nat) : Json :=
  if !negative then .integer significand
  else if significand = 0 ∨ 9223372036854775808 < significand then
    .float (Binary64.ofNat significand).negate
  else .integer (-significand)

/-- Reads a number behind its sign. -/
def readNumber (s : Scan) (negative : Bool) : Except ReadError (Json × Scan) :=
  match s.rest with
  | [] => s.fail .endInValue
  | c :: cs =>
    if !isDigit c then s.failNext .invalidNumber
    -- A leading zero is all of the whole part.
    else if c = '0' ∧ cs.head?.any isDigit then s.advance.failNext .invalidNumber
    else
      let (significand, _, dropped, s) := readDigits 0 0 s.place s.rest
      match s.rest with
      | '.' :: _ => readFraction s.advance negative significand dropped
      | 'e' :: _ | 'E' :: _ => readExponent s.advance negative significand dropped
      | _ =>
        if dropped = 0 then .ok (makeInteger negative significand, s)
        else makeFloat s negative significand dropped

/-! ## Documents -/

/-- The place of the next item of an array, or the text behind its end; `first` says that no item is
read yet. -/
def nextItem (s : Scan) (first : Bool) : Except ReadError (Scan × Bool) :=
  let s := s.skipBlanks
  match s.rest with
  | [] => s.failNext .endInArray
  | ']' :: _ => .ok (s.advance, false)
  | c :: _ =>
    if first then .ok (s, true)
    else if c = ',' then
      let s := s.advance.skipBlanks
      match s.rest with
      | [] => s.failNext .endInValue
      | ']' :: _ => s.failNext .trailingComma
      | _ => .ok (s, true)
    else s.failNext .expectedItemEnd

/-- The text behind the quote of the next member's name, or behind the end of the object; `first`
says that no member is read yet. -/
def nextMember (s : Scan) (first : Bool) : Except ReadError (Scan × Bool) :=
  let s := s.skipBlanks
  match s.rest with
  | [] => s.failNext .endInObject
  | '}' :: _ => .ok (s.advance, false)
  | c :: _ =>
    if first then
      if c = '"' then .ok (s.advance, true) else s.failNext .keyNotString
    else if c = ',' then
      let s := s.advance.skipBlanks
      match s.rest with
      | [] => s.failNext .endInValue
      | '"' :: _ => .ok (s.advance, true)
      | '}' :: _ => s.failNext .trailingComma
      | _ => s.failNext .keyNotString
    else s.failNext .expectedMemberEnd

/-- Reads the colon between the name and the value of a member. -/
def readColon (s : Scan) : Except ReadError Scan :=
  let s := s.skipBlanks
  match s.rest with
  | [] => s.failNext .endInObject
  | ':' :: _ => .ok s.advance
  | _ => s.failNext .expectedColon

mutual

/-- Reads a document; `room` more arrays and objects may be opened, one less than that. -/
def readValue : (fuel : Nat) → (room : Nat) → Scan → Except ReadError (Json × Scan)
  | 0, _, s => s.fail .tooDeep
  | fuel + 1, room, s =>
    let s := s.skipBlanks
    match s.rest with
    | [] => s.failNext .endInValue
    | c :: _ =>
      match c with
      | 'n' => (readName s.advance ['u', 'l', 'l']).map (.null, ·)
      | 't' => (readName s.advance ['r', 'u', 'e']).map (.bool true, ·)
      | 'f' => (readName s.advance ['a', 'l', 's', 'e']).map (.bool false, ·)
      | '-' => readNumber s.advance true
      | '"' => (readText s.advance).map fun (text, s) => (.string text, s)
      | '[' =>
        if room ≤ 1 then s.failNext .tooDeep
        else (readItems fuel (room - 1) true s.advance).map fun (xs, s) => (.array xs, s)
      | '{' =>
        if room ≤ 1 then s.failNext .tooDeep
        else (readMembers fuel (room - 1) true s.advance).map fun (xs, s) => (.object xs, s)
      | _ => if isDigit c then readNumber s false else s.failNext .expectedValue

/-- Reads the items of an array and its end. -/
def readItems : (fuel : Nat) → (room : Nat) → (first : Bool) → Scan →
    Except ReadError (List Json × Scan)
  | 0, _, _, s => s.fail .tooDeep
  | fuel + 1, room, first, s => do
    let (s, more) ← nextItem s first
    if more then
      let (x, s) ← readValue fuel room s
      let (xs, s) ← readItems fuel room false s
      return (x :: xs, s)
    else return ([], s)

/-- Reads the members of an object and its end. -/
def readMembers : (fuel : Nat) → (room : Nat) → (first : Bool) → Scan →
    Except ReadError (List (String × Json) × Scan)
  | 0, _, _, s => s.fail .tooDeep
  | fuel + 1, room, first, s => do
    let (s, more) ← nextMember s first
    if more then
      let (name, s) ← readText s
      let s ← readColon s
      let (x, s) ← readValue fuel room s
      let (xs, s) ← readMembers fuel room false s
      return ((name, x) :: xs, s)
    else return ([], s)

end

/-- How deep arrays and objects nest, and one more. -/
def nestingLimit : Nat := 128

/-- Ends a text, which may hold nothing but blanks from here on. -/
def readEnd (s : Scan) : Except ReadError Unit :=
  let s := s.skipBlanks
  if s.rest.isEmpty then .ok () else s.failNext .trailingCharacters

/-- Reads a text as one document, with its members as they are written. -/
def read (text : String) : Except ReadError Json := do
  let s := Scan.ofText text
  let (x, s) ← readValue (2 * s.rest.length + 2) nestingLimit s
  readEnd s
  return x

/-! ## Repeated names -/

/-- The document with the members of every object in the order of their names; of members with one
name the last one counts. -/
def collapse : Json → Json
  | array items => array (collapseItems items)
  | object members => object (collapseMembers [] members)
  | x => x
where
  /-- The items, each collapsed. -/
  collapseItems : List Json → List Json
  | [] => []
  | x :: xs => x.collapse :: collapseItems xs
  /-- The members, each collapsed, put into those in front. -/
  collapseMembers (front : Dict Json) : List (String × Json) → Dict Json
  | [] => front
  | (name, x) :: xs => collapseMembers (front.insert name x.collapse) xs

/-- The document that a text is. -/
def parse? (text : String) : Except ReadError Json := (read text).map collapse

end Overlay.Json
