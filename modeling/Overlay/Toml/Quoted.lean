import Overlay.Toml.Blank

/-!
# Strings and keys of TOML

* Basic strings stand in quotes and have escapes; literal strings stand in apostrophes.
* Three of these open a string over several lines, which may start with a line end. One or two more
  of them in front of the closing three belong to the string.
* A key is made of bare words and strings with dots between them.
-/

namespace Overlay.Toml

/-! ## Escapes -/

/-- The value of a hexadecimal digit. -/
def hexValue? (c : Char) : Option Nat :=
  if '0' ≤ c ∧ c ≤ '9' then some (c.toNat - 48)
  else if 'a' ≤ c ∧ c ≤ 'f' then some (c.toNat - 87)
  else if 'A' ≤ c ∧ c ≤ 'F' then some (c.toNat - 55)
  else none

/-- The character with a number in hexadecimal digits. -/
def codeChar? (digits : List Char) : Option Char := do
  let values ← digits.mapM hexValue?
  let n := values.foldl (fun n d => 16 * n + d) 0
  if n.isValidChar then some (Char.ofNat n) else none

/-- The character that a letter behind a backslash stands for. -/
def escaped? : Char → Option Char
  | 'b' => some '\x08'
  | 't' => some '\t'
  | 'n' => some '\n'
  | 'f' => some '\x0c'
  | 'r' => some '\r'
  | '"' => some '"'
  | '\\' => some '\\'
  | _ => none

/-- What a reader of a string gives: the string and what follows it. -/
abbrev Quoted := Option (List Char × List Char)

/-- A character in front of a string that is read. -/
def Quoted.push (c : Char) (q : Quoted) : Quoted := q.map fun (cs, rest) => (c :: cs, rest)

/-- A character in front of a string, if there is one. -/
def Quoted.push? (c : Option Char) (q : Quoted) : Quoted := c.bind q.push

/-! ## Strings in one line -/

/-- Whether `c` stands for itself in a string that is closed by `quote`. -/
def isPlainIn (quote : Char) (c : Char) : Bool := isCommentChar c && c ≠ quote

/-- Reads a basic string behind its opening quote. -/
def basicString : List Char → Quoted
  | [] => none
  | '"' :: cs => some ([], cs)
  | '\\' :: 'u' :: a :: b :: c :: d :: cs =>
    (basicString cs).push? (codeChar? [a, b, c, d])
  | '\\' :: 'U' :: a :: b :: c :: d :: e :: f :: g :: h :: cs =>
    (basicString cs).push? (codeChar? [a, b, c, d, e, f, g, h])
  | '\\' :: c :: cs => (basicString cs).push? (escaped? c)
  | c :: cs => if c ≠ '\\' ∧ isPlainIn '"' c then (basicString cs).push c else none

/-- Reads a literal string behind its opening apostrophe. -/
def literalString : List Char → Quoted
  | [] => none
  | '\'' :: cs => some ([], cs)
  | c :: cs => if isPlainIn '\'' c then (literalString cs).push c else none

/-! ## Strings over several lines -/

/-- Ends a string behind its three closing quotes: one or two more of them are text. -/
def closing (quote : Char) : List Char → List Char × List Char
  | a :: b :: cs =>
    if a = quote ∧ b = quote then ([a, b], cs)
    else if a = quote then ([a], b :: cs)
    else ([], a :: b :: cs)
  | [a] => if a = quote then ([a], []) else ([], [a])
  | [] => ([], [])

/-- Whether only blanks stand in front of the next line end. -/
def endsLine (cs : List Char) : Bool := (lineEnd? (skipBlanks cs)).isSome

/-- Reads a basic string behind its three opening quotes. A backslash at the end of a line removes
the blanks and line ends behind it; `trim` says that this is going on. -/
def basicLines (trim : Bool) : List Char → Quoted
  | [] => none
  | '\n' :: cs => if trim then basicLines true cs else (basicLines false cs).push '\n'
  | '\r' :: '\n' :: cs => if trim then basicLines true cs else (basicLines false cs).push '\n'
  | '"' :: '"' :: '"' :: cs => some (closing '"' cs)
  | '"' :: cs => (basicLines false cs).push '"'
  | '\\' :: 'u' :: a :: b :: c :: d :: cs =>
    (basicLines false cs).push? (codeChar? [a, b, c, d])
  | '\\' :: 'U' :: a :: b :: c :: d :: e :: f :: g :: h :: cs =>
    (basicLines false cs).push? (codeChar? [a, b, c, d, e, f, g, h])
  | '\\' :: c :: cs =>
    if endsLine (c :: cs) then basicLines true (c :: cs)
    else (basicLines false cs).push? (escaped? c)
  | c :: cs =>
    if trim && isBlank c then basicLines true cs
    else if c ≠ '\\' ∧ isPlainIn '"' c then (basicLines false cs).push c
    else none

/-- Reads a literal string behind its three opening apostrophes. -/
def literalLines : List Char → Quoted
  | [] => none
  | '\n' :: cs => (literalLines cs).push '\n'
  | '\r' :: '\n' :: cs => (literalLines cs).push '\n'
  | '\'' :: '\'' :: '\'' :: cs => some (closing '\'' cs)
  | '\'' :: cs => (literalLines cs).push '\''
  | c :: cs => if isPlainIn '\'' c then (literalLines cs).push c else none

/-- What follows a line end, if there is one. -/
def skipLineEnd (cs : List Char) : List Char := (lineEnd? cs).getD cs

/-- Reads a string of any kind. -/
def readString? : List Char → Quoted
  | '"' :: '"' :: '"' :: cs => basicLines false (skipLineEnd cs)
  | '"' :: cs => basicString cs
  | '\'' :: '\'' :: '\'' :: cs => literalLines (skipLineEnd cs)
  | '\'' :: cs => literalString cs
  | _ => none

/-! ## Keys -/

/-- Whether `c` can stand in a bare word. -/
def isBare (c : Char) : Bool :=
  'a' ≤ c && c ≤ 'z' || 'A' ≤ c && c ≤ 'Z' || '0' ≤ c && c ≤ '9' || c == '-' || c == '_'

/-- Reads one part of a key. -/
def readKeyPart? (cs : List Char) : Quoted :=
  match cs with
  | '"' :: cs => basicString cs
  | '\'' :: cs => literalString cs
  | cs =>
    match cs.takeWhile isBare with
    | [] => none
    | word => some (word, cs.dropWhile isBare)

/-- The parts of a key are fewer than this. -/
def keyLimit : Nat := 80

/-- Reads at most `fuel` parts of a key with the blanks around them. -/
def readKeyParts? : (fuel : Nat) → List Char → Option (List String × List Char)
  | 0, _ => none
  | fuel + 1, cs => do
    let (part, cs) ← readKeyPart? (skipBlanks cs)
    match skipBlanks cs with
    | '.' :: cs =>
      let (parts, cs) ← readKeyParts? fuel cs
      return (String.ofList part :: parts, cs)
    | cs => return ([String.ofList part], cs)

/-- Reads a key with the blanks around it. -/
def readKey? (cs : List Char) : Option (List String × List Char) := readKeyParts? (keyLimit - 1) cs

end Overlay.Toml
