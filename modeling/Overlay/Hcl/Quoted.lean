import Overlay.Text.Inspect

/-!
# Quoted strings

Writing a text as a quoted string of the language: what has an escape is escaped, and a dollar or
percent sign in front of an opening brace is doubled, so that no sequence starts.
-/

namespace Overlay.Hcl.Quoted

/-- Whether `c` is a control character. -/
def isControl (c : Char) : Bool := c.toNat < 32 || 127 ≤ c.toNat && c.toNat < 160

/-- The four hexadecimal digits of a small code point. -/
def fourDigits (n : Nat) : List Char :=
  let ds := Text.hexDigits n
  List.replicate (4 - ds.length) '0' ++ ds

/-- How the character `c` in front of `rest` is written. -/
def encodeChar (c : Char) (rest : List Char) : List Char :=
  if c = '"' then ['\\', '"']
  else if c = '\\' then ['\\', '\\']
  else if c = '\n' then ['\\', 'n']
  else if c = '\r' then ['\\', 'r']
  else if c = '\t' then ['\\', 't']
  else if (c = '$' ∨ c = '%') ∧ rest.head? = some '{' then [c, c]
  else if isControl c then '\\' :: 'u' :: fourDigits c.toNat
  else [c]

/-- What stands between the quotes. -/
def encodeBody : List Char → List Char
  | [] => []
  | c :: cs => encodeChar c cs ++ encodeBody cs

/-- The characters of a text as a quoted string. -/
def encode (cs : List Char) : List Char := '"' :: encodeBody cs ++ ['"']

/-- A text as a quoted string. -/
def quote (s : String) : String := String.ofList (encode s.toList)

end Overlay.Hcl.Quoted
