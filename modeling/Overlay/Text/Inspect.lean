import Overlay.Text.Printable

/-!
# Quoted names in messages

How messages show a name or a character: in quotes, with everything that a reader could not tell
apart written as an escape.

* The quote, the backslash, the line end, the carriage return, the tab and NUL have short escapes.
* Extending and unprintable characters are written as `\u` with their code point in braces.
-/

namespace Overlay.Text

/-- The hexadecimal digits of `n`, in lower case and without leading zeros. -/
def hexDigits (n : Nat) : List Char := Nat.toDigits 16 n

/-- How the character `c` stands between two of the quotes `quote`. -/
def inspectChar (quote c : Char) : List Char :=
  if c = '\x00' then ['\\', '0']
  else if c = '\t' then ['\\', 't']
  else if c = '\r' then ['\\', 'r']
  else if c = '\n' then ['\\', 'n']
  else if c = '\\' ∨ c = quote then ['\\', c]
  else if isExtending c || !isPrintable c then ['\\', 'u', '{'] ++ hexDigits c.toNat ++ ['}']
  else [c]

/-- The text `s` in double quotes. -/
def inspect (s : String) : String :=
  String.ofList ('"' :: s.toList.flatMap (inspectChar '"') ++ ['"'])

/-- The character `c` in single quotes. -/
def inspectLone (c : Char) : String := String.ofList ('\'' :: inspectChar '\'' c ++ ['\''])

end Overlay.Text
