/-!
# Identifiers

Packs and variables are named by identifiers: an ASCII letter or underscore, then letters, digits,
underscores and dashes.
-/

namespace Overlay

/-- Whether `c` is an ASCII letter. -/
def isAsciiLetter (c : Char) : Bool := 'a' ≤ c && c ≤ 'z' || 'A' ≤ c && c ≤ 'Z'

/-- Whether an identifier can start with `c`. -/
def startsIdentifier (c : Char) : Bool := isAsciiLetter c || c == '_'

/-- Whether an identifier can go on with `c`. -/
def continuesIdentifier (c : Char) : Bool :=
  startsIdentifier c || '0' ≤ c && c ≤ '9' || c == '-'

/-- Whether a name is an identifier. -/
def isIdentifier (name : String) : Bool :=
  match name.toList with
  | [] => false
  | c :: cs => startsIdentifier c && cs.all continuesIdentifier

end Overlay
