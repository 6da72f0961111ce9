/-!
# What stands between the parts of a TOML document

Blanks, line ends and comments. A line ends with a line feed, in front of which a carriage return
may stand; other control characters than tabs stand nowhere.
-/

namespace Overlay.Toml

/-- Whether `c` is a blank inside a line. -/
def isBlank (c : Char) : Bool := c == ' ' || c == '\t'

/-- Whether `c` can stand in a comment. -/
def isCommentChar (c : Char) : Bool := c == '\t' || ' ' ≤ c && c ≠ '\x7f'

/-- What follows the blanks at the front. -/
def skipBlanks (cs : List Char) : List Char := cs.dropWhile isBlank

/-- What follows a line end at the front. -/
def lineEnd? : List Char → Option (List Char)
  | '\n' :: cs => some cs
  | '\r' :: '\n' :: cs => some cs
  | _ => none

/-- What follows the rest of a line that holds only blanks and a comment. -/
def restOfLine? (cs : List Char) : Option (List Char) :=
  let behind := match skipBlanks cs with
    | '#' :: cs => cs.dropWhile isCommentChar
    | cs => cs
  if behind.isEmpty then some [] else lineEnd? behind

/-- What follows the blanks, line ends and comments at the front; `inComment` says that a comment
has started. A character that cannot stand in a comment is what follows it. -/
def skipLines (inComment : Bool) : List Char → List Char
  | [] => []
  | '\n' :: cs => skipLines false cs
  | '\r' :: '\n' :: cs => skipLines false cs
  | c :: cs =>
    if inComment then if isCommentChar c then skipLines true cs else c :: cs
    else if isBlank c then skipLines false cs
    else if c = '#' then skipLines true cs
    else c :: cs

end Overlay.Toml
