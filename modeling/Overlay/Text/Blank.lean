import Overlay.Text.Ranges

/-!
# Blank characters

The property White_Space of Unicode, and trimming by it.
-/

namespace Overlay.Text

/-- The code points with the property White_Space. -/
def blanks : Ranges where
  ranges :=
    [(0x9, 0xd), (0x20, 0x20), (0x85, 0x85), (0xa0, 0xa0), (0x1680, 0x1680), (0x2000, 0x200a),
     (0x2028, 0x2029), (0x202f, 0x202f), (0x205f, 0x205f), (0x3000, 0x3000)]
  ascending := by decide +kernel

/-- Whether `c` is white space. -/
def isBlank (c : Char) : Bool := blanks.contains c

/-- The text without the blanks at its front. -/
def trimFront (cs : List Char) : List Char := cs.dropWhile isBlank

/-- The text without the blanks at its end. -/
def trimBack (cs : List Char) : List Char := (cs.reverse.dropWhile isBlank).reverse

/-- The text without the blanks at both ends. -/
def trim (cs : List Char) : List Char := trimBack (trimFront cs)

end Overlay.Text
