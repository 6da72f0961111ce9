import Overlay.Hcl.Fault

/-!
# Literal template text

The text between the quotes of a string, or on the lines of a heredoc, stands for the characters it
decodes to.

* In quoted text a backslash starts an escape: a letter for a control character, or `u` and `U`
  with four and eight digits for a code point.
* `$${` stands for `${` and `%%{` for `%{`; the undoubled forms start sequences that a literal
  cannot hold.
* Every character belongs to exactly one piece, and a fault covers its piece.
-/

namespace Overlay.Hcl.Template

/-- One step of decoding: how many characters behind the first one belong to it, what they stand
for, and what is wrong with them. -/
structure Piece where
  further : Nat
  text : List Char
  fault : Option LexicalFault := none
deriving DecidableEq, Repr

/-- Whether `c` is a hexadecimal digit. -/
def isHexDigit (c : Char) : Bool :=
  '0' ≤ c && c ≤ '9' || 'a' ≤ c && c ≤ 'f' || 'A' ≤ c && c ≤ 'F'

/-- The value of a hexadecimal digit. -/
def hexValue (c : Char) : Nat :=
  if '0' ≤ c ∧ c ≤ '9' then c.toNat - '0'.toNat
  else if 'a' ≤ c ∧ c ≤ 'f' then c.toNat - 'a'.toNat + 10
  else c.toNat - 'A'.toNat + 10

/-- The number that hexadecimal digits write. -/
def hexNumber (ds : List Char) : Nat := ds.foldl (fun n c => 16 * n + hexValue c) 0

/-- The character of a code point, unless it is a surrogate or out of range. -/
def charOfCodePoint? (n : Nat) : Option Char :=
  if h : n.isValidChar then some (Char.ofNatAux n h) else none

/-- The escape by code point whose digits start `cs`; it takes `digits` of them. -/
def codePoint (digits : Nat) (cs : List Char) : Piece :=
  let hex := (cs.take digits).takeWhile isHexDigit
  match charOfCodePoint? (hexNumber hex) with
  | some c =>
    if hex.length = digits then ⟨1 + hex.length, [c], none⟩
    else ⟨1 + hex.length, [], some (.invalidCodePoint digits)⟩
  | none => ⟨1 + hex.length, [], some (.invalidCodePoint digits)⟩

/-- The escape whose backslash stands in front of `cs`. -/
def escape : List Char → Piece
  | [] => ⟨0, [], some .unknownEscape⟩
  | 'n' :: _ => ⟨1, ['\n'], none⟩
  | 'r' :: _ => ⟨1, ['\r'], none⟩
  | 't' :: _ => ⟨1, ['\t'], none⟩
  | '"' :: _ => ⟨1, ['"'], none⟩
  | '\\' :: _ => ⟨1, ['\\'], none⟩
  | 'u' :: cs => codePoint 4 cs
  | 'U' :: cs => codePoint 8 cs
  | _ :: _ => ⟨1, [], some .unknownEscape⟩

/-- The piece that starts with the introducer `c`, a dollar or percent sign, in front of `cs`. -/
def sequence (c : Char) : List Char → Piece
  | '{' :: _ => ⟨1, [c, '{'], some .templateSequence⟩
  | d :: '{' :: _ => if d = c then ⟨2, [c, '{'], none⟩ else ⟨0, [c], none⟩
  | _ => ⟨0, [c], none⟩

/-- The piece that starts with `c` in front of `cs`. -/
def piece (escapes : Bool) (c : Char) (cs : List Char) : Piece :=
  if c = '\\' ∧ escapes then escape cs
  else if c = '$' ∨ c = '%' then sequence c cs
  else ⟨0, [c], none⟩

/-- Decoded text and the faults met on the way. -/
structure Decoded where
  text : List Char
  faults : List (Located LexicalFault)
deriving DecidableEq, Repr

/-- Decodes the text that stands at `p`. The first `skip` characters belong to a piece that was
decoded before. -/
def decodeFrom (escapes : Bool) (p : Pos) : (skip : Nat) → List Char → Decoded
  | _, [] => ⟨[], []⟩
  | skip + 1, c :: cs => decodeFrom escapes (p.advance c) skip cs
  | 0, c :: cs =>
    let x := piece escapes c cs
    let rest := decodeFrom escapes (p.advance c) x.further cs
    let span : Span := ⟨p, (p.advance c).advanceAll (cs.take x.further)⟩
    ⟨x.text ++ rest.text, (x.fault.map (⟨·, span⟩)).toList ++ rest.faults⟩

/-- Decodes the text that stands at `p`; backslash escapes count only where `escapes` is set. -/
def decode (escapes : Bool) (p : Pos) (cs : List Char) : Decoded := decodeFrom escapes p 0 cs

/-! ## Lines of a heredoc -/

/-- Decodes lines that stand one behind the other, the first one at `p`, without escapes. -/
def decodeLines (p : Pos) : List (List Char) → List (List Char) × List (Located LexicalFault)
  | [] => ([], [])
  | line :: lines =>
    let first := decode false p line
    let (texts, faults) := decodeLines (p.advanceAll (line ++ ['\n'])) lines
    (first.text :: texts, first.faults ++ faults)

end Overlay.Hcl.Template
