/-!
# Cutting text at byte offsets

Offsets count the bytes of the UTF-8 form, while text is a list of characters. A cut that would
fall inside a character is refused.
-/

namespace Overlay.Text

/-- How many bytes the characters take. -/
def byteLength (cs : List Char) : Nat := cs.foldr (fun c n => c.utf8Size + n) 0

@[simp] theorem byteLength_nil : byteLength [] = 0 := rfl

@[simp] theorem byteLength_cons (c : Char) (cs : List Char) :
    byteLength (c :: cs) = c.utf8Size + byteLength cs := rfl

@[simp] theorem byteLength_append (xs ys : List Char) :
    byteLength (xs ++ ys) = byteLength xs + byteLength ys := by
  induction xs with
  | nil => rw [List.nil_append, byteLength_nil, Nat.zero_add]
  | cons x xs ih => rw [List.cons_append, byteLength_cons, byteLength_cons, ih, Nat.add_assoc]

/-- The characters in front of and behind the byte `offset`, if it lies between two characters. -/
def splitAtByte? : List Char → Nat → Option (List Char × List Char)
  | cs, 0 => some ([], cs)
  | [], _ + 1 => none
  | c :: cs, offset + 1 =>
    if offset + 1 < c.utf8Size then none
    else (splitAtByte? cs (offset + 1 - c.utf8Size)).map fun (front, back) => (c :: front, back)

/-- The characters from the byte `first` up to the byte `last`, if both lie between characters. -/
def sliceBytes? (cs : List Char) (first last : Nat) : Option (List Char) := do
  if last < first then none
  let (_, rest) ← splitAtByte? cs first
  let (slice, _) ← splitAtByte? rest (last - first)
  return slice

/-- The last offset between two characters that is not past `offset`. -/
def floorBoundary : List Char → Nat → Nat
  | [], _ => 0
  | c :: cs, offset =>
    if offset < c.utf8Size then 0 else c.utf8Size + floorBoundary cs (offset - c.utf8Size)

/-- The characters whose bytes all stand in front of `offset`. -/
def takeBytes : List Char → Nat → List Char
  | [], _ => []
  | c :: cs, offset => if offset < c.utf8Size then [] else c :: takeBytes cs (offset - c.utf8Size)

end Overlay.Text
