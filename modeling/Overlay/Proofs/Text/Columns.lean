import Overlay.Proofs.Text.LineIndex
import Overlay.Proofs.Text.Lines

/-!
# Columns that count bytes

A place may be told by its line and by its column, and a column may count characters or bytes.

* `Text.IsLine` cuts a line out of a text. It is the line of its number: it starts where the index
  says (`LineIndex.getElem?_starts`), and is the stretch of that number (`Text.IsLine.getElem?`).
* A column is looked up by its characters: the place is behind as many characters of the line, or at
  the end of the line (`Pos.ofLineColumn_eq`).
* So a column that counts bytes is looked up rightly exactly if all characters in front of it take
  one byte (`Pos.ofLineColumn_eq_ofOffset_iff`).
-/

namespace Overlay

namespace Text

/-- The line stands between whole lines and its own end, or the end of the text. -/
structure IsLine (before line after : List Char) : Prop where
  before : WholeLines before
  line : '\n' ∉ line
  after : after = [] ∨ ∃ more, after = '\n' :: more

theorem splitAtChar_newline (xs rest : List Char) :
    splitAtChar '\n' (xs ++ '\n' :: rest) = splitAtChar '\n' xs ++ splitAtChar '\n' rest := by
  induction xs with
  | nil => rfl
  | cons c cs ih =>
    rw [List.cons_append, splitAtChar, splitAtChar, ih]
    split_ifs
    · rfl
    · rw [splitAtChar_eq cs]
      rfl

theorem length_splitAtChar (cs : List Char) : (splitAtChar '\n' cs).length = cs.count '\n' + 1 := by
  induction cs with
  | nil => rfl
  | cons c cs ih =>
    rw [splitAtChar]
    by_cases hc : c = '\n'
    · rw [if_pos hc, hc, List.count_cons_self, List.length_cons, ih]
    · rw [if_neg hc, List.count_cons_of_ne hc, ← ih, splitAtChar_eq cs]
      rfl

theorem IsLine.getElem? {before line after : List Char} (h : IsLine before line after) :
    (splitAtChar '\n' (before ++ line ++ after))[before.count '\n']? = some line := by
  have hfirst : firstLine (line ++ after) = line := by
    rw [firstLine_append h.line]
    rcases h.after with rfl | ⟨more, rfl⟩
    · exact List.append_nil line
    · exact List.append_nil line
  rw [List.append_assoc]
  rcases h.before with rfl | ⟨front, rfl⟩
  · rw [List.nil_append, splitAtChar_eq, hfirst]
    rfl
  · have hcount : (front ++ ['\n']).count '\n' = (splitAtChar '\n' front).length := by
      rw [length_splitAtChar, List.count_append, List.count_singleton_self]
    rw [hcount, List.append_assoc, List.singleton_append, splitAtChar_newline,
      List.getElem?_append_right (Nat.le_refl _), Nat.sub_self, splitAtChar_eq, hfirst]
    rfl

theorem length_le_byteLength (cs : List Char) : cs.length ≤ byteLength cs := by
  induction cs with
  | nil => exact Nat.le_refl _
  | cons c cs ih =>
    have hpos := c.utf8Size_pos
    rw [List.length_cons, byteLength_cons]
    omega

/-- Characters take as many bytes as they are if each of them takes one. -/
theorem byteLength_le_length_iff {cs : List Char} :
    byteLength cs ≤ cs.length ↔ ∀ c ∈ cs, c.utf8Size = 1 := by
  induction cs with
  | nil => simp
  | cons c cs ih =>
    have hpos := c.utf8Size_pos
    have hle := length_le_byteLength cs
    rw [List.length_cons, byteLength_cons, List.forall_mem_cons, ← ih]
    omega

end Text

namespace Pos

open Text (WholeLines IsLine byteLength)

variable {text : String} {before line after : List Char}

/-! ## Walking to a line and a column -/

/-- A line end in front of the line is walked over, with all in front of it. -/
theorem walkToLineColumn_newline (p : Pos) (column : Nat) (front rest : List Char) :
    p.walkToLineColumn (p.line + front.count '\n' + 1) column (front ++ '\n' :: rest) =
      (p.advanceAll (front ++ ['\n'])).walkToLineColumn (p.line + front.count '\n' + 1) column
        rest := by
  induction front generalizing p with
  | nil =>
    rw [List.nil_append, walkToLineColumn, if_neg (by omega)]
    rfl
  | cons c cs ih =>
    have hline : p.line + (c :: cs).count '\n' = (p.advance c).line + cs.count '\n' := by
      rw [← advanceAll_line, ← advanceAll_line, advanceAll_cons]
    have hnext := ih (p.advance c)
    rw [← hline] at hnext
    rw [List.cons_append, walkToLineColumn, if_neg (by omega), hnext]
    rfl

/-- On its line a place is walked to by the characters, and no further than the end of the line. -/
theorem walkToLineColumn_line (p : Pos) (column : Nat) (hline : '\n' ∉ line)
    (hafter : after = [] ∨ ∃ more, after = '\n' :: more) :
    p.walkToLineColumn p.line column (line ++ after) =
      p.advanceAll (line.take (column - p.column)) := by
  induction line generalizing p with
  | nil =>
    rcases hafter with rfl | ⟨more, rfl⟩
    · rw [List.append_nil, List.take_nil]
      rfl
    · rw [List.nil_append, List.take_nil, walkToLineColumn, if_pos (by simp)]
      rfl
  | cons c cs ih =>
    rw [List.mem_cons, not_or] at hline
    have hc : c ≠ '\n' := Ne.symm hline.1
    -- The walk stops at the column looked for, or at the end of the line if that comes first.
    by_cases hcolumn : column ≤ p.column
    · rw [List.cons_append, walkToLineColumn, if_pos (.inr ⟨rfl, .inl hcolumn⟩),
        Nat.sub_eq_zero_of_le hcolumn, List.take_zero, advanceAll_nil]
    · have hnext : p.advance c = ⟨p.line, p.column + 1, p.byte + c.utf8Size⟩ := if_neg hc
      have htake : column - p.column = column - (p.advance c).column + 1 := by
        rw [hnext]
        simp only
        omega
      have hrest := ih (p.advance c) hline.2
      rw [List.cons_append, walkToLineColumn, if_neg (by simp [hc, hcolumn]), htake,
        List.take_succ_cons, advanceAll_cons, ← hrest, hnext]

/-- Whole lines in front of the line are walked over. -/
theorem walkToLineColumn_wholeLines (column : Nat) (h : WholeLines before) (rest : List Char) :
    start.walkToLineColumn (before.count '\n' + 1) column (before ++ rest) =
      (start.advanceAll before).walkToLineColumn (before.count '\n' + 1) column rest := by
  rcases h with rfl | ⟨front, rfl⟩
  · rfl
  · have hcount : (front ++ ['\n']).count '\n' + 1 = start.line + front.count '\n' + 1 := by
      rw [List.count_append, List.count_singleton_self, Nat.add_comm start.line]
      rfl
    rw [hcount, List.append_assoc, List.singleton_append, walkToLineColumn_newline]

/-- A column that is looked up counts characters, and stays on its line. -/
theorem ofLineColumn_eq (htext : text.toList = before ++ line ++ after)
    (h : IsLine before line after) (column : Nat) :
    ofLineColumn text (before.count '\n' + 1) column =
      start.advanceAll (before ++ line.take (column - 1)) := by
  have hline := walkToLineColumn_line (start.advanceAll before) column h.line h.after
  rw [advanceAll_wholeLines h.before] at hline
  rw [ofLineColumn, htext, List.append_assoc, walkToLineColumn_wholeLines column h.before,
    advanceAll_append, advanceAll_wholeLines h.before, hline]

/-- A column that counts bytes is looked up as the byte in front of it exactly if all characters in
front of it take one byte. -/
theorem ofLineColumn_eq_ofOffset_iff (htext : text.toList = before ++ line ++ after)
    (h : IsLine before line after) {column : Nat} (hcolumn : column ≤ byteLength line) :
    ofLineColumn text (before.count '\n' + 1) column =
        ofOffset text (byteLength before + (column - 1)) ↔
      ∀ c ∈ line.take (column - 1), c.utf8Size = 1 := by
  have hplace := ofLineColumn_eq htext h column
  rw [← Text.byteLength_le_length_iff, List.length_take]
  constructor
  · intro heq
    -- No place of an offset is behind the offset.
    have hle := ofOffset_byte_le text (byteLength before + (column - 1))
    rw [← heq, hplace, start_advanceAll_byte, Text.byteLength_append] at hle
    by_cases hshort : line.length < column - 1
    · rw [List.take_of_length_le (Nat.le_of_lt hshort)] at hle
      omega
    · omega
  · intro hbytes
    have hlength := Text.length_le_byteLength (line.take (column - 1))
    rw [List.length_take] at hlength
    have hinside : column - 1 ≤ line.length := by
      by_contra hshort
      rw [List.take_of_length_le (by omega)] at hbytes
      omega
    have hfront : byteLength (before ++ line.take (column - 1)) =
        byteLength before + (column - 1) := by
      rw [Text.byteLength_append]
      omega
    have hcut := Text.cutBy_byteLength (before ++ line.take (column - 1))
      (line.drop (column - 1) ++ after)
    rw [hfront] at hcut
    refine hplace.trans (ofOffset_cut ?_ hcut).symm
    rw [← List.append_assoc, List.append_assoc before, List.take_append_drop, htext]

end Pos

end Overlay
