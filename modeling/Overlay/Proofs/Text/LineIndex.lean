import Mathlib.Data.List.Induction
import Overlay.Proofs.Text.Offsets

/-!
# Places by line starts

The index of a text answers like a walk over the text, for every offset.

* `bisect_eq`: bisection finds the border of a test.
* A text is whole lines and a last line without an end (`Text.exists_lastLine`). Walking counts the
  line ends, and on the last line the characters (`Pos.advanceAll_lines`).
* The line starts of a text are those of its front and then later ones
  (`LineIndex.startsBehind_append`), and the last one of a front is behind its whole lines
  (`LineIndex.getElem?_starts`). So the border of the starts is the last line of the front
  (`LineIndex.pos_ofText`).
-/

namespace Overlay

/-! ## Bisection -/

/-- A test that holds up to a border and fails from there on has that border found. -/
theorem bisect_eq {below : Nat → Bool} {low border high : Nat} (hlow : low ≤ border)
    (hhigh : border ≤ high) (hbelow : ∀ i < border, below i = true)
    (habove : ∀ i, border ≤ i → i < high → below i = false) : bisect below low high = border := by
  fun_induction bisect below low high with
  | case1 low high hlt middle hmiddle ih =>
    have hborder : middle < border := by
      by_contra hle
      rw [habove middle (by omega) (by omega)] at hmiddle
      cases hmiddle
    exact ih hborder hhigh habove
  | case2 low high hlt middle hmiddle ih =>
    have hborder : border ≤ middle := by
      by_contra hle
      exact hmiddle (hbelow middle (by omega))
    exact ih hlow hborder fun i hi hi' => habove i hi (by omega)
  | case3 low high hge => omega

/-- Numbers up to a bound with greater ones behind them are told from those. -/
theorem bisect_append {xs ys : List Nat} {bound : Nat} (hxs : ∀ x ∈ xs, x ≤ bound)
    (hys : ∀ y ∈ ys, bound < y) :
    bisect (fun i => (xs ++ ys)[i]?.getD 0 ≤ bound) 0 (xs ++ ys).length = xs.length := by
  refine bisect_eq (Nat.zero_le _) ?_ ?_ ?_
  · rw [List.length_append]
    exact Nat.le_add_right _ _
  · intro i hi
    rw [List.getElem?_append_left hi, List.getElem?_eq_getElem hi]
    exact decide_eq_true (hxs _ (List.getElem_mem hi))
  · intro i hi hlt
    have hrest : i - xs.length < ys.length := by
      rw [List.length_append] at hlt
      omega
    rw [List.getElem?_append_right hi, List.getElem?_eq_getElem hrest]
    exact decide_eq_false (Nat.not_le.2 (hys _ (List.getElem_mem hrest)))

/-! ## Whole lines and a last one -/

namespace Text

/-- The characters are lines with their ends, so a line starts behind them. -/
def WholeLines (cs : List Char) : Prop := cs = [] ∨ ∃ front, cs = front ++ ['\n']

theorem exists_lastLine (cs : List Char) :
    ∃ lines last, cs = lines ++ last ∧ WholeLines lines ∧ '\n' ∉ last := by
  induction cs using List.reverseRecOn with
  | nil => exact ⟨[], [], rfl, .inl rfl, List.not_mem_nil⟩
  | append_singleton cs c ih =>
    by_cases hc : c = '\n'
    · subst hc
      exact ⟨cs ++ ['\n'], [], (List.append_nil _).symm, .inr ⟨cs, rfl⟩, List.not_mem_nil⟩
    · rcases ih with ⟨lines, last, rfl, hlines, hlast⟩
      refine ⟨lines, last ++ [c], List.append_assoc .., hlines, ?_⟩
      rw [List.mem_append, List.mem_singleton, not_or]
      exact ⟨hlast, Ne.symm hc⟩

end Text

namespace Pos

open Text (WholeLines byteLength)

variable {lines line last : List Char}

/-- Without a line end the characters are counted. -/
theorem advanceAll_inline (p : Pos) (h : '\n' ∉ line) :
    p.advanceAll line = ⟨p.line, p.column + line.length, p.byte + byteLength line⟩ := by
  induction line generalizing p with
  | nil => rfl
  | cons c cs ih =>
    rw [List.mem_cons, not_or] at h
    have hnext : p.advance c = ⟨p.line, p.column + 1, p.byte + c.utf8Size⟩ := if_neg (Ne.symm h.1)
    rw [advanceAll_cons, ih _ h.2, hnext, List.length_cons, Text.byteLength_cons, Nat.add_assoc,
      Nat.add_comm 1, Nat.add_assoc]

/-- Whole lines are counted by their ends, and the line behind them starts. -/
theorem advanceAll_wholeLines (h : WholeLines lines) :
    start.advanceAll lines = ⟨lines.count '\n' + 1, 1, byteLength lines⟩ := by
  have hline : (start.advanceAll lines).line = lines.count '\n' + 1 :=
    (advanceAll_line start lines).trans (Nat.add_comm ..)
  have hcolumn : (start.advanceAll lines).column = 1 := by
    rcases h with rfl | ⟨front, rfl⟩
    · rfl
    · rw [advanceAll_append]
      rfl
  rw [← hline, ← hcolumn, ← start_advanceAll_byte]

theorem advanceAll_lines (hlines : WholeLines lines) (hlast : '\n' ∉ last) :
    start.advanceAll (lines ++ last) =
      ⟨lines.count '\n' + 1, last.length + 1, byteLength (lines ++ last)⟩ := by
  rw [advanceAll_append, advanceAll_wholeLines hlines, advanceAll_inline _ hlast,
    Text.byteLength_append, Nat.add_comm 1]

end Pos

/-! ## Line starts -/

namespace LineIndex

open Text (WholeLines CutBy byteLength)

variable {lines : List Char} {offset : Nat}

theorem startsBehind_append (offset : Nat) (xs ys : List Char) :
    startsBehind offset (xs ++ ys) =
      startsBehind offset xs ++ startsBehind (offset + byteLength xs) ys := by
  induction xs generalizing offset with
  | nil => rfl
  | cons c cs ih =>
    rw [List.cons_append, startsBehind, startsBehind, ih, Text.byteLength_cons, Nat.add_assoc]
    split <;> rfl

/-- A line starts behind every line end. -/
theorem length_startsBehind (offset : Nat) (cs : List Char) :
    (startsBehind offset cs).length = cs.count '\n' := by
  induction cs generalizing offset with
  | nil => rfl
  | cons c cs ih =>
    rw [startsBehind, List.count_cons]
    by_cases hc : c = '\n'
    · simp [hc, ih]
    · simp [hc, ih]

/-- Lines start behind the place, and not behind the text. -/
theorem mem_startsBehind {start : Nat} {cs : List Char} (h : start ∈ startsBehind offset cs) :
    offset < start ∧ start ≤ offset + byteLength cs := by
  induction cs generalizing offset with
  | nil => cases h
  | cons c cs ih =>
    have hpos := c.utf8Size_pos
    rw [Text.byteLength_cons]
    have hmem : start = offset + c.utf8Size ∨ start ∈ startsBehind (offset + c.utf8Size) cs := by
      rw [startsBehind] at h
      split at h
      · exact List.mem_cons.1 h
      · exact .inr h
    rcases hmem with rfl | hrest
    · omega
    · have hbounds := ih hrest
      omega

/-- Behind whole lines a line starts, whatever follows. -/
theorem getElem?_starts (h : WholeLines lines) (more : List Char) :
    (0 :: startsBehind 0 (lines ++ more))[lines.count '\n']? = some (byteLength lines) := by
  rcases h with rfl | ⟨front, rfl⟩
  · rfl
  · have hstarts : startsBehind 0 (front ++ ['\n'] ++ more) = startsBehind 0 front ++
        byteLength (front ++ ['\n']) :: startsBehind (byteLength (front ++ ['\n'])) more := by
      rw [startsBehind_append, startsBehind_append, Nat.zero_add, Nat.zero_add,
        Text.byteLength_append, List.append_assoc]
      rfl
    have hcount : (front ++ ['\n']).count '\n' = (startsBehind 0 front).length + 1 := by
      rw [length_startsBehind, List.count_append, List.count_singleton_self]
    rw [hcount, List.getElem?_cons_succ, hstarts, List.getElem?_append_right (Nat.le_refl _),
      Nat.sub_self, List.getElem?_cons_zero]

/-- Of the line starts of a text, as many as the front has lines are not behind the front. -/
theorem bisect_starts (front back : List Char) :
    let starts := 0 :: startsBehind 0 (front ++ back)
    bisect (fun i => starts[i]?.getD 0 ≤ byteLength front) 0 starts.length =
      front.count '\n' + 1 := by
  intro starts
  have hstarts : starts = (0 :: startsBehind 0 front) ++ startsBehind (byteLength front) back := by
    simp only [starts, startsBehind_append, Nat.zero_add, List.cons_append]
  rw [hstarts, bisect_append, List.length_cons, length_startsBehind]
  · intro start hstart
    rcases List.mem_cons.1 hstart with rfl | hstart
    · exact Nat.zero_le _
    · have hbounds := mem_startsBehind hstart
      omega
  · exact fun start hstart => (mem_startsBehind hstart).1

/-- The index finds the place of every offset that walking finds, inside a character and past the
end too. -/
theorem pos_ofText (text : String) (offset : Nat) :
    (ofText text).pos offset = Pos.ofOffset text offset := by
  rcases Text.exists_cut offset text.toList with ⟨front, back, htext, hcut⟩
  rcases Text.exists_lastLine front with ⟨lines, last, rfl, hlines, hlast⟩
  have hfloor : Text.floorBoundary text.toList offset = byteLength (lines ++ last) := by
    rw [htext, Text.floorBoundary_cut hcut]
  -- The last line of the front is the last one that starts in front of the offset.
  have hcount : (lines ++ last).count '\n' = lines.count '\n' := by
    rw [List.count_append, List.count_eq_zero.2 hlast, Nat.add_zero]
  have hline := bisect_starts (lines ++ last) back
  have hstart := getElem?_starts hlines (last ++ back)
  rw [← List.append_assoc] at hstart
  rw [← htext] at hline hstart
  -- What stands between its start and the offset is the last line.
  have hbefore : Text.takeBytes text.toList (byteLength (lines ++ last)) = lines ++ last := by
    rw [htext, Text.takeBytes_cut (Text.cutBy_byteLength _ _)]
  have hfront : Text.takeBytes text.toList (byteLength lines) = lines := by
    rw [htext, List.append_assoc, Text.takeBytes_cut (Text.cutBy_byteLength _ _)]
  rw [Pos.ofOffset_cut htext hcut, Pos.advanceAll_lines hlines hlast]
  simp only [pos, ofText, hfloor, Array.getD_eq_getD_getElem?, List.getElem?_toArray,
    List.size_toArray, hline, hcount, Nat.add_sub_cancel, hstart, Option.getD_some, hbefore, hfront,
    List.drop_left]

end LineIndex

end Overlay
