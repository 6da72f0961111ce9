import Overlay.Proofs.Text.Position

/-!
# Places of byte offsets

* An offset cuts a text behind the characters that end at or before it (`Text.CutBy`), and every
  offset does so, inside a character and past the end too (`Text.exists_cut`).
* Whatever looks an offset up is told by this cut: `Text.floorBoundary_cut`, `Text.takeBytes_cut`
  and `Pos.ofOffset_cut`.
* The place of an offset is a place of the text (`Pos.isPlace_ofOffset`), and a later offset has a
  later place or the same one (`Pos.ofOffset_mono`).
-/

namespace Overlay

namespace Text

variable {offset : Nat} {c : Char} {front back : List Char}

/-- The characters `front` end at or before the byte `offset` of `front ++ back`, and the next one
ends behind it. -/
def CutBy (offset : Nat) (front back : List Char) : Prop :=
  byteLength front ≤ offset ∧ ∀ c ∈ back.head?, offset < byteLength front + c.utf8Size

theorem cutBy_end (offset : Nat) : CutBy offset [] [] :=
  ⟨Nat.zero_le _, fun _ hc => nomatch hc⟩

theorem cutBy_nil : CutBy offset [] (c :: back) ↔ offset < c.utf8Size := by
  simp [CutBy]

theorem cutBy_cons :
    CutBy offset (c :: front) back ↔
      c.utf8Size ≤ offset ∧ CutBy (offset - c.utf8Size) front back := by
  simp only [CutBy, byteLength_cons]
  constructor
  · rintro ⟨hfront, hback⟩
    refine ⟨by omega, by omega, fun d hd => ?_⟩
    have hnext := hback d hd
    omega
  · rintro ⟨hc, hfront, hback⟩
    refine ⟨by omega, fun d hd => ?_⟩
    have hnext := hback d hd
    omega

theorem exists_cut (offset : Nat) (cs : List Char) :
    ∃ front back, cs = front ++ back ∧ CutBy offset front back := by
  induction cs generalizing offset with
  | nil => exact ⟨[], [], rfl, cutBy_end offset⟩
  | cons c cs ih =>
    by_cases hc : c.utf8Size ≤ offset
    · rcases ih (offset - c.utf8Size) with ⟨front, back, rfl, hcut⟩
      exact ⟨c :: front, back, rfl, cutBy_cons.2 ⟨hc, hcut⟩⟩
    · exact ⟨[], c :: cs, rfl, cutBy_nil.2 (Nat.lt_of_not_le hc)⟩

/-- A text is cut by the number of bytes in front. -/
theorem cutBy_byteLength (front back : List Char) : CutBy (byteLength front) front back :=
  ⟨Nat.le_refl _, fun c _ => Nat.lt_add_of_pos_right c.utf8Size_pos⟩

/-- What stands in front moves the cut by its bytes. -/
theorem CutBy.append_left (more : List Char) (h : CutBy offset front back) :
    CutBy (byteLength more + offset) (more ++ front) back := by
  rcases h with ⟨hfront, hback⟩
  rw [CutBy, byteLength_append]
  refine ⟨by omega, fun c hc => ?_⟩
  have hnext := hback c hc
  omega

/-- What stands behind the next character does not matter. -/
theorem CutBy.append_right (more : List Char) (h : CutBy offset front (c :: back)) :
    CutBy offset front (c :: back ++ more) := h

/-- Of two cuts of a text the one at the later offset goes on behind the other. -/
theorem CutBy.exists_append {offset' : Nat} {front' back' : List Char} (h : CutBy offset front back)
    (h' : CutBy offset' front' back') (htext : front ++ back = front' ++ back')
    (hle : offset ≤ offset') : ∃ more, front' = front ++ more := by
  rcases List.append_eq_append_iff.1 htext with ⟨more, hmore, -⟩ | ⟨more, rfl, rfl⟩
  · exact ⟨more, hmore⟩
  · rcases more with - | ⟨c, cs⟩
    · exact ⟨[], by simp⟩
    · -- The next character of the later cut would end at or before the earlier offset.
      have hend := h.1
      have hnext := h'.2 c (by simp)
      rw [byteLength_append, byteLength_cons] at hend
      omega

theorem floorBoundary_cut (h : CutBy offset front back) :
    floorBoundary (front ++ back) offset = byteLength front := by
  induction front generalizing offset with
  | nil =>
    cases back with
    | nil => rfl
    | cons c cs => rw [List.nil_append, floorBoundary, if_pos (cutBy_nil.1 h), byteLength_nil]
  | cons c cs ih =>
    rcases cutBy_cons.1 h with ⟨hc, hrest⟩
    rw [List.cons_append, floorBoundary, if_neg (Nat.not_lt.2 hc), ih hrest, byteLength_cons]

theorem takeBytes_cut (h : CutBy offset front back) : takeBytes (front ++ back) offset = front := by
  induction front generalizing offset with
  | nil =>
    cases back with
    | nil => rfl
    | cons c cs => rw [List.nil_append, takeBytes, if_pos (cutBy_nil.1 h)]
  | cons c cs ih =>
    rcases cutBy_cons.1 h with ⟨hc, hrest⟩
    rw [List.cons_append, takeBytes, if_neg (Nat.not_lt.2 hc), ih hrest]

end Text

namespace Pos

open Text (CutBy byteLength)

variable {text : String} {p : Pos} {offset : Nat} {front back : List Char}

theorem walkToOffset_cut (p : Pos) (h : CutBy offset front back) :
    p.walkToOffset (p.byte + offset) (front ++ back) = p.advanceAll front := by
  induction front generalizing p offset with
  | nil =>
    cases back with
    | nil => rfl
    | cons c cs =>
      have hnext := Text.cutBy_nil.1 h
      rw [List.nil_append, walkToOffset, if_pos (by omega), advanceAll_nil]
  | cons c cs ih =>
    rcases Text.cutBy_cons.1 h with ⟨hc, hrest⟩
    have hoffset : p.byte + offset = (p.advance c).byte + (offset - c.utf8Size) := by
      rw [advance_byte]
      omega
    rw [List.cons_append, walkToOffset, if_neg (by omega), hoffset, ih (p.advance c) hrest,
      advanceAll_cons]

theorem ofOffset_cut (htext : text.toList = front ++ back) (h : CutBy offset front back) :
    ofOffset text offset = start.advanceAll front := by
  have hwalk := walkToOffset_cut start h
  have hzero : start.byte + offset = offset := Nat.zero_add offset
  rwa [hzero, ← htext] at hwalk

/-- From the start of a text walking counts the bytes. -/
theorem start_advanceAll_byte (cs : List Char) : (start.advanceAll cs).byte = byteLength cs :=
  (advanceAll_byte start cs).trans (Nat.zero_add _)

theorem ofOffset_byte_le (text : String) (offset : Nat) : (ofOffset text offset).byte ≤ offset := by
  rcases Text.exists_cut offset text.toList with ⟨front, back, htext, hcut⟩
  rw [ofOffset_cut htext hcut, start_advanceAll_byte]
  exact hcut.1

theorem isPlace_ofOffset (text : String) (offset : Nat) : IsPlace text (ofOffset text offset) := by
  rcases Text.exists_cut offset text.toList with ⟨front, back, htext, hcut⟩
  exact ⟨front, back, htext, ofOffset_cut htext hcut⟩

/-- The places of a text are those that their bytes lead back to. -/
theorem isPlace_iff : IsPlace text p ↔ ofOffset text p.byte = p :=
  ⟨IsPlace.ofOffset_byte, fun h => h ▸ isPlace_ofOffset text p.byte⟩

/-- A later offset has a later place, or the same one. -/
theorem ofOffset_mono (text : String) {a b : Nat} (h : a ≤ b) :
    ofOffset text a ≤ ofOffset text b := by
  rcases Text.exists_cut a text.toList with ⟨front, back, htext, hcut⟩
  rcases Text.exists_cut b text.toList with ⟨front', back', htext', hcut'⟩
  rcases hcut.exists_append hcut' (htext.symm.trans htext') h with ⟨more, rfl⟩
  rw [ofOffset_cut htext hcut, ofOffset_cut htext' hcut', advanceAll_append]
  exact le_advanceAll _ more

end Pos

end Overlay
