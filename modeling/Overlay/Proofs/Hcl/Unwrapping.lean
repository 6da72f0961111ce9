import Overlay.Hcl.Container
import Overlay.Proofs.Text.Position

/-!
# Places in a wrapped text

* `Wrapped.shift` takes a place in the content to its place in the wrapped text: one line down, the
  same column, and as many bytes on as stand in front.
* Walking goes along with it (`shift_steady`), and unwrapping takes it back
  (`wrapsSpan_shiftSpan`). Whatever stands behind the content stands for its end
  (`wraps_endOf`).
* Whatever span of the wrapped text is unwrapped, it becomes a stretch of the content
  (`unwrapSpan_isStretch`).
-/

namespace Overlay.Hcl.Wrapped

/-! ## Shifting -/

/-- The place in the wrapped text of a place in the content. -/
def shift (p : Pos) : Pos := ⟨p.line + 1, p.column, p.byte + frontLength⟩

/-- The span in the wrapped text of a span in the content. -/
def shiftSpan (s : Span) : Span := s.map shift

theorem shift_start : shift .start = Pos.start.advanceAll wrapperFront.toList := by decide

theorem shift_steady : Pos.Steady shift := by
  intro p c
  unfold Pos.advance
  by_cases h : c = '\n'
  · simp only [h, if_true, shift, Nat.add_right_comm]
  · simp only [h, if_false, shift, Nat.add_right_comm]

theorem shift_le_shift {p q : Pos} : shift p ≤ shift q ↔ p ≤ q := by
  simp only [Pos.le_def, shift]
  omega

/-- A place of the content is moved in the wrapped text as it is moved in the content. -/
theorem rebase_shift (q r p : Pos) :
    Pos.rebase (shift q) (shift r) (shift p) = shift (Pos.rebase q r p) := by
  simp only [Pos.rebase, shift, Nat.add_right_cancel_iff, Nat.add_sub_add_right, Pos.mk.injEq,
    true_and]
  omega

/-! ## Unwrapping -/

/-- The span in the content that a span in the wrapped text stands for. -/
def unwrapSpan (w : Wrapped) (s : Span) : Span :=
  if s.start.line ≤ 1 ∨ s.start.byte < frontLength then .point .start
  else ⟨w.unwrapPos s.start, Pos.latest (w.unwrapPos s.stop) (w.unwrapPos s.start)⟩

theorem unwrapRange_within (w : Wrapped) (s : Span) (filename : String) :
    w.unwrapRange (s.within filename) = (w.unwrapSpan s).within filename := by
  unfold unwrapRange unwrapSpan
  by_cases h : s.start.line ≤ 1 ∨ s.start.byte < frontLength
  · have hin : (s.within filename).start.line ≤ 1 ∨
        (s.within filename).start.byte < frontLength := h
    simp only [h, hin, if_true]
    rfl
  · have hin : ¬((s.within filename).start.line ≤ 1 ∨
        (s.within filename).start.byte < frontLength) := h
    simp only [h, hin, if_false]
    rfl

variable {w : Wrapped}

theorem unwrapPos_shift {p : Pos} (hline : 1 ≤ p.line) (hbyte : p.byte ≤ w.content.utf8ByteSize) :
    w.unwrapPos (shift p) = p := by
  have hinside : ¬((shift p).line ≤ 1 ∨ (shift p).byte < frontLength) := by
    simp only [shift]
    omega
  have hback : (shift p).byte - frontLength = p.byte := Nat.add_sub_cancel _ _
  unfold unwrapPos
  rw [if_neg hinside, hback, if_neg (by omega)]
  rfl

theorem unwrapPos_behind {p : Pos} (hline : 1 < p.line)
    (hbyte : frontLength + w.content.utf8ByteSize < p.byte) :
    w.unwrapPos p = .endOf w.content := by
  unfold unwrapPos
  rw [if_neg (by omega), if_pos (by omega)]

theorem unwrapSpan_eq {s : Span} {a b : Pos} (hline : 1 < s.start.line)
    (hbyte : frontLength ≤ s.start.byte) (ha : w.unwrapPos s.start = a)
    (hb : w.unwrapPos s.stop = b) (hab : a ≤ b) : w.unwrapSpan s = ⟨a, b⟩ := by
  unfold unwrapSpan
  rw [if_neg (by omega), ha, hb, Pos.latest_of_le hab]

/-- A place in the content. -/
def Holds (w : Wrapped) (p : Pos) : Prop := 1 ≤ p.line ∧ p ≤ .endOf w.content ∧
  p.byte ≤ w.content.utf8ByteSize

theorem holds_advanceAll {front back : List Char} (h : w.content.toList = front ++ back) :
    w.Holds (Pos.start.advanceAll front) := by
  have hend : Pos.endOf w.content = (Pos.start.advanceAll front).advanceAll back := by
    rw [Pos.endOf, h, Pos.advanceAll_append]
  refine ⟨Pos.line_le_of_le (Pos.le_advanceAll .start front), ?_, ?_⟩
  · rw [hend]
    exact Pos.le_advanceAll _ _
  · rw [← Pos.endOf_byte, hend, Pos.advanceAll_byte _ back]
    exact Nat.le_add_right _ _

theorem holds_endOf : w.Holds (.endOf w.content) :=
  holds_advanceAll (List.append_nil w.content.toList).symm

/-- The place `p'` of the wrapped text, on a later line, stands for `p`. -/
structure Wraps (w : Wrapped) (p p' : Pos) : Prop where
  first : 1 ≤ p.line
  line : p.line < p'.line
  byte : frontLength ≤ p'.byte
  unwrap : w.unwrapPos p' = p

theorem Wraps.one_lt {p p' : Pos} (h : w.Wraps p p') : 1 < p'.line :=
  Nat.lt_of_le_of_lt h.first h.line

/-- The span `s'` of the wrapped text stands for `s`. -/
structure WrapsSpan (w : Wrapped) (s s' : Span) : Prop where
  start : w.Wraps s.start s'.start
  stop : w.Wraps s.stop s'.stop
  le : s.start ≤ s.stop

/-- The function takes a span to the one that it stands for. -/
def Unwraps (w : Wrapped) (f : Span → Span) : Prop := ∀ {s s'}, w.WrapsSpan s s' → f s' = s

theorem unwraps_unwrapSpan : w.Unwraps w.unwrapSpan := fun h =>
  unwrapSpan_eq h.start.one_lt h.start.byte h.start.unwrap h.stop.unwrap h.le

/-- Where this function takes a span to the same place as unwrapping, the span stands for that
place: all others it puts one line further down. -/
theorem exists_unwraps (w : Wrapped) :
    ∃ f, w.Unwraps f ∧ ∀ s', f s' = w.unwrapSpan s' → w.WrapsSpan (w.unwrapSpan s') s' := by
  classical
  refine ⟨fun s' => if w.WrapsSpan (w.unwrapSpan s') s' then w.unwrapSpan s'
    else (w.unwrapSpan s').map shift, ?_, ?_⟩
  · intro s s' h
    have hunwrap : w.unwrapSpan s' = s := unwraps_unwrapSpan h
    have hspan : w.WrapsSpan (w.unwrapSpan s') s' := by
      rw [hunwrap]
      exact h
    show (if w.WrapsSpan (w.unwrapSpan s') s' then w.unwrapSpan s' else _) = s
    rw [if_pos hspan, hunwrap]
  · intro s' heq
    by_cases hspan : w.WrapsSpan (w.unwrapSpan s') s'
    · exact hspan
    · simp only [hspan, if_false] at heq
      have hline : (w.unwrapSpan s').start.line + 1 = (w.unwrapSpan s').start.line :=
        congrArg (fun s : Span => s.start.line) heq
      exact absurd hline (Nat.succ_ne_self _)

theorem wraps_shift {p : Pos} (h : w.Holds p) : w.Wraps p (shift p) :=
  ⟨h.1, Nat.lt_succ_self _, Nat.le_add_left _ _, unwrapPos_shift h.1 h.2.2⟩

/-- Whatever stands behind the content stands for its end. -/
theorem wraps_endOf (w : Wrapped) (cs : List Char) :
    w.Wraps (.endOf w.content) ((shift (.endOf w.content)).advanceAll cs) := by
  have hline := Pos.line_le_of_le (Pos.le_advanceAll (shift (.endOf w.content)) cs)
  cases cs with
  | nil => exact wraps_shift holds_endOf
  | cons c cs =>
    -- Behind the end of the content unwrapping stops at that end.
    have hbehind : frontLength + w.content.utf8ByteSize <
        ((shift (.endOf w.content)).advanceAll (c :: cs)).byte := by
      have hpos := c.utf8Size_pos
      rw [Pos.advanceAll_byte, Text.byteLength_cons]
      simp only [shift, Pos.endOf_byte]
      omega
    have hfirst : 1 ≤ (Pos.endOf w.content).line := holds_endOf.1
    exact ⟨hfirst, hline, by omega, unwrapPos_behind (Nat.lt_of_le_of_lt hfirst hline) hbehind⟩

theorem wrapsSpan_shiftSpan {s : Span} (h : s.IsStretch .start w.content.toList) :
    w.WrapsSpan s (shiftSpan s) := by
  have hle := h.le
  rcases h with ⟨front, inner, back, hcontent, rfl⟩
  have hstart := holds_advanceAll (w := w) (hcontent.trans (List.append_assoc ..))
  have hstop := holds_advanceAll (w := w) hcontent
  exact ⟨wraps_shift hstart, wraps_shift hstop, hle⟩

/-! ## Any place -/

/-- A front of a text that takes more bytes than a part at its start goes on behind that part. -/
theorem exists_append_of_byte_le {xs ys front back : List Char} (h : xs ++ ys = front ++ back)
    (hle : Text.byteLength xs ≤ Text.byteLength front) :
    ∃ more, front = xs ++ more ∧ ys = more ++ back := by
  rcases List.append_eq_append_iff.1 h with ⟨more, rfl, rfl⟩ | ⟨more, rfl, rfl⟩
  · exact ⟨more, rfl, rfl⟩
  · -- The part is longer than the front by characters without bytes, and there are none.
    rcases more with - | ⟨c, cs⟩
    · exact ⟨[], by simp, rfl⟩
    · have hpos := c.utf8Size_pos
      rw [Text.byteLength_append, Text.byteLength_cons] at hle
      omega

theorem byteLength_wrapperFront : Text.byteLength wrapperFront.toList = frontLength := by decide

theorem byteLength_content (w : Wrapped) :
    Text.byteLength w.content.toList = w.content.utf8ByteSize := by
  have hend := Pos.endOf_byte w.content
  rw [Pos.endOf, Pos.advanceAll_byte] at hend
  exact (Nat.zero_add _).symm.trans hend

/-- Every place of the wrapped text stands for one of the content. -/
theorem unwrapPos_isPlace {p : Pos} (h : Pos.IsPlace w.text p) :
    Pos.IsPlace w.content (w.unwrapPos p) := by
  by_cases hfront : p.line ≤ 1 ∨ p.byte < frontLength
  · unfold unwrapPos
    rw [if_pos hfront]
    exact Pos.isPlace_start _
  · by_cases hback : w.content.utf8ByteSize < p.byte - frontLength
    · unfold unwrapPos
      rw [if_neg hfront, if_pos hback]
      exact Pos.isPlace_endOf _
    · rcases h with ⟨front, back, htext, rfl⟩
      have hbyte : (Pos.start.advanceAll front).byte = Text.byteLength front := by
        rw [Pos.advanceAll_byte]
        exact Nat.zero_add _
      rw [hbyte] at hfront hback
      -- The place is reached through the front and then through a part of the content.
      have hparts : wrapperFront.toList ++ (w.content.toList ++ wrapperBack.toList) =
          front ++ back := by
        rw [← htext, text, String.toList_append, String.toList_append, List.append_assoc]
      rcases exists_append_of_byte_le hparts (by rw [byteLength_wrapperFront]; omega) with
        ⟨more, rfl, hcontent⟩
      rw [Text.byteLength_append, byteLength_wrapperFront] at hback
      have hmore : ∃ rest, w.content.toList = more ++ rest := by
        rcases List.append_eq_append_iff.1 hcontent with ⟨extra, hover, -⟩ | ⟨rest, hrest, -⟩
        · rcases extra with - | ⟨c, cs⟩
          · exact ⟨[], by rw [hover, List.append_nil, List.append_nil]⟩
          · have hpos := c.utf8Size_pos
            rw [hover, Text.byteLength_append, Text.byteLength_cons, byteLength_content] at hback
            omega
        · exact ⟨rest, hrest⟩
      rcases hmore with ⟨rest, hrest⟩
      have hholds := holds_advanceAll hrest
      have hshift : Pos.start.advanceAll (wrapperFront.toList ++ more) =
          shift (Pos.start.advanceAll more) := by
        rw [Pos.advanceAll_append, ← shift_start, shift_steady.advanceAll]
      rw [hshift, unwrapPos_shift hholds.1 hholds.2.2]
      exact ⟨more, rest, hrest, rfl⟩

/-- The span that a span of the wrapped text stands for is a stretch of the content, whatever the
order of its ends. -/
theorem unwrapSpan_isStretch {s : Span} (hstart : Pos.IsPlace w.text s.start)
    (hstop : Pos.IsPlace w.text s.stop) :
    (w.unwrapSpan s).IsStretch .start w.content.toList := by
  unfold unwrapSpan
  split
  · exact ⟨[], [], w.content.toList, rfl, rfl⟩
  · have hstart := unwrapPos_isPlace hstart
    have hstop := unwrapPos_isPlace hstop
    rcases Pos.latest_cases (w.unwrapPos s.stop) (w.unwrapPos s.start) with ⟨hlatest, hle⟩ | hlatest
    · rw [hlatest]
      exact Pos.isStretch_of_le hstart hstop hle
    · rw [hlatest]
      exact Pos.isStretch_of_le hstart hstart (Pos.le_refl _)

end Overlay.Hcl.Wrapped
