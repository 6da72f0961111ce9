import Overlay.Proofs.Hcl.Unwrapping
import Overlay.Proofs.Text.Offsets

/-!
# Offsets in a wrapped text

Unwrapping a place of a wrapped text takes off the bytes in front of the content and stays within
the content, in its line and column as in its byte.

* An offset behind the front cuts the wrapped text where it cuts the content, or behind the content
  (`unwrapPos_behind_front`); one in the front stands for the start. So `unwrapPos_ofOffset` holds
  for every offset.
* A place behind the front is not on the first line (`one_lt_line`), so ranges are told by the bytes
  of their ends (`unwrap_exact`).
-/

namespace Overlay.Hcl.Wrapped

open Pos (IsPlace)
open Text (CutBy byteLength)

variable {w : Wrapped} {p : Pos}

/-- The offset in the content that an offset in the wrapped text stands for. -/
def unwrapOffset (w : Wrapped) (offset : Nat) : Nat :=
  min (offset - frontLength) w.content.utf8ByteSize

theorem unwrapOffset_mono (w : Wrapped) {a b : Nat} (h : a ≤ b) :
    w.unwrapOffset a ≤ w.unwrapOffset b := by
  unfold unwrapOffset
  omega

theorem toList_text (w : Wrapped) :
    w.text.toList = wrapperFront.toList ++ (w.content.toList ++ wrapperBack.toList) := by
  rw [text, String.toList_append, String.toList_append, List.append_assoc]

/-- A cut behind the front, in the wrapped text. -/
theorem ofOffset_text {offset : Nat} {inner rest : List Char}
    (htext : w.content.toList ++ wrapperBack.toList = inner ++ rest) (h : CutBy offset inner rest) :
    Pos.ofOffset w.text (frontLength + offset) = (shift .start).advanceAll inner := by
  have hcut := h.append_left wrapperFront.toList
  rw [byteLength_wrapperFront] at hcut
  have hplace := Pos.ofOffset_cut (by rw [toList_text, htext, List.append_assoc]) hcut
  rw [hplace, Pos.advanceAll_append, shift_start]

theorem unwrapPos_behind_front (w : Wrapped) (offset : Nat) :
    w.unwrapPos (.ofOffset w.text (frontLength + offset)) =
      .ofOffset w.content (min offset w.content.utf8ByteSize) := by
  rcases Text.exists_cut offset w.content.toList with ⟨inner, rest, hcontent, hcut⟩
  have hsize := byteLength_content w
  rcases rest with - | ⟨c, cs⟩
  · -- The offset is not in front of the end, and what it reaches into stands for the end.
    rw [List.append_nil] at hcontent
    have hle : w.content.utf8ByteSize ≤ offset := by
      rw [← hsize, hcontent]
      exact hcut.1
    rcases Text.exists_cut (offset - w.content.utf8ByteSize) wrapperBack.toList with
      ⟨inner', rest', hback, hcut'⟩
    have hover := hcut'.append_left w.content.toList
    rw [hsize, Nat.add_sub_cancel' hle] at hover
    have hend : Pos.ofOffset w.content w.content.utf8ByteSize = .endOf w.content := by
      rw [← Pos.endOf_byte]
      exact (Pos.isPlace_endOf w.content).ofOffset_byte
    rw [ofOffset_text (by rw [hback, List.append_assoc]) hover, Pos.advanceAll_append,
      ← shift_steady.advanceAll, Nat.min_eq_right hle, hend]
    exact (wraps_endOf w inner').unwrap
  · -- The next character of the content is the next one of the wrapped text.
    have hlt : offset < w.content.utf8ByteSize := by
      have hnext := hcut.2 c rfl
      rw [← hsize, hcontent, Text.byteLength_append, Text.byteLength_cons]
      omega
    have hholds := holds_advanceAll hcontent
    rw [ofOffset_text (by rw [hcontent, List.append_assoc]) (hcut.append_right wrapperBack.toList),
      ← shift_steady.advanceAll, unwrapPos_shift hholds.1 hholds.2.2,
      Nat.min_eq_left (Nat.le_of_lt hlt), Pos.ofOffset_cut hcontent hcut]

theorem unwrapPos_ofOffset (w : Wrapped) (offset : Nat) :
    w.unwrapPos (.ofOffset w.text offset) = .ofOffset w.content (w.unwrapOffset offset) := by
  by_cases hfront : offset < frontLength
  · have hbyte := Pos.ofOffset_byte_le w.text offset
    have hzero : w.unwrapOffset offset = 0 := by
      unfold unwrapOffset
      omega
    have hstart : Pos.ofOffset w.content 0 = .start := (Pos.isPlace_start w.content).ofOffset_byte
    rw [hzero, hstart, unwrapPos, if_pos (.inr (by omega))]
  · have hbehind := unwrapPos_behind_front w (offset - frontLength)
    rwa [Nat.add_sub_cancel' (Nat.le_of_not_lt hfront)] at hbehind

/-- Behind the front the first line has ended. -/
theorem one_lt_line (h : IsPlace w.text p) (hbyte : frontLength ≤ p.byte) : 1 < p.line := by
  rcases h with ⟨front, back, htext, rfl⟩
  have hlength : byteLength wrapperFront.toList ≤ byteLength front := by
    rwa [Pos.start_advanceAll_byte, ← byteLength_wrapperFront] at hbyte
  rcases exists_append_of_byte_le ((toList_text w).symm.trans htext) hlength with ⟨more, rfl, -⟩
  rw [Pos.advanceAll_append, ← shift_start]
  exact Pos.line_le_of_le (Pos.le_advanceAll (shift .start) more)

/-- Unwrapping the place of an offset of the wrapped text gives the place of the offset that it
stands for. A range of the wrapped text whose ends are in order stands for the range between the
places of its ends if it starts behind the front, and for the empty range at the start otherwise. -/
theorem unwrap_exact (w : Wrapped) :
    (∀ offset, w.unwrapPos (.ofOffset w.text offset) =
      .ofOffset w.content (w.unwrapOffset offset)) ∧
    ∀ r : SourceRange, IsPlace w.text r.start → IsPlace w.text r.stop → r.start ≤ r.stop →
      (frontLength ≤ r.start.byte → w.unwrapRange r =
        ⟨r.filename, .ofOffset w.content (w.unwrapOffset r.start.byte),
          .ofOffset w.content (w.unwrapOffset r.stop.byte)⟩) ∧
      (r.start.byte < frontLength → w.unwrapRange r = .point r.filename .start) := by
  refine ⟨unwrapPos_ofOffset w, fun r hstart hstop hle => ⟨fun hbehind => ?_, fun hfront => ?_⟩⟩
  · have hline := one_lt_line hstart hbehind
    have hends := Pos.ofOffset_mono w.content (unwrapOffset_mono w (hstart.byte_mono hstop hle))
    have hunwrap : ∀ {p}, IsPlace w.text p →
        w.unwrapPos p = .ofOffset w.content (w.unwrapOffset p.byte) := by
      intro p hp
      rw [← unwrapPos_ofOffset, hp.ofOffset_byte]
    rw [unwrapRange, if_neg (by omega), hunwrap hstart, hunwrap hstop]
    simp only [Pos.latest_of_le hends]
  · rw [unwrapRange, if_pos (.inr hfront)]

/-- One range goes from behind a wide character over the end of the content, and one starts in
front. -/
theorem unwrap_exact_overlapping :
    let w : Wrapped := ⟨"é = 1"⟩
    let behind : SourceRange := ⟨"o.hcl", ⟨2, 2, 20⟩, ⟨3, 2, 26⟩⟩
    let across : SourceRange := ⟨"o.hcl", ⟨1, 17, 16⟩, ⟨3, 2, 26⟩⟩
    IsPlace w.text behind.start ∧ IsPlace w.text behind.stop ∧ behind.start ≤ behind.stop ∧
      frontLength ≤ behind.start.byte ∧
      w.unwrapRange behind = ⟨"o.hcl", ⟨1, 2, 2⟩, ⟨1, 6, 6⟩⟩ ∧
      IsPlace w.text across.start ∧ across.start ≤ across.stop ∧ across.start.byte < frontLength ∧
      w.unwrapRange across = .point "o.hcl" .start := by
  intro w behind across
  have hbehind : IsPlace w.text behind.start := Pos.isPlace_iff.2 (by decide +kernel)
  have hstop : IsPlace w.text behind.stop := Pos.isPlace_iff.2 (by decide +kernel)
  have hacross : IsPlace w.text across.start := Pos.isPlace_iff.2 (by decide +kernel)
  have hle : behind.start ≤ behind.stop := .inl (by decide)
  have hle' : across.start ≤ across.stop := .inl (by decide)
  have hfront : frontLength ≤ behind.start.byte := by decide
  have hfront' : across.start.byte < frontLength := by decide
  have hrange := ((unwrap_exact w).2 behind hbehind hstop hle).1 hfront
  have hpoint := ((unwrap_exact w).2 across hacross hstop hle').2 hfront'
  refine ⟨hbehind, hstop, hle, hfront, ?_, hacross, hle', hfront', hpoint⟩
  rw [hrange]
  decide +kernel

end Overlay.Hcl.Wrapped
