import Mathlib.Data.List.TakeWhile
import Mathlib.Tactic.SplitIfs
import Overlay.Hcl.Quoted
import Overlay.Hcl.Token

/-!
# Quoted strings read back

* `encodeChar_cases` lists the ways in which a character is written between quotes.
* A text that is written between quotes holds quotes, backslashes and line ends in escapes only, so
  the lexeme that starts with its first quote ends with its last one (`quotedTail_encodeBody`).
* What stands between the quotes is decoded to the text, without faults (`decode_encodeBody`).
-/

namespace Overlay.Hcl

open Quoted

/-! ## How a character is written -/

namespace Quoted

/-- Whether a character is written with a backslash and the letter `x`. -/
def IsShort (c x : Char) : Prop :=
  x ≠ '\n' ∧ ∀ cs, Template.escape (x :: cs) = ⟨1, [c], none⟩

/-- The four ways in which a character is written: with a short escape, doubled in front of a
brace, by its code point, or as itself. -/
theorem encodeChar_cases (c : Char) (rest : List Char) :
    (∃ x, IsShort c x ∧ encodeChar c rest = ['\\', x]) ∨
      ((c = '$' ∨ c = '%') ∧ rest.head? = some '{' ∧ encodeChar c rest = [c, c]) ∨
      (isControl c = true ∧ encodeChar c rest = '\\' :: 'u' :: fourDigits c.toNat) ∨
      (c ≠ '"' ∧ c ≠ '\\' ∧ c ≠ '\n' ∧ ((c = '$' ∨ c = '%') → rest.head? ≠ some '{') ∧
        encodeChar c rest = [c]) := by
  unfold encodeChar
  split_ifs with hquote hslash hline hreturn htab hsequence hcontrol
  · subst hquote
    exact .inl ⟨'"', ⟨by decide, fun _ => rfl⟩, rfl⟩
  · subst hslash
    exact .inl ⟨'\\', ⟨by decide, fun _ => rfl⟩, rfl⟩
  · subst hline
    exact .inl ⟨'n', ⟨by decide, fun _ => rfl⟩, rfl⟩
  · subst hreturn
    exact .inl ⟨'r', ⟨by decide, fun _ => rfl⟩, rfl⟩
  · subst htab
    exact .inl ⟨'t', ⟨by decide, fun _ => rfl⟩, rfl⟩
  · exact .inr (.inl ⟨hsequence.1, hsequence.2, rfl⟩)
  · exact .inr (.inr (.inl ⟨hcontrol, rfl⟩))
  · refine .inr (.inr (.inr ⟨hquote, hslash, hline, ?_, rfl⟩))
    intro hsign hbrace
    exact hsequence ⟨hsign, hbrace⟩

/-- What the digits of a control character's code point are. -/
theorem fourDigits_control : ∀ n < 160, (fourDigits n).length = 4 ∧
    (∀ d ∈ fourDigits n, Template.isHexDigit d = true ∧ d ≠ '"' ∧ d ≠ '\\' ∧ d ≠ '\n') ∧
    Template.hexNumber (fourDigits n) = n := by
  have hall : ∀ n < 160, (fourDigits n).length = 4 ∧
      ((fourDigits n).all fun d => Template.isHexDigit d && d != '"' && d != '\\' && d != '\n') ∧
      Template.hexNumber (fourDigits n) = n := by
    decide +kernel
  intro n hn
  rcases hall n hn with ⟨hlength, hdigits, hnumber⟩
  refine ⟨hlength, ?_, hnumber⟩
  simpa [and_assoc] using hdigits

theorem toNat_lt_of_isControl {c : Char} (h : isControl c = true) : c.toNat < 160 := by
  simp only [isControl, Bool.or_eq_true, Bool.and_eq_true, decide_eq_true_eq] at h
  omega

end Quoted

/-! ## Where a quoted string ends -/

namespace Lexeme

theorem quotedTail_cons {c : Char} (hquote : c ≠ '"') (hslash : c ≠ '\\') (hline : c ≠ '\n')
    (cs : List Char) : quotedTail (c :: cs) = (c :: (quotedTail cs).1, (quotedTail cs).2) := by
  rw [quotedTail]
  · simp [hslash, hline]
  · exact hquote
  · intro d ds h
    exact absurd h hslash

theorem quotedTail_escape {c : Char} (hline : c ≠ '\n') (cs : List Char) :
    quotedTail ('\\' :: c :: cs) =
      ('\\' :: c :: (quotedTail cs).1, (quotedTail cs).2) := by
  rw [quotedTail]
  simp [hline]

/-- Characters that mean nothing to a quoted string. -/
theorem quotedTail_append {xs : List Char} (h : ∀ c ∈ xs, c ≠ '"' ∧ c ≠ '\\' ∧ c ≠ '\n')
    (cs : List Char) : quotedTail (xs ++ cs) = (xs ++ (quotedTail cs).1, (quotedTail cs).2) := by
  induction xs with
  | nil => rfl
  | cons c xs ih =>
    rw [List.forall_mem_cons] at h
    rw [List.cons_append, quotedTail_cons h.1.1 h.1.2.1 h.1.2.2, ih h.2]
    rfl

/-- A character is written so that the string goes on behind it. -/
theorem quotedTail_encodeChar (c : Char) (rest cs : List Char) :
    quotedTail (encodeChar c rest ++ cs) =
      (encodeChar c rest ++ (quotedTail cs).1, (quotedTail cs).2) := by
  rcases encodeChar_cases c rest with ⟨x, ⟨hx, -⟩, h⟩ | ⟨hsign, -, h⟩ | ⟨hcontrol, h⟩ |
    ⟨hquote, hslash, hline, -, h⟩
  · rw [h]
    exact quotedTail_escape hx cs
  · rw [h]
    apply quotedTail_append
    intro d hd
    obtain rfl : d = c := by simpa using hd
    rcases hsign with rfl | rfl <;> decide
  · have hdigits := (fourDigits_control _ (toNat_lt_of_isControl hcontrol)).2.1
    rw [h, List.cons_append, List.cons_append, quotedTail_escape (by decide),
      quotedTail_append fun d hd => (hdigits d hd).2]
    rfl
  · rw [h]
    exact quotedTail_cons hquote hslash hline cs

/-- A quoted string ends with the quote behind its body. -/
theorem quotedTail_encodeBody (cs rest : List Char) :
    quotedTail (encodeBody cs ++ '"' :: rest) = (encodeBody cs ++ ['"'], true) := by
  induction cs with
  | nil => rfl
  | cons c cs ih =>
    rw [encodeBody, List.append_assoc, quotedTail_encodeChar, ih, List.append_assoc]

end Lexeme

/-! ## What a quoted string stands for -/

namespace Template

theorem head?_encodeBody {cs : List Char} (h : (encodeBody cs).head? = some '{') :
    cs.head? = some '{' := by
  cases cs with
  | nil => cases h
  | cons c cs =>
    rw [encodeBody] at h
    rcases encodeChar_cases c cs with ⟨x, -, hc⟩ | ⟨hsign, -, hc⟩ | ⟨-, hc⟩ | ⟨-, -, -, -, hc⟩
    · simp [hc] at h
    · rcases hsign with rfl | rfl <;> simp [hc] at h
    · simp [hc] at h
    · simpa [hc] using h

/-- A dollar or percent sign that is not written twice starts no sequence. -/
theorem sequence_encodeBody {c : Char} (hc : c = '$' ∨ c = '%') {cs : List Char}
    (hbrace : cs.head? ≠ some '{') : sequence c (encodeBody cs) = ⟨0, [c], none⟩ := by
  unfold sequence
  split
  · next rest h =>
    exact absurd (head?_encodeBody (by rw [h]; rfl)) hbrace
  · next d rest h =>
    rw [if_neg]
    rintro rfl
    -- The sign would be the next character, and that one would be written twice.
    cases cs with
    | nil => cases h
    | cons x xs =>
      rw [encodeBody] at h
      rcases encodeChar_cases x xs with ⟨y, -, hx⟩ | ⟨hsign, -, hx⟩ | ⟨-, hx⟩ | ⟨-, -, -, hnext, hx⟩
      · simp only [hx, List.cons_append, List.cons.injEq] at h
        rcases hc with rfl | rfl <;> simp at h
      · simp only [hx, List.cons_append, List.cons.injEq] at h
        rcases hsign with rfl | rfl <;> simp at h
      · simp only [hx, List.cons_append, List.cons.injEq] at h
        rcases hc with rfl | rfl <;> simp at h
      · simp only [hx, List.cons_append, List.nil_append, List.cons.injEq] at h
        rcases h with ⟨rfl, hrest⟩
        exact hnext hc (head?_encodeBody (by rw [hrest]; rfl))
  · rfl

/-- An escape with four digits. -/
theorem piece_codePoint (cs : List Char) : piece true '\\' ('u' :: cs) = codePoint 4 cs := rfl

theorem codePoint_fourDigits {c : Char} (h : isControl c = true) (cs : List Char) :
    codePoint 4 (fourDigits c.toNat ++ cs) = ⟨5, [c], none⟩ := by
  rcases fourDigits_control _ (toNat_lt_of_isControl h) with ⟨hlength, hdigits, hnumber⟩
  have htake : ((fourDigits c.toNat ++ cs).take 4).takeWhile isHexDigit = fourDigits c.toNat := by
    rw [List.take_left' hlength, List.takeWhile_eq_self_iff]
    exact fun d hd => (hdigits d hd).1
  have hchar : charOfCodePoint? c.toNat = some c := by
    have hvalid : c.toNat.isValidChar := c.valid
    rw [charOfCodePoint?, dif_pos hvalid]
    exact congrArg some (Char.ext rfl)
  unfold codePoint
  simp only [htake, hnumber, hchar, hlength, if_true]

/-- A control character is one piece. -/
theorem piece_control {c : Char} (h : isControl c = true) (cs : List Char) :
    piece true '\\' ('u' :: fourDigits c.toNat ++ cs) =
      ⟨('u' :: fourDigits c.toNat).length, [c], none⟩ := by
  rw [List.cons_append, piece_codePoint, codePoint_fourDigits h, List.length_cons,
    (fourDigits_control _ (toNat_lt_of_isControl h)).1]

/-- Characters that belong to a piece in front of them are skipped. -/
theorem decodeFrom_skip (more tail : List Char) (p : Pos) :
    decodeFrom true p more.length (more ++ tail) = decodeFrom true (p.advanceAll more) 0 tail := by
  induction more generalizing p with
  | nil => rfl
  | cons c more ih => exact ih (p.advance c)

/-- Decoding takes one piece at a time. -/
theorem decodeFrom_piece {c : Char} {more tail text : List Char}
    (h : piece true c (more ++ tail) = ⟨more.length, text, none⟩) (p : Pos) :
    decodeFrom true p 0 (c :: (more ++ tail)) =
      ⟨text ++ (decodeFrom true ((p.advance c).advanceAll more) 0 tail).text,
        (decodeFrom true ((p.advance c).advanceAll more) 0 tail).faults⟩ := by
  rw [decodeFrom, h]
  simp only [decodeFrom_skip, Option.map_none, Option.toList_none, List.nil_append]

theorem piece_sign {c : Char} (h : c = '$' ∨ c = '%') (cs : List Char) :
    piece true c cs = sequence c cs := by
  rcases h with rfl | rfl <;> rfl

/-- What is written for a text starts with a piece that is decoded to the first character. A doubled
sign takes the brace behind it along, so it may be the first two. -/
theorem encodeBody_piece (c : Char) (cs : List Char) :
    ∃ d more front rest, encodeBody (c :: cs) = d :: (more ++ encodeBody rest) ∧
      c :: cs = front ++ rest ∧ rest.length ≤ cs.length ∧
        piece true d (more ++ encodeBody rest) = ⟨more.length, front, none⟩ := by
  rw [encodeBody]
  -- How the character is written: as a named escape, doubled before a brace, as `\u`, or as itself.
  rcases encodeChar_cases c cs with ⟨x, ⟨-, hx⟩, h⟩ | ⟨hsign, hbrace, h⟩ | ⟨hcontrol, h⟩ |
    ⟨-, hslash, -, hnext, h⟩
  · rw [h]
    exact ⟨'\\', [x], [c], cs, rfl, rfl, le_rfl, hx _⟩
  · cases cs with
    | nil => cases hbrace
    | cons d ds =>
      obtain rfl : d = '{' := by simpa using hbrace
      rw [h]
      refine ⟨c, [c, '{'], [c, '{'], ds, rfl, rfl, Nat.le_succ _, ?_⟩
      rw [piece_sign hsign]
      rcases hsign with rfl | rfl <;> rfl
  · rw [h]
    exact ⟨'\\', 'u' :: fourDigits c.toNat, [c], cs, rfl, rfl, le_rfl, piece_control hcontrol _⟩
  · rw [h]
    refine ⟨c, [], [c], cs, rfl, rfl, le_rfl, ?_⟩
    by_cases hsign : c = '$' ∨ c = '%'
    · rw [piece_sign hsign]
      exact sequence_encodeBody hsign (hnext hsign)
    · simp [piece, hslash, hsign]

/-- What is written for a text is decoded to the text. -/
theorem decode_encodeBody (cs : List Char) (p : Pos) :
    decode true p (encodeBody cs) = ⟨cs, []⟩ := by
  unfold decode
  -- A piece may stand for two characters, so the induction is on the number that is left.
  induction hn : cs.length using Nat.strongRecOn generalizing cs p with
  | ind n ih =>
    cases cs with
    | nil => rfl
    | cons c cs =>
      rcases encodeBody_piece c cs with ⟨d, more, front, rest, hbody, hchars, hle, hpiece⟩
      have hlt : rest.length < n := by
        rw [List.length_cons] at hn
        omega
      rw [hbody, decodeFrom_piece hpiece p, ih rest.length hlt rest _ rfl, hchars]

end Template

end Overlay.Hcl
