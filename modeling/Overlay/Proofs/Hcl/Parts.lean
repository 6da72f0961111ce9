import Overlay.Proofs.Hcl.Derivation
import Overlay.Proofs.Hcl.Locality
import Overlay.Proofs.Hcl.Wrapping

/-!
# Tokens of a part of a text

Neighbouring tokens of a text are the tokens of the part of it from the first to the last of them,
moved to where that part stands (`Tokens.ofText_part`).
-/

namespace Overlay.Hcl

namespace Tokens

variable {p : Pos} {xs : List Lexeme} {as us bs : List Token} {u : Token}

/-- The lexeme of a token, with the lexemes in front of it and those behind it. -/
theorem ofLexemes_at (h : (ofLexemes p xs).tokens = as ++ u :: bs) :
    ∃ ys x zs, xs = ys ++ x :: zs ∧ (ofLexemes p ys).tokens = as ∧
      u.span = ⟨p.advanceAll (ys.flatMap Lexeme.text),
        p.advanceAll ((ys ++ [x]).flatMap Lexeme.text)⟩ ∧
      (ofLexeme (p.advanceAll (ys.flatMap Lexeme.text)) x).tokens = [u] ∧
      (ofLexemes (p.advanceAll ((ys ++ [x]).flatMap Lexeme.text)) zs).tokens = bs := by
  induction xs generalizing p as with
  | nil => exact absurd h.symm (by simp [ofLexemes])
  | cons x xs ih =>
    have htokens : (ofLexemes p (x :: xs)).tokens =
        (ofLexeme p x).tokens ++ (ofLexemes (p.advanceAll x.text) xs).tokens := rfl
    rw [htokens] at h
    -- The lexeme is no token, or the token in front of `u`, or `u`.
    rcases ofLexeme_tokens p x with hnone | ⟨kind, hone⟩
    · rw [hnone, List.nil_append] at h
      rcases ih h with ⟨ys, y, zs, rfl, has, hspan, hu, hbs⟩
      refine ⟨x :: ys, y, zs, rfl, ?_, ?_, ?_, ?_⟩
      · show (ofLexeme p x).tokens ++ _ = as
        rw [hnone, has]
        rfl
      · simpa [Pos.advanceAll_append] using hspan
      · simpa [Pos.advanceAll_append] using hu
      · simpa [Pos.advanceAll_append] using hbs
    · rw [hone] at h
      rcases as with - | ⟨a, as⟩
      · rcases List.cons.inj h with ⟨hhead, hrest⟩
        subst hhead
        exact ⟨[], x, xs, rfl, rfl, by simp, hone, by simpa using hrest⟩
      · rcases List.cons.inj h with ⟨hhead, hrest⟩
        rcases ih hrest with ⟨ys, y, zs, rfl, has, hspan, hu, hbs⟩
        refine ⟨x :: ys, y, zs, rfl, ?_, ?_, ?_, ?_⟩
        · show (ofLexeme p x).tokens ++ _ = a :: as
          rw [hone, has, hhead]
          rfl
        · simpa [Pos.advanceAll_append] using hspan
        · simpa [Pos.advanceAll_append] using hu
        · simpa [Pos.advanceAll_append] using hbs

/-- The lexemes of the tokens at the front, through the last of them. -/
theorem ofLexemes_front (h : (ofLexemes p xs).tokens = us ++ bs) :
    ∃ ys zs, xs = ys ++ zs ∧ (ofLexemes p ys).tokens = us ∧
      stopAfter p us = p.advanceAll (ys.flatMap Lexeme.text) := by
  induction us generalizing p xs with
  | nil => exact ⟨[], xs, rfl, rfl, rfl⟩
  | cons u us ih =>
    rcases @ofLexemes_at p xs [] (us ++ bs) u h with ⟨ys, x, zs, rfl, hnone, hspan, hu, hrest⟩
    rcases ih hrest with ⟨vs, ws, rfl, hvs, hstop⟩
    refine ⟨ys ++ x :: vs, ws, by simp, ?_, ?_⟩
    · rw [ofLexemes_append]
      show (ofLexemes p ys).tokens ++ ((ofLexeme _ x).tokens ++ (ofLexemes _ vs).tokens) = u :: us
      rw [hnone, hu, List.nil_append, List.singleton_append]
      simpa [Pos.advanceAll_append] using hvs
    · rw [stopAfter_cons, hspan, hstop]
      simp [Pos.advanceAll_append]

/-- Neighbouring tokens of a text without faults are the tokens of a part of the text, moved to where
that part stands. -/
theorem ofText_part {text : String} (h : (ofText text).tokens = as ++ us ++ bs) (hne : us ≠ [])
    (hclean : (ofText text).faults = []) :
    ∃ front part back, text.toList = front ++ part ++ back ∧
      spanOf us = ⟨Pos.start.advanceAll front, Pos.start.advanceAll (front ++ part)⟩ ∧
      (ofText (String.ofList part)).faults = [] ∧
      (ofText (String.ofList part)).tokens =
        us.map (Token.mapSpan (Span.map (Pos.rebase (Pos.start.advanceAll front) .start))) := by
  rcases List.exists_cons_of_ne_nil hne with ⟨u, us, rfl⟩
  rw [List.append_assoc, List.cons_append] at h
  -- The lexemes in front of the part's first token, then those up to its last one.
  rcases ofLexemes_at h with ⟨ys, x, zs, hxs, -, hspan, hu, hrest⟩
  rcases ofLexemes_front hrest with ⟨vs, ws, rfl, hvs, hstop⟩
  have hparts : Lexeme.split text.toList = ys ++ (x :: vs) ++ ws := by simpa using hxs
  have htext : text.toList =
      ys.flatMap Lexeme.text ++ (x :: vs).flatMap Lexeme.text ++ ws.flatMap Lexeme.text := by
    rw [← Lexeme.flatMap_text_split text.toList, hparts, List.flatMap_append, List.flatMap_append]
  -- Split again on its own, the part gives the same lexemes, placed from the start of a text.
  have hmoved := ofLexemes_map
    (Pos.rebase_steadyFrom (Pos.start.advanceAll (ys.flatMap Lexeme.text)) .start) (x :: vs)
  have hpart : ofText (String.ofList ((x :: vs).flatMap Lexeme.text)) =
      (ofLexemes (Pos.start.advanceAll (ys.flatMap Lexeme.text)) (x :: vs)).mapSpans
        (Span.map (Pos.rebase (Pos.start.advanceAll (ys.flatMap Lexeme.text)) .start)) := by
    rw [← hmoved, Pos.rebase_self, ofText, String.toList_ofList, Lexeme.split_flatMap hparts]
  have htokens : (ofLexemes (Pos.start.advanceAll (ys.flatMap Lexeme.text)) (x :: vs)).tokens =
      u :: us := by
    show (ofLexeme _ x).tokens ++ (ofLexemes _ vs).tokens = u :: us
    rw [hu, List.singleton_append]
    simpa [Pos.advanceAll_append] using hvs
  have hfaults : (ofLexemes (Pos.start.advanceAll (ys.flatMap Lexeme.text)) (x :: vs)).faults =
      [] := by
    rw [ofText, hparts, List.append_assoc, ofLexemes_append, ofLexemes_append] at hclean
    have hback := (List.append_eq_nil_iff.1 hclean).2
    exact (List.append_eq_nil_iff.1 hback).1
  refine ⟨_, _, _, htext, ?_, ?_, ?_⟩
  · rw [spanOf_cons, hspan, hstop]
    simp [Pos.advanceAll_append]
  · rw [hpart]
    exact List.map_eq_nil_iff.2 hfaults
  · rw [hpart, ← htokens]
    rfl

end Tokens

end Overlay.Hcl
