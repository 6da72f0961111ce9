import Mathlib.Order.Lattice.Nat
import Overlay.Proofs.Text.Lines
import Overlay.Proofs.Text.Ranges
import Overlay.Proofs.Value.Literal

/-!
# Heredocs keep their text

A heredoc that is written line by line is one token with these lines, without the indentation that
they have in common if it is asked for, and the end of its last line is a token of its own
(`Tokens.ofText_heredoc`).

* A word has no blanks (`Lexeme.isBlank_of_continuesWord`), so the line with the marker alone closes
  the body, and the lines in front of it are those that were written (`Lexeme.bodyLines_written`).
* Lines without template sequences are decoded to themselves (`Template.decodeLines_literal`).
* The common indentation is the least one (`Heredoc.commonIndent_eq`).
-/

namespace Overlay

namespace Hcl

/-! ## Lines of a body -/

namespace Lexeme

variable {mark l m : List Char} {lines : List (List Char)} {c : Char}

/-- No blank is part of a word. -/
theorem isBlank_of_continuesWord (h : continuesWord c = true) : Text.isBlank c = false := by
  have hletters : ∀ r ∈ Text.blanks.ranges, ∀ s ∈ Text.letters.ranges,
      r.2 < s.1 ∨ s.2 < r.1 := by decide +kernel
  have hnumbers : ∀ r ∈ Text.blanks.ranges, ∀ s ∈ Text.numbers.ranges,
      r.2 < s.1 ∨ s.2 < r.1 := by decide +kernel
  simp only [continuesWord, Bool.or_eq_true, beq_iff_eq] at h
  rcases h with ((rfl | rfl) | hletter) | hnumber
  · decide
  · decide
  · exact Text.Ranges.contains_eq_false hletters hletter
  · exact Text.Ranges.contains_eq_false hnumbers hnumber

/-- A line of a body closes it or is kept. -/
theorem bodyLines_line (hl : '\n' ∉ l) (line rest : List Char) :
    bodyLines mark line (l ++ '\n' :: rest) =
      if Text.trim (line.reverse ++ l) = mark then ([], true, l.length)
      else ((line.reverse ++ l) :: (bodyLines mark [] rest).1, (bodyLines mark [] rest).2.1,
        (bodyLines mark [] rest).2.2 + 1 + l.length) := by
  -- On what is left of the line; `line` holds what was read of it, reversed.
  induction l generalizing line with
  | nil => simp [bodyLines]
  | cons c l ih =>
    rw [List.mem_cons, not_or] at hl
    rw [List.cons_append, bodyLines, if_neg fun hc => hl.1 hc.symm, ih hl.2, List.reverse_cons,
      List.append_assoc, List.singleton_append]
    split_ifs
    · rfl
    · simp [Nat.add_assoc]

/-- The lines in front of the first one with the marker alone are the lines of the body. -/
theorem bodyLines_written (hlines : ∀ l ∈ lines, '\n' ∉ l ∧ Text.trim l ≠ m)
    (hm : ∀ c ∈ m, continuesWord c = true) (rest : List Char) :
    bodyLines m [] (lines.flatMap (· ++ ['\n']) ++ m ++ '\n' :: rest) =
      (lines, true, (lines.flatMap (· ++ ['\n']) ++ m).length) := by
  induction lines with
  | nil =>
    -- The closing line: the marker has no blanks to lose, and no line end inside.
    have htrim : Text.trim m = m := Text.trim_eq_self fun c hc => isBlank_of_continuesWord (hm c hc)
    have hline : '\n' ∉ m := fun hmem => absurd (hm _ hmem) (by decide +kernel)
    rw [List.flatMap_nil, List.nil_append, bodyLines_line hline, List.reverse_nil, List.nil_append,
      if_pos htrim]
  | cons l lines ih =>
    rcases List.forall_mem_cons.1 hlines with ⟨⟨hline, hopen⟩, hlines⟩
    have hparts : (l :: lines).flatMap (· ++ ['\n']) ++ m ++ '\n' :: rest =
        l ++ '\n' :: (lines.flatMap (· ++ ['\n']) ++ m ++ '\n' :: rest) := by simp
    rw [hparts, bodyLines_line hline, List.reverse_nil, List.nil_append, if_neg hopen, ih hlines]
    simp
    omega

end Lexeme

/-! ## Heredocs as they are written -/

/-- A heredoc as it is written, without the end of its last line. -/
def Heredoc.written (indented : Bool) (marker : List Char) (lines : List (List Char)) : List Char :=
  '<' :: '<' :: ((if indented then ['-'] else []) ++ marker ++
    '\n' :: (lines.flatMap (· ++ ['\n']) ++ marker))

namespace Lexeme

/-- What stands between the second `<` and the end of the line is the dash, if there is one, and the
marker. -/
theorem introducer_written {c : Char} {cs : List Char} (indented : Bool) (hc : startsWord c = true)
    (hcs : ∀ d ∈ cs, continuesWord d = true) (rest : List Char) :
    dash ((if indented then ['-'] else []) ++ (c :: cs) ++ '\n' :: rest) =
        (if indented then ['-'] else []) ∧
      heredocMarker ((if indented then ['-'] else []) ++ (c :: cs) ++ '\n' :: rest) = c :: cs := by
  have hdash : dash ((if indented then ['-'] else []) ++ (c :: cs) ++ '\n' :: rest) =
      if indented then ['-'] else [] := by
    cases indented with
    | true => rfl
    | false =>
      unfold dash
      split
      · next heq =>
        -- No word starts with a dash.
        rw [(List.cons.inj heq).1] at hc
        exact absurd hc (by decide +kernel)
      · rfl
  have hstop : ∀ d ds, '\n' :: rest = d :: ds → continuesWord d = false := by
    rintro d ds ⟨⟩
    decide +kernel
  refine ⟨hdash, ?_⟩
  rw [heredocMarker, hdash, List.append_assoc, List.drop_left, List.cons_append, marker, if_pos hc,
    takeWhile_append_apart hcs hstop]

/-- A heredoc with its lines is one lexeme. -/
theorem split_written {c : Char} {cs : List Char} {lines : List (List Char)} (indented : Bool)
    (hc : startsWord c = true) (hcs : ∀ d ∈ cs, continuesWord d = true)
    (hlines : ∀ l ∈ lines, '\n' ∉ l ∧ Text.trim l ≠ c :: cs) (rest : List Char) :
    split (Heredoc.written indented (c :: cs) lines ++ '\n' :: rest) =
      ⟨.heredoc ⟨indented, c :: cs, lines, true⟩, Heredoc.written indented (c :: cs) lines⟩ ::
        split ('\n' :: rest) := by
  let front := (if indented then ['-'] else []) ++ (c :: cs)
  let body := lines.flatMap (· ++ ['\n']) ++ (c :: cs)
  rcases introducer_written indented hc hcs (body ++ '\n' :: rest) with ⟨hdash, hmarker⟩
  have hword : ∀ d ∈ c :: cs, continuesWord d = true :=
    List.forall_mem_cons.2 ⟨continuesWord_of_startsWord hc, hcs⟩
  have hdrop : (front ++ '\n' :: (body ++ '\n' :: rest)).drop
      (introducer (front ++ '\n' :: (body ++ '\n' :: rest))).length =
        '\n' :: (body ++ '\n' :: rest) := by
    rw [introducer, hdash, hmarker]
    exact List.drop_left
  have hread := heredocTail_body (by rw [hmarker]; exact List.cons_ne_nil c cs) hdrop
  rw [hmarker, introducer, hdash, hmarker, bodyLines_written hlines hword, List.take_left] at hread
  -- The lexeme says that there is a dash by the text of the dash.
  have hdashed : (!(if indented then ['-'] else [] : List Char).isEmpty) = indented := by
    cases indented <;> rfl
  rw [hdashed] at hread
  have htail : tail '<' ('<' :: (front ++ '\n' :: body) ++ '\n' :: rest) =
      (.heredoc ⟨indented, c :: cs, lines, true⟩, '<' :: (front ++ '\n' :: body)) := by
    rw [List.cons_append, List.append_assoc, List.cons_append, tail_heredoc, hread]
    rfl
  exact split_of_tail htail

end Lexeme

/-! ## Literal text -/

namespace Template

/-- A sign that introduces nothing stands for itself. -/
theorem sequence_literal {c : Char} {cs : List Char} (h : ¬[c, '{'] <:+: c :: cs) :
    sequence c cs = ⟨0, [c], none⟩ := by
  unfold sequence
  split
  · exact absurd ⟨[], _, rfl⟩ h
  · next d ds _ =>
    split_ifs with hd
    · subst hd
      exact absurd ⟨[d], ds, rfl⟩ h
    · rfl
  · rfl

/-- A text without template sequences, in which backslashes stand for themselves, is decoded to
itself. -/
theorem decode_literal {cs : List Char} (hdollar : ¬['$', '{'] <:+: cs)
    (hpercent : ¬['%', '{'] <:+: cs) (p : Pos) : decode false p cs = ⟨cs, []⟩ := by
  unfold decode
  induction cs generalizing p with
  | nil => rfl
  | cons c cs ih =>
    -- A sequence behind the first character would be one of the whole text.
    have hbehind : ∀ {xs : List Char}, ¬xs <:+: c :: cs → ¬xs <:+: cs :=
      fun h hxs => h (hxs.trans (List.suffix_cons c cs).isInfix)
    have hpiece : piece false c cs = ⟨0, [c], none⟩ := by
      unfold piece
      rw [if_neg (by simp)]
      split_ifs with hsign
      · rcases hsign with rfl | rfl
        · exact sequence_literal hdollar
        · exact sequence_literal hpercent
      · rfl
    rw [decodeFrom, hpiece, ih (hbehind hdollar) (hbehind hpercent)]
    rfl

theorem decodeLines_literal {lines : List (List Char)}
    (h : ∀ l ∈ lines, ¬['$', '{'] <:+: l ∧ ¬['%', '{'] <:+: l) (p : Pos) :
    decodeLines p lines = (lines, []) := by
  induction lines generalizing p with
  | nil => rfl
  | cons l lines ih =>
    rcases List.forall_mem_cons.1 h with ⟨hl, hlines⟩
    rw [decodeLines, decode_literal hl.1 hl.2, ih hlines]
    rfl

end Template

/-! ## Indentation -/

/-- The counts of blanks at the front of the lines that have more than blanks. -/
def Heredoc.indents (lines : List (List Char)) : Set Nat :=
  {n | ∃ l ∈ lines, (∃ c ∈ l, Text.isBlank c = false) ∧ (l.takeWhile Text.isBlank).length = n}

theorem isLeast_foldl_min (n : Nat) (ns : List Nat) :
    IsLeast {k | k ∈ n :: ns} (ns.foldl min n) := by
  induction ns generalizing n with
  | nil => exact ⟨List.mem_singleton_self n, fun k hk => (List.mem_singleton.1 hk).ge⟩
  | cons m ns ih =>
    rcases ih (min n m) with ⟨hmem, hlower⟩
    rw [List.foldl_cons]
    refine ⟨?_, fun k hk => ?_⟩
    · show ns.foldl min (min n m) ∈ n :: m :: ns
      rcases List.mem_cons.1 hmem with hmin | hmem
      · rw [hmin]
        rcases min_choice n m with h | h <;> simp [h]
      · exact List.mem_cons_of_mem _ (List.mem_cons_of_mem _ hmem)
    · have hmin := hlower List.mem_cons_self
      rcases List.mem_cons.1 hk with rfl | hk
      · exact hmin.trans (min_le_left _ _)
      · rcases List.mem_cons.1 hk with rfl | hk
        · exact hmin.trans (min_le_right _ _)
        · exact hlower (List.mem_cons_of_mem _ hk)

/-- The common indentation is the least one, and zero if there is none. -/
theorem Heredoc.commonIndent_eq (lines : List (List Char)) :
    commonIndent lines = sInf (indents lines) := by
  have hmem : ∀ k, k ∈ (lines.filter fun l => !(Text.trim l).isEmpty).map
      (fun l => (l.takeWhile Text.isBlank).length) ↔ k ∈ indents lines := by
    intro k
    simp [indents, Text.trim_eq_nil_iff, and_assoc]
  unfold commonIndent
  generalize (lines.filter fun l => !(Text.trim l).isEmpty).map
    (fun l => (l.takeWhile Text.isBlank).length) = ns at hmem ⊢
  have hset : indents lines = {k | k ∈ ns} := Set.ext fun k => (hmem k).symm
  rw [hset]
  cases ns with
  | nil =>
    have hnone : {k : Nat | k ∈ []} = ∅ := Set.eq_empty_of_forall_notMem fun _ => List.not_mem_nil
    exact (Nat.sInf_eq_zero.2 (.inr hnone)).symm
  | cons n ns => exact (isLeast_foldl_min n ns).csInf_eq.symm

/-! ## Whole texts -/

open Heredoc (written indents)

/-- A heredoc keeps its text. Its lines, none of which is its marker or has a template sequence, are
the text of one token, each with its end. If the indentation is dropped, each line loses as many
characters as the least indented line that is not blank has blanks at its front. The end of the last
line is a token of its own, and nothing is wrong in the text. -/
theorem Tokens.ofText_heredoc {marker : String} {lines : List (List Char)} (indented : Bool)
    (hmarker : Value.IsWord marker)
    (hlines : ∀ l ∈ lines, '\n' ∉ l ∧ Text.trim l ≠ marker.toList ∧ ¬['$', '{'] <:+: l ∧
      ¬['%', '{'] <:+: l) :
    let doc := written indented marker.toList lines
    let stop := Pos.start.advanceAll doc
    let n := if indented then sInf (indents lines) else 0
    ofText (String.ofList (doc ++ ['\n'])) =
      ⟨[⟨.heredoc (String.ofList (lines.flatMap fun l => l.drop n ++ ['\n'])), ⟨.start, stop⟩⟩,
        ⟨.mark .newline, ⟨stop, stop.advance '\n'⟩⟩], []⟩ := by
  intro doc stop n
  rcases hmarker with ⟨c, cs, hword, hc, hcs⟩
  have hclosed : ∀ l ∈ lines, '\n' ∉ l ∧ Text.trim l ≠ c :: cs := by
    rw [hword] at hlines
    exact fun l hl => ⟨(hlines l hl).1, (hlines l hl).2.1⟩
  have hliteral := Template.decodeLines_literal fun l hl => (hlines l hl).2.2
  have hsplit := Lexeme.split_written indented hc hcs hclosed []
  rw [← hword, Lexeme.split_newline] at hsplit
  have hjoin : Heredoc.join indented lines = lines.flatMap fun l => l.drop n ++ ['\n'] := by
    rw [Heredoc.join, Heredoc.commonIndent_eq]
  rw [ofText, String.toList_ofList, hsplit]
  simp only [ofLexemes, ofLexeme, hliteral, hjoin]
  rfl

/-- A heredoc whose least indented line starts with a space and a no-break space. -/
theorem Tokens.ofText_heredoc_indented :
    let lines := ["    é \"\\n".toList, " ".toList, " \u00a0$b %%".toList]
    Value.IsWord "EOT" ∧
      (∀ l ∈ lines, '\n' ∉ l ∧ Text.trim l ≠ "EOT".toList ∧ ¬['$', '{'] <:+: l ∧
        ¬['%', '{'] <:+: l) ∧
      ∃ p q, ofText "<<-EOT\n    é \"\\n\n \n \u00a0$b %%\nEOT\n" =
        ⟨[⟨.heredoc "  é \"\\n\n\n$b %%\n", ⟨.start, p⟩⟩, ⟨.mark .newline, ⟨p, q⟩⟩], []⟩ := by
  intro lines
  have hmarker : Value.IsWord "EOT" := by decide +kernel
  have hlines : ∀ l ∈ lines, '\n' ∉ l ∧ Text.trim l ≠ "EOT".toList ∧ ¬['$', '{'] <:+: l ∧
      ¬['%', '{'] <:+: l := by decide +kernel
  have hindent : sInf (indents lines) = 2 :=
    (Heredoc.commonIndent_eq lines).symm.trans (by decide +kernel)
  have htext : String.ofList (written true "EOT".toList lines ++ ['\n']) =
      "<<-EOT\n    é \"\\n\n \n \u00a0$b %%\nEOT\n" := by decide +kernel
  have hkept : String.ofList (lines.flatMap fun l => l.drop 2 ++ ['\n']) =
      "  é \"\\n\n\n$b %%\n" := by decide +kernel
  have hdoc := ofText_heredoc true hmarker hlines
  simp only [if_true, hindent, htext, hkept] at hdoc
  exact ⟨hmarker, hlines, _, _, hdoc⟩

end Hcl

end Overlay
