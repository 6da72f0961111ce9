import Overlay.Proofs.Hcl.Lines
import Overlay.Proofs.Hcl.Token

/-!
# Tokens and the text between them

Cutting a text into tokens loses nothing: what stands between two tokens is blank or a comment, and
with these stretches the texts of the tokens make the whole text again (`Tokens.ofText_covers`).

* `Trivia` is a piece of text that stands for nothing, and `Skipped` a stretch of such pieces.
* A lexeme is one token or trivia (`Tokens.ofLexeme_cases`), so the tokens of a text are laid out in it
  with skipped stretches around them (`Tokens.laid_ofLexemes`).
* What `Laid` says by recursion is read off for the spans of all stretches (`Laid.gaps`) and for the
  texts of all spans in their order (`Laid.pieces`).
-/

namespace Overlay

namespace Hcl

/-! ## Stretches that stand for nothing -/

/-- A piece of text at `p` that stands for nothing, in front of the text `behind`: blanks, or a
comment. A comment to the end of its line stops in front of the line end, and one between markers
stops at the first closing marker. Without one it runs to the end of the text, and that is among the
faults. -/
inductive Trivia (faults : List (Located LexicalFault)) (p : Pos) : List Char → List Char → Prop where
  | blanks {cs behind : List Char} (hcs : ∀ c ∈ cs, c = ' ' ∨ c = '\t' ∨ c = '\r') :
    Trivia faults p cs behind
  | lineComment {opener body behind : List Char} (hopener : opener = ['#'] ∨ opener = ['/', '/'])
      (hbody : '\n' ∉ body) (hend : behind = [] ∨ behind.head? = some '\n') :
    Trivia faults p (opener ++ body) behind
  | blockComment {body behind : List Char} (hbody : ¬['*', '/'] <:+: body) :
    Trivia faults p ('/' :: '*' :: body ++ ['*', '/']) behind
  | openComment {body : List Char} (hbody : ¬['*', '/'] <:+: body)
      (hfault : ⟨.unterminatedComment, ⟨p, p.advanceAll ('/' :: '*' :: body)⟩⟩ ∈ faults) :
    Trivia faults p ('/' :: '*' :: body) []

/-- A stretch of text at `p` that stands for nothing, in front of the text `behind`. -/
inductive Skipped (faults : List (Located LexicalFault)) : Pos → List Char → List Char → Prop where
  | nil (p : Pos) (behind : List Char) : Skipped faults p [] behind
  | cons {p : Pos} {x gap behind : List Char} (hx : Trivia faults p x (gap ++ behind))
      (hgap : Skipped faults (p.advanceAll x) gap behind) : Skipped faults p (x ++ gap) behind

/-- The text at `p` is made of the tokens, each of which is a part of it with at least one character,
and of skipped stretches in front of, between and behind them. -/
inductive Laid (faults : List (Located LexicalFault)) : Pos → List Token → List Char → Prop where
  | last {p : Pos} {gap : List Char} (hgap : Skipped faults p gap []) : Laid faults p [] gap
  | cons {p : Pos} {gap slice rest : List Char} {t : Token} {ts : List Token}
      (hgap : Skipped faults p gap (slice ++ rest)) (hslice : slice ≠ [])
      (hspan : t.span = ⟨p.advanceAll gap, p.advanceAll (gap ++ slice)⟩)
      (hrest : Laid faults (p.advanceAll (gap ++ slice)) ts rest) :
    Laid faults p (t :: ts) (gap ++ slice ++ rest)

variable {faults more : List (Located LexicalFault)} {p : Pos} {ts : List Token}
  {cs rest : List Char}

theorem Trivia.mono (h : Trivia faults p cs rest) (hsub : faults ⊆ more) : Trivia more p cs rest := by
  cases h with
  | blanks hcs => exact .blanks hcs
  | lineComment hopener hbody hend => exact .lineComment hopener hbody hend
  | blockComment hbody => exact .blockComment hbody
  | openComment hbody hfault => exact .openComment hbody (hsub hfault)

/-- Trivia in front of a text belongs to the first stretch of the text. -/
theorem Laid.skip {x : List Char} (hx : Trivia faults p x rest)
    (h : Laid faults (p.advanceAll x) ts rest) : Laid faults p ts (x ++ rest) := by
  -- With or without a token behind it, the trivia goes to the front of the first skipped stretch.
  cases h with
  | last hgap => exact .last (.cons (by rwa [List.append_nil]) hgap)
  | @cons _ gap slice rest t ts hgap hslice hspan hrest =>
    rw [← Pos.advanceAll_append, ← List.append_assoc] at hrest
    rw [← List.append_assoc, ← List.append_assoc]
    refine .cons (.cons ?_ hgap) hslice ?_ hrest
    · rwa [← List.append_assoc]
    · rw [hspan, ← Pos.advanceAll_append, ← Pos.advanceAll_append, List.append_assoc]

/-! ## Lexemes -/

namespace Lexeme

/-- A closing marker over the border of two characters starts with the first one. -/
theorem isInfix_cons {c : Char} {body : List Char} (h : ['*', '/'] <:+: c :: body) :
    (c = '*' ∧ ∃ more, body = '/' :: more) ∨ ['*', '/'] <:+: body := by
  rcases List.infix_cons_iff.1 h with ⟨more, hmore⟩ | hbody
  · rw [List.cons_append, List.cons_append, List.nil_append, List.cons.injEq] at hmore
    exact .inl ⟨hmore.1.symm, more, hmore.2.symm⟩
  · exact .inr hbody

/-- A comment between markers ends with the first closing one. -/
theorem commentTail_of_closed (h : (commentTail cs).2 = true) :
    ∃ body, (commentTail cs).1 = body ++ ['*', '/'] ∧ ¬['*', '/'] <:+: body := by
  fun_induction commentTail cs with
  | case1 => cases h
  | case2 => exact ⟨[], rfl, by simp⟩
  | case3 c cs hclose tail closed htail ih =>
    have hprefix := commentTail_isPrefix cs
    rw [htail] at ih hprefix
    rcases ih h with ⟨body, rfl, hbody⟩
    refine ⟨c :: body, rfl, fun hinfix => ?_⟩
    rcases isInfix_cons hinfix with ⟨rfl, more, rfl⟩ | hinfix
    · -- The marker would have been the closing one.
      rcases hprefix with ⟨behind, rfl⟩
      exact hclose _ rfl rfl
    · exact hbody hinfix

/-- A text without a closing marker leaves a comment open. -/
theorem not_isInfix_of_open (h : (commentTail cs).2 = false) : ¬['*', '/'] <:+: cs := by
  fun_induction commentTail cs with
  | case1 => simp
  | case2 => cases h
  | case3 c cs hclose tail closed htail ih =>
    rw [htail] at ih
    intro hinfix
    rcases isInfix_cons hinfix with ⟨rfl, more, rfl⟩ | hinfix
    · exact hclose _ rfl rfl
    · exact ih h hinfix

/-- What stands behind the text up to the end of its line. -/
theorem endsLine_drop (cs : List Char) :
    cs.drop (cs.takeWhile (· ≠ '\n')).length = [] ∨
      (cs.drop (cs.takeWhile (· ≠ '\n')).length).head? = some '\n' := by
  rcases Text.drop_firstLine cs with hnil | ⟨more, hmore⟩
  · exact .inl hnil
  · exact .inr (congrArg List.head? hmore)

theorem eq_of_blank (h : (tail c cs).1 = .blank) :
    isSpace c = true ∧ (tail c cs).2 = cs.takeWhile isSpace := by
  rcases taken_of_shape h with ⟨more, htail, htaken⟩
  rw [htail]
  cases htaken with
  | blank hspace => exact ⟨hspace, rfl⟩

theorem eq_of_lineComment (h : (tail c cs).1 = .lineComment) :
    c = '#' ∧ (tail c cs).2 = cs.takeWhile (· ≠ '\n') ∨
      ∃ rest, c = '/' ∧ cs = '/' :: rest ∧ (tail c cs).2 = '/' :: rest.takeWhile (· ≠ '\n') := by
  rcases taken_of_shape h with ⟨more, htail, htaken⟩
  rw [htail]
  cases htaken with
  | hash => exact .inl ⟨rfl, rfl⟩
  | slashes rest => exact .inr ⟨rest, rfl, rfl, rfl⟩

end Lexeme

namespace Tokens

/-- A lexeme is one token, from its first character to its last, or it stands for nothing. -/
theorem ofLexeme_cases (p : Pos) (c : Char) (cs : List Char) :
    (∃ kind, (ofLexeme p (Lexeme.next c cs)).tokens =
        [⟨kind, p, p.advanceAll (Lexeme.next c cs).text⟩]) ∨
      (ofLexeme p (Lexeme.next c cs)).tokens = [] ∧
        Trivia (ofLexeme p (Lexeme.next c cs)).faults p (Lexeme.next c cs).text
          (cs.drop (Lexeme.tail c cs).2.length) := by
  have hnewline : ∀ ds : List Char, '\n' ∉ ds.takeWhile (· ≠ '\n') :=
    Lexeme.newline_not_mem_takeWhile (by decide)
  have hnext : Lexeme.next c cs = ⟨(Lexeme.tail c cs).1, c :: (Lexeme.tail c cs).2⟩ := rfl
  rw [hnext]
  cases hshape : (Lexeme.tail c cs).1 with
  | blank =>
    rcases Lexeme.eq_of_blank hshape with ⟨hc, htail⟩
    refine .inr ⟨rfl, .blanks ?_⟩
    rw [htail]
    refine List.forall_mem_cons.2 ⟨Lexeme.eq_of_isSpace hc, fun d hd => ?_⟩
    exact Lexeme.eq_of_isSpace (List.mem_takeWhile_imp hd)
  | lineComment =>
    refine .inr ⟨rfl, ?_⟩
    rcases Lexeme.eq_of_lineComment hshape with ⟨rfl, htail⟩ | ⟨rest, rfl, rfl, htail⟩
    · rw [htail]
      exact .lineComment (.inl rfl) (hnewline cs) (Lexeme.endsLine_drop cs)
    · rw [htail]
      exact .lineComment (.inr rfl) (hnewline rest) (Lexeme.endsLine_drop rest)
  | blockComment closed =>
    rcases Lexeme.eq_of_blockComment hshape with ⟨rest, rfl, rfl, htail, hclosed⟩
    rw [htail]
    cases closed with
    | true =>
      -- A closed comment stops at its first marker, an open one takes all of the text.
      rcases Lexeme.commentTail_of_closed hclosed.symm with ⟨body, hbody, hmarker⟩
      rw [hbody]
      exact .inr ⟨rfl, .blockComment hmarker⟩
    | false =>
      rw [Lexeme.commentTail_of_open hclosed.symm, List.length_cons, List.drop_succ_cons,
        List.drop_length]
      refine .inr ⟨rfl, .openComment (Lexeme.not_isInfix_of_open hclosed.symm) ?_⟩
      exact List.mem_singleton.2 rfl
  | _ => exact .inl ⟨_, rfl⟩

/-- The tokens of a text are laid out in it. -/
theorem laid_ofLexemes (hfaults : (ofLexemes p (Lexeme.split cs)).faults ⊆ faults) :
    Laid faults p (ofLexemes p (Lexeme.split cs)).tokens cs := by
  -- Along the cut: each lexeme is the first token of the rest or lengthens its first gap.
  induction cs using Lexeme.split_induction generalizing p with
  | nil => exact .last (.nil p [])
  | cons c cs ih =>
    have hparts : c :: cs =
        (Lexeme.next c cs).text ++ cs.drop (Lexeme.tail c cs).2.length := by
      rw [Lexeme.next_text, List.cons_append,
        List.prefix_iff_eq_append.1 (Lexeme.tail_isPrefix c cs)]
    rw [Lexeme.split_cons, ofLexemes, append] at hfaults ⊢
    rcases List.append_subset.1 hfaults with ⟨hfirst, hbehind⟩
    have hrest := ih hbehind
    rw [hparts]
    rcases ofLexeme_cases p c cs with ⟨kind, hone⟩ | ⟨hnone, htrivia⟩
    · have hgap : Skipped faults p []
          ((Lexeme.next c cs).text ++ cs.drop (Lexeme.tail c cs).2.length) := .nil p _
      rw [hone]
      exact .cons hgap (List.cons_ne_nil _ _) rfl hrest
    · rw [hnone]
      exact .skip (htrivia.mono hfirst) hrest

end Tokens

/-! ## Spans of stretches -/

/-- The spans of the stretches in front of, between and behind tokens, from `p` to `stop`. -/
def gaps (p : Pos) : List Token → Pos → List Span
  | [], stop => [⟨p, stop⟩]
  | t :: ts, stop => ⟨p, t.span.start⟩ :: gaps t.span.stop ts stop

/-- The spans of all tokens, with the spans of the stretches in front of, between and behind them. -/
def pieces (p : Pos) : List Token → Pos → List Span
  | [], stop => [⟨p, stop⟩]
  | t :: ts, stop => ⟨p, t.span.start⟩ :: t.span :: pieces t.span.stop ts stop

namespace Laid

variable {text : String} {front : List Char}

/-- The stretches that are no tokens stand for nothing. -/
theorem gaps (h : Laid faults p ts cs) (htext : text.toList = front ++ cs)
    (hp : p = Pos.start.advanceAll front) :
    ∀ s ∈ Hcl.gaps p ts (.endOf text), ∃ before gap behind, text.toList = before ++ gap ++ behind ∧
      s = ⟨Pos.start.advanceAll before, Pos.start.advanceAll (before ++ gap)⟩ ∧
      Skipped faults s.start gap behind := by
  -- `front` is the text that was walked over to get to `p`; it grows by a gap and a token.
  induction h generalizing front with
  | @last p gap hgap =>
    intro s hs
    rw [List.mem_singleton.1 hs]
    refine ⟨front, gap, [], by rw [htext, List.append_nil], ?_, hgap⟩
    rw [hp, Pos.endOf, htext]
  | @cons p gap slice rest t ts hgap hslice hspan hrest ih =>
    have hall : text.toList = front ++ (gap ++ slice) ++ rest := by rw [htext]; simp
    have hplace : p.advanceAll (gap ++ slice) =
        Pos.start.advanceAll (front ++ (gap ++ slice)) := by rw [hp, ← Pos.advanceAll_append]
    intro s hs
    rw [Hcl.gaps, hspan] at hs
    rcases List.mem_cons.1 hs with rfl | hs
    · refine ⟨front, gap, slice ++ rest, by rw [htext]; simp, ?_, hgap⟩
      rw [hp, ← Pos.advanceAll_append]
    · exact ih hall hplace s hs

/-- The texts of all stretches, put together, are the text. -/
theorem pieces (h : Laid faults p ts cs) (htext : text.toList = front ++ cs)
    (hp : p = Pos.start.advanceAll front) (filename : String) :
    ∃ texts : List String, (Hcl.pieces p ts (.endOf text)).map
        (fun s => (s.within filename).slice? text) = texts.map some ∧
      (String.join texts).toList = cs := by
  induction h generalizing front with
  | @last p gap hgap =>
    have hend : text.toList = front ++ gap ++ [] := by rw [htext, List.append_nil]
    refine ⟨[String.ofList gap], ?_, by simp⟩
    rw [hp, Pos.endOf, htext]
    exact congrArg (fun x => [x]) (SourceRange.slice?_eq hend)
  | @cons p gap slice rest t ts hgap hslice hspan hrest ih =>
    have hall : text.toList = front ++ (gap ++ slice) ++ rest := by rw [htext]; simp
    have hgapText : text.toList = front ++ gap ++ (slice ++ rest) := by rw [htext]; simp
    have hsliceText : text.toList = (front ++ gap) ++ slice ++ rest := by rw [htext]; simp
    have hplace : p.advanceAll (gap ++ slice) =
        Pos.start.advanceAll (front ++ (gap ++ slice)) := by rw [hp, ← Pos.advanceAll_append]
    rcases ih hall hplace with ⟨texts, hslices, hjoin⟩
    refine ⟨String.ofList gap :: String.ofList slice :: texts, ?_, ?_⟩
    · rw [Hcl.pieces, hspan, hp, ← Pos.advanceAll_append, ← Pos.advanceAll_append,
        ← List.append_assoc, List.map_cons, List.map_cons, List.map_cons, List.map_cons]
      congr 1
      · exact SourceRange.slice?_eq hgapText
      · congr 1
        · exact SourceRange.slice?_eq hsliceText
        · rw [← hslices, hplace, List.append_assoc]
    · rw [String.join_cons, String.join_cons, String.toList_append, String.toList_append, hjoin]
      simp

end Laid

/-- Cutting a text into tokens loses nothing. The spans of the tokens are not empty and stand one
behind the other; their ends stand between characters and are the places of their bytes. What stands
in front of, between and behind the tokens is blanks and comments; a comment that is not closed is
reported. The texts of all these spans in their order are the text. -/
theorem Tokens.ofText_covers (text filename : String) :
    (∀ t ∈ (ofText text).tokens, t.span.start.byte < t.span.stop.byte ∧
      t.span.start.IsPlace text ∧ t.span.stop.IsPlace text ∧
      t.span.start = Pos.ofOffset text t.span.start.byte ∧
      t.span.stop = Pos.ofOffset text t.span.stop.byte) ∧
    ((ofText text).tokens.Pairwise fun t u => t.span.stop.byte ≤ u.span.start.byte) ∧
    (∀ s ∈ gaps .start (ofText text).tokens (.endOf text), ∃ front gap back,
      text.toList = front ++ gap ++ back ∧
      s = ⟨Pos.start.advanceAll front, Pos.start.advanceAll (front ++ gap)⟩ ∧
      Skipped (ofText text).faults s.start gap back) ∧
    ∃ texts : List String, (pieces .start (ofText text).tokens (.endOf text)).map
        (fun s => (s.within filename).slice? text) = texts.map some ∧
      String.join texts = text := by
  have hplaces : ∀ t ∈ (ofText text).tokens, t.span.start.IsPlace text ∧
      t.span.stop.IsPlace text :=
    fun t ht => Pos.isPlace_of_isStretch ((ofText_isStretch text).1 t ht)
  have horder := ofText_inOrder text
  have hlaid : Laid (ofText text).faults .start (ofText text).tokens text.toList :=
    laid_ofLexemes (List.Subset.refl _)
  have hfront : text.toList = [] ++ text.toList := rfl
  refine ⟨fun t ht => ?_, ?_, hlaid.gaps hfront rfl, ?_⟩
  · rcases hplaces t ht with ⟨hstart, hstop⟩
    exact ⟨horder.byte_lt t ht, hstart, hstop, hstart.ofOffset_byte.symm, hstop.ofOffset_byte.symm⟩
  · refine horder.pairwise.2.imp_of_mem fun {t u} ht hu hle => ?_
    exact (hplaces t ht).2.byte_mono (hplaces u hu).1 hle
  · rcases hlaid.pieces hfront rfl filename with ⟨texts, hslices, hjoin⟩
    exact ⟨texts, hslices, String.toList_inj.1 hjoin⟩

end Hcl

end Overlay
