import Overlay.Proofs.Hcl.Lines
import Overlay.Proofs.Hcl.Locality
import Overlay.Proofs.Hcl.Wrapping

/-!
# Texts of whole lines

A text that ends with a line end is cut into the same lexemes whatever stands behind it, if its
comments and heredocs are closed.

* Only a comment and a heredoc go over a line end (`newline_mem_next`), so every other lexeme ends in
  front of the last one (`tail_closed`).
* The last lexeme of the text is its last line end (`split_closed`), and so is its last token.
* The tokens of a text that such a text stands in front of are shifted by its lines and bytes
  (`Tokens.ofText_append`).
-/

namespace Overlay.Hcl

/-- The lexeme is no comment and no heredoc that is never closed. -/
def Shape.IsClosed : Shape → Prop
  | blockComment closed => closed = true
  | heredoc doc => doc.closed = true
  | _ => True

namespace Lexeme

variable {c : Char} {cs ys : List Char}

/-! ## Comments and heredocs that are closed -/

/-- A closed comment ends with its marker, whatever stands behind it. -/
theorem commentTail_closed (h : (commentTail cs).2 = true) :
    (commentTail cs).1.getLast? = some '/' ∧
      ∀ ys, commentTail (cs ++ ys) = commentTail cs := by
  fun_induction commentTail cs with
  | case1 => cases h
  | case2 cs => exact ⟨rfl, fun _ => rfl⟩
  | case3 c cs hclose rest closed hrest ih =>
    rw [hrest] at ih
    rcases ih h with ⟨hlast, hmore⟩
    constructor
    · rw [List.getLast?_cons, hlast]
      rfl
    · intro ys
      rcases cs with - | ⟨d, cs⟩
      · -- A comment that is closed has characters.
        cases hrest
        cases h
      · rw [List.cons_append, commentTail]
        · rw [hmore]
        · intro more hstar hslash
          exact hclose cs hstar (by rw [(List.cons.inj hslash).1])

/-- The closing line of a heredoc stands in front of a line end, in a text of whole lines. -/
theorem bodyLines_closed {mark line : List Char}
    (hend : cs.getLast? = some '\n' ∨ cs = [] ∧ line = [])
    (h : (bodyLines mark line cs).2.1 = true) :
    (bodyLines mark line cs).2.2 < cs.length ∧
      ∀ ys, bodyLines mark line (cs ++ ys) = bodyLines mark line cs := by
  -- On the characters; the last one is a line break, so every line that is begun is ended.
  induction cs generalizing line with
  | nil =>
    rcases hend with hend | ⟨-, rfl⟩
    · cases hend
    · cases h
  | cons c cs ih =>
    have hbehind : ∀ line : List Char, line = [] ∨ c ≠ '\n' →
        cs.getLast? = some '\n' ∨ cs = [] ∧ line = [] := by
      intro line hline
      rcases hend with hend | ⟨hnil, -⟩
      · rcases cs with - | ⟨d, cs⟩
        · rcases hline with hline | hline
          · exact .inr ⟨rfl, hline⟩
          · exact absurd (Option.some.inj hend) hline
        · rw [List.getLast?_cons_cons] at hend
          exact .inl hend
      · cases hnil
    -- Only a line break can end the body, and only if its line is the marker.
    by_cases hc : c = '\n'
    · by_cases hmark : Text.trim line.reverse = mark
      · simp [bodyLines, hc, hmark]
      · simp only [bodyLines, hc, hmark, if_true, if_false] at h
        rcases ih (hbehind [] (.inl rfl)) h with ⟨hlt, hmore⟩
        constructor
        · simpa [bodyLines, hc, hmark] using hlt
        · intro ys
          simp only [List.cons_append, bodyLines, hc, hmark, if_true, if_false, hmore]
    · simp only [bodyLines, hc, if_false] at h
      rcases ih (hbehind (c :: line) (.inr hc)) h with ⟨hlt, hmore⟩
      constructor
      · simpa [bodyLines, hc] using hlt
      · intro ys
        simp only [List.cons_append, bodyLines, hc, if_false, hmore]

/-- What takes no line end from a text of whole lines ends in front of its last one. -/
theorem length_lt_of_line {front : List Char} (hend : cs.getLast? = some '\n')
    (hfront : front <+: cs ++ ys) (hline : '\n' ∉ front) : front.length < cs.length := by
  by_contra hle
  have hcovers : cs <+: front :=
    List.prefix_of_prefix_length_le (List.prefix_append cs ys) hfront (Nat.le_of_not_lt hle)
  exact hline (hcovers.subset (List.mem_of_getLast? hend))

theorem introducer_lt (hend : cs.getLast? = some '\n') (ys : List Char) :
    (introducer (cs ++ ys)).length < cs.length :=
  length_lt_of_line hend (introducer_isPrefix _) (newline_not_mem_introducer _)

theorem drop_introducer (hend : cs.getLast? = some '\n') (ys : List Char) :
    (cs ++ ys).drop (introducer (cs ++ ys)).length = cs.drop (introducer cs).length ++ ys := by
  rw [(introducer_append (introducer_lt hend ys).le).2.2,
    List.drop_append_of_le_length (introducer_isPrefix cs).length_le]

/-- The start of a heredoc that lacks its marker or the end of its line stays on the line. -/
theorem heredocTail_start (hend : cs.getLast? = some '\n')
    (h : heredocMarker cs = [] ∨ (cs.drop (introducer cs).length).head? ≠ some '\n') :
    (heredocTail ('<' :: cs)).2.length < cs.length + 1 ∧
      ∀ ys, heredocTail ('<' :: (cs ++ ys)) = heredocTail ('<' :: cs) := by
  have hlt := introducer_lt hend []
  rw [List.append_nil] at hlt
  constructor
  · rw [heredocTail_broken h]
    exact Nat.succ_lt_succ hlt
  · intro ys
    rcases introducer_append (introducer_lt hend ys).le with ⟨-, hmarker, hsame⟩
    have hbroken : heredocMarker (cs ++ ys) = [] ∨
        ((cs ++ ys).drop (introducer (cs ++ ys)).length).head? ≠ some '\n' := by
      rw [hmarker, drop_introducer hend ys]
      refine h.imp_right fun hhead => ?_
      cases hrest : cs.drop (introducer cs).length with
      | nil => exact absurd (List.drop_eq_nil_iff.1 hrest) (Nat.not_le_of_lt hlt)
      | cons c body => rwa [hrest] at hhead
    rw [heredocTail_broken h, heredocTail_broken hbroken, hsame]

/-- The body of a closed heredoc ends with its closing line. -/
theorem heredocTail_body_closed {body : List Char} (hend : cs.getLast? = some '\n')
    (hne : heredocMarker cs ≠ []) (hrest : cs.drop (introducer cs).length = '\n' :: body)
    (h : (heredocTail ('<' :: cs)).1.IsClosed) :
    (heredocTail ('<' :: cs)).2.length < cs.length + 1 ∧
      ∀ ys, heredocTail ('<' :: (cs ++ ys)) = heredocTail ('<' :: cs) := by
  have hlt := introducer_lt hend []
  rw [List.append_nil] at hlt
  have hsize := List.length_drop (i := (introducer cs).length) (l := cs)
  rw [hrest, List.length_cons] at hsize
  -- The body begins behind a line break, so it is empty or ends in one as the whole text does.
  have hbody : body.getLast? = some '\n' ∨ body = [] ∧ ([] : List Char) = [] := by
    have hlast := List.getLast?_drop (i := (introducer cs).length) (l := cs)
    rw [hrest, if_neg (Nat.not_le_of_lt hlt), hend] at hlast
    rcases body with - | ⟨d, body⟩
    · exact .inr ⟨rfl, rfl⟩
    · rw [List.getLast?_cons_cons] at hlast
      exact .inl hlast
  rw [heredocTail_body hne hrest] at h ⊢
  rcases bodyLines_closed hbody h with ⟨hlines, hmore⟩
  constructor
  · simp only [List.length_append, List.length_cons, List.length_take]
    omega
  · intro ys
    rcases introducer_append (introducer_lt hend ys).le with ⟨hdash, hmarker, hsame⟩
    have hall := drop_introducer hend ys
    rw [hrest, List.cons_append] at hall
    rw [heredocTail_body (by rwa [hmarker]) hall, hdash, hmarker, hsame, hmore,
      List.take_append_of_le_length hlines.le]

theorem heredocTail_closed (hend : cs.getLast? = some '\n')
    (h : (heredocTail ('<' :: cs)).1.IsClosed) :
    (heredocTail ('<' :: cs)).2.length < cs.length + 1 ∧
      ∀ ys, heredocTail ('<' :: (cs ++ ys)) = heredocTail ('<' :: cs) := by
  by_cases hne : heredocMarker cs = []
  · exact heredocTail_start hend (.inl hne)
  by_cases hhead : (cs.drop (introducer cs).length).head? = some '\n'
  · rcases List.head?_eq_some_iff.1 hhead with ⟨body, hrest⟩
    exact heredocTail_body_closed hend hne hrest h
  · exact heredocTail_start hend (.inr hhead)

/-! ## Lexemes -/

theorem tail_blockComment (cs : List Char) :
    tail '/' ('*' :: cs) = (.blockComment (commentTail cs).2, '*' :: (commentTail cs).1) := rfl

/-- A closed lexeme of a text of whole lines is the same whatever stands behind the text, and it ends in
front of the last line end, or is that line end. -/
theorem tail_closed (hend : (c :: cs).getLast? = some '\n') (hclosed : (tail c cs).1.IsClosed) :
    (c = '\n' ∨ (tail c cs).2.length < cs.length) ∧ ∀ ys, tail c (cs ++ ys) = tail c cs := by
  by_cases hc : c = '\n'
  · subst hc
    exact ⟨.inl rfl, fun _ => rfl⟩
  rcases cs with - | ⟨d, ds⟩
  · exact absurd (Option.some.inj hend) hc
  rw [List.getLast?_cons_cons] at hend
  by_cases hcomment : c = '/' ∧ d = '*'
  · rcases hcomment with ⟨rfl, rfl⟩
    rw [tail_blockComment] at hclosed ⊢
    rcases commentTail_closed hclosed with ⟨hlast, hmore⟩
    constructor
    · -- The comment ends with a slash, the text with a line end.
      refine .inr (Nat.succ_lt_succ (Nat.lt_of_le_of_ne (commentTail_isPrefix ds).length_le ?_))
      intro hall
      have hsame := (commentTail_isPrefix ds).eq_of_length hall
      rcases ds with - | ⟨e, ds⟩
      · cases hclosed
      · rw [hsame] at hlast
        rw [List.getLast?_cons_cons, hlast] at hend
        cases hend
    · intro ys
      rw [List.cons_append, tail_blockComment, hmore]
  by_cases hdoc : c = '<' ∧ d = '<'
  · rcases hdoc with ⟨rfl, rfl⟩
    rw [tail_heredoc] at hclosed ⊢
    rcases ds with - | ⟨e, ds⟩
    · cases hend
    rw [List.getLast?_cons_cons] at hend
    rcases heredocTail_closed hend hclosed with ⟨hlt, hmore⟩
    exact ⟨.inr hlt, fun ys => hmore ys⟩
  -- Every other lexeme stays on its line.
  have hline : ∀ ys, '\n' ∉ (tail c (d :: ds ++ ys)).2 := by
    intro ys hmem
    have hnext : '\n' ∈ (next c (d :: ds ++ ys)).text := List.mem_cons_of_mem c hmem
    rcases newline_mem_next hnext with ⟨rfl, -⟩ | ⟨closed, hshape⟩ | ⟨doc, hshape⟩
    · exact hc rfl
    · rcases eq_of_blockComment hshape with ⟨rest, rfl, hrest, -⟩
      exact hcomment ⟨rfl, (List.cons.inj hrest).1⟩
    · rcases eq_of_heredoc hshape with ⟨rest, body, rfl, hrest, -⟩
      exact hdoc ⟨rfl, (List.cons.inj hrest).1⟩
  have hlt := fun ys => length_lt_of_line hend (tail_isPrefix c (d :: ds ++ ys)) (hline ys)
  constructor
  · have hself := hlt []
    rw [List.append_nil] at hself
    exact .inr hself
  · exact fun ys => tail_append (hlt ys).le

/-- The cut of a text of whole lines with closed lexemes ends with a line end, and goes on with the cut
of any text behind it. -/
theorem split_closed (hend : cs.getLast? = some '\n') (hclosed : ∀ x ∈ split cs, x.shape.IsClosed) :
    (∃ xs, split cs = xs ++ [⟨.mark .newline, ['\n']⟩]) ∧
      ∀ ys, split (cs ++ ys) = split cs ++ split ys := by
  induction cs using split_induction with
  | nil => cases hend
  | cons c cs ih =>
    rw [split_cons] at hclosed
    rcases List.forall_mem_cons.1 hclosed with ⟨hfirst, hrest⟩
    rcases tail_closed hend hfirst with ⟨hshort, hmore⟩
    have hstep : ∀ ys, split (c :: cs ++ ys) =
        next c cs :: split (cs.drop (tail c cs).2.length ++ ys) := by
      intro ys
      rw [List.cons_append, split_cons, hmore, next, hmore,
        List.drop_append_of_le_length (tail_isPrefix c cs).length_le]
      rfl
    by_cases hnil : cs.drop (tail c cs).2.length = []
    · -- Only the last line end takes all of what is left.
      rcases hshort with rfl | hlt
      · have hcs : cs = [] := hnil
        subst hcs
        exact ⟨⟨[], rfl⟩, fun ys => split_newline ys⟩
      · exact absurd (List.drop_eq_nil_iff.1 hnil) (Nat.not_le_of_lt hlt)
    · have hlast : (cs.drop (tail c cs).2.length).getLast? = some '\n' := by
        rw [List.getLast?_drop, if_neg fun hle => hnil (List.drop_eq_nil_iff.2 hle)]
        rcases cs with - | ⟨d, ds⟩
        · exact absurd List.drop_nil hnil
        · rwa [List.getLast?_cons_cons] at hend
      rcases ih hlast hrest with ⟨⟨xs, hxs⟩, happend⟩
      constructor
      · exact ⟨next c cs :: xs, by rw [split_cons, hxs, List.cons_append]⟩
      · intro ys
        rw [hstep, happend, split_cons, List.cons_append]

end Lexeme

/-! ## Tokens -/

namespace Tokens

variable {text : String}

/-- The comments and heredocs of the text are closed. -/
def Closes (ts : Tokens) : Prop :=
  ∀ f ∈ ts.faults, f.item ≠ .unterminatedComment ∧ ∀ marker, f.item ≠ .unterminatedHeredoc marker

theorem isClosed_of_closes {p : Pos} {x : Lexeme} (h : (ofLexeme p x).Closes) :
    x.shape.IsClosed := by
  rcases x with ⟨shape, text⟩
  unfold Closes ofLexeme at h
  cases shape with
  | blockComment closed =>
    cases closed with
    | true => rfl
    | false => exact absurd rfl (h _ List.mem_cons_self).1
  | heredoc doc =>
    rcases hclosed : doc.closed with - | -
    · -- The fault of an open heredoc is the last one.
      simp only [hclosed, Bool.false_eq_true, if_false] at h
      exact absurd rfl ((h _ (List.mem_append_right _ List.mem_cons_self)).2 _)
    · exact hclosed
  | _ => trivial

theorem forall_isClosed {p : Pos} {xs : List Lexeme} (h : (ofLexemes p xs).Closes) :
    ∀ x ∈ xs, x.shape.IsClosed := by
  induction xs generalizing p with
  | nil => exact fun _ hx => absurd hx List.not_mem_nil
  | cons x xs ih =>
    rcases List.forall_mem_append.1 h with ⟨hfirst, hrest⟩
    exact List.forall_mem_cons.2 ⟨isClosed_of_closes hfirst, ih hrest⟩

/-- The tokens of a text behind a text of whole lines are its own, further on. -/
theorem ofText_append (hend : text.toList.getLast? = some '\n') (hcloses : (ofText text).Closes)
    (more : String) : ofText (text ++ more) =
      (ofText text).append ((ofText more).mapSpans (Span.map (Pos.behind text))) := by
  have hsplit := (Lexeme.split_closed hend (forall_isClosed hcloses)).2 more.toList
  have hmore := ofLexemes_map ((Pos.behind_steady text).behind .start) (Lexeme.split more.toList)
  rw [Pos.behind_start hend] at hmore
  rw [ofText, String.toList_append, hsplit, ofLexemes_append, Lexeme.flatMap_text_split]
  exact congrArg (append (ofText text)) hmore

/-- The last token of a text of whole lines is the last line end. -/
theorem exists_newline (hend : text.toList.getLast? = some '\n') (hcloses : (ofText text).Closes) :
    ∃ ts start, (ofText text).tokens = ts ++ [⟨.mark .newline, ⟨start, .endOf text⟩⟩] := by
  rcases (Lexeme.split_closed hend (forall_isClosed hcloses)).1 with ⟨xs, hxs⟩
  have htext := Lexeme.flatMap_text_split text.toList
  rw [hxs, List.flatMap_append] at htext
  refine ⟨(ofLexemes .start xs).tokens, Pos.start.advanceAll (xs.flatMap Lexeme.text), ?_⟩
  rw [ofText, hxs, ofLexemes_append, Pos.endOf, ← htext, Pos.advanceAll_append]
  rfl

end Tokens

end Overlay.Hcl
