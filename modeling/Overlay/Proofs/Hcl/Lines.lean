import Overlay.Proofs.Hcl.Assignments
import Overlay.Proofs.Text.Lines

/-!
# Texts made of lines

A text every line of which is blank, a comment, a closing brace, or a name and an equals sign in
front of a text without a closing brace.

* `ItemLine` says it of one line, as it is written. The last line of a comment that goes over a line
  end has to go on like a line without the comment (`CommentsContinue`): with `/*` on the line in
  front of it, `a = */ b {` is a block.
* The tokens of such a text are made of items (`makesItems_of_lines`): a lexeme over a line end is
  the line end, a comment or a heredoc (`newline_mem_next`), and no such line closes a heredoc.
-/

namespace Overlay.Hcl

open Text (firstLine linesBehind splitAtChar)

namespace Lexeme

/-! ## Lexemes over a line end -/

variable {c : Char} {cs : List Char}

theorem newline_not_mem_takeWhile {p : Char → Bool} (h : p '\n' = false) (cs : List Char) :
    '\n' ∉ cs.takeWhile p := by
  intro hmem
  have hp := List.mem_takeWhile_imp hmem
  rw [h] at hp
  cases hp

theorem newline_not_mem_fraction (cs : List Char) : '\n' ∉ fraction cs := by
  unfold fraction
  split
  · next cs =>
    have hdigits := newline_not_mem_takeWhile (p := isDigit) (by decide) cs
    dsimp only
    split
    · exact List.not_mem_nil
    · simpa using hdigits
  · exact List.not_mem_nil

theorem newline_not_mem_exponent (cs : List Char) : '\n' ∉ exponent cs := by
  unfold exponent
  split
  · exact List.not_mem_nil
  · next c cs =>
    have hdigits := newline_not_mem_takeWhile (p := isDigit) (by decide) (cs.drop (sign cs).length)
    have hsign : '\n' ∉ sign cs := by
      unfold sign
      split <;> decide
    split
    · next hletter =>
      dsimp only
      split
      · exact List.not_mem_nil
      · rw [List.mem_append, List.mem_cons, not_or, not_or]
        refine ⟨⟨?_, hsign⟩, hdigits⟩
        rintro rfl
        revert hletter
        decide
    · exact List.not_mem_nil

theorem newline_not_mem_numberTail (cs : List Char) : '\n' ∉ numberTail cs := by
  unfold numberTail
  simp only [List.mem_append, not_or]
  exact ⟨⟨newline_not_mem_takeWhile (by decide) cs, newline_not_mem_fraction _⟩,
    newline_not_mem_exponent _⟩

theorem newline_not_mem_quotedTail (cs : List Char) : '\n' ∉ (quotedTail cs).1 := by
  fun_induction quotedTail cs with
  | case1 => decide
  | case2 => decide
  | case3 => decide
  | case4 c cs hc rest closed hrest ih =>
    rw [hrest] at ih
    simp only [List.mem_cons, not_or]
    exact ⟨by decide, fun h => hc h.symm, ih⟩
  | case5 => decide
  | case6 c cs _ _ hc rest closed hrest ih =>
    rw [hrest] at ih
    simp only [List.mem_cons, not_or]
    exact ⟨fun h => hc (.inl h.symm), ih⟩

/-- A mark is one character. -/
theorem eq_of_mark {m : Mark} (h : (tail c cs).1 = .mark m) :
    Mark.ofChar? c = some m ∧ (tail c cs).2 = [] := by
  rcases taken_of_shape h with ⟨more, htail, htaken⟩
  rw [htail]
  cases htaken with
  | mark hc => exact ⟨hc, rfl⟩

theorem eq_newline_of_ofChar? (h : Mark.ofChar? c = some .newline) : c = '\n' := by
  unfold Mark.ofChar? at h
  split at h <;> first | rfl | cases h

theorem eq_closeBrace_of_ofChar? (h : Mark.ofChar? c = some .closeBrace) : c = '}' := by
  unfold Mark.ofChar? at h
  split at h <;> first | rfl | cases h

/-- What goes over a line end is the line end, a block comment or a heredoc. -/
theorem newline_mem_next (h : '\n' ∈ (next c cs).text) :
    (c = '\n' ∧ next c cs = ⟨.mark .newline, ['\n']⟩) ∨
      (∃ closed, (next c cs).shape = .blockComment closed) ∨
        ∃ doc, (next c cs).shape = .heredoc doc := by
  rw [next_text, List.mem_cons] at h
  rcases h with rfl | h
  · exact .inl ⟨rfl, rfl⟩
  · have htaken := tail_taken c cs
    have hnext : (next c cs).shape = (tail c cs).1 := rfl
    rw [hnext]
    refine .inr ?_
    generalize (tail c cs).1 = shape, (tail c cs).2 = more at htaken h ⊢
    -- By the form of the lexeme: only two run over a line break, the rest stop in front of it.
    cases htaken with
    | blank => exact absurd h (newline_not_mem_takeWhile (by decide) cs)
    | hash => exact absurd h (newline_not_mem_takeWhile (by decide) cs)
    | word => exact absurd h (newline_not_mem_takeWhile (by decide +kernel) cs)
    | number => exact absurd h (newline_not_mem_numberTail cs)
    | quoted => exact absurd h (newline_not_mem_quotedTail cs)
    | mark => cases h
    | stray => cases h
    | slashes =>
      rcases List.mem_cons.1 h with hslash | hrest
      · exact absurd hslash (by decide)
      · exact absurd hrest (newline_not_mem_takeWhile (p := (· ≠ '\n')) (by decide) _)
    | blockComment => exact .inl ⟨_, rfl⟩
    | heredoc => exact .inr ⟨_, rfl⟩
    | brokenHeredoc =>
      rcases List.mem_cons.1 h with hless | hrest
      · exact absurd hless (by decide)
      · exact absurd hrest (newline_not_mem_introducer _)

/-! ## Comments and heredocs that are never closed -/

theorem eq_of_blockComment {closed : Bool} (h : (tail c cs).1 = .blockComment closed) :
    ∃ rest, c = '/' ∧ cs = '*' :: rest ∧ (tail c cs).2 = '*' :: (commentTail rest).1 ∧
      closed = (commentTail rest).2 := by
  rcases taken_of_shape h with ⟨more, htail, htaken⟩
  rw [htail]
  cases htaken with
  | blockComment rest => exact ⟨rest, rfl, rfl, rfl, rfl⟩

/-- A comment that is never closed takes all of the text. -/
theorem commentTail_of_open (h : (commentTail cs).2 = false) : (commentTail cs).1 = cs := by
  fun_induction commentTail cs with
  | case1 => rfl
  | case2 => cases h
  | case3 c cs _ rest closed hrest ih =>
    rw [hrest] at ih
    exact congrArg (c :: ·) (ih h)

theorem eq_of_heredoc {doc : Heredoc} (h : (tail c cs).1 = .heredoc doc) :
    ∃ rest body, c = '<' ∧ cs = '<' :: rest ∧ heredocMarker rest ≠ [] ∧
      rest = introducer rest ++ '\n' :: body ∧
      (tail c cs).2 = '<' :: introducer rest ++
        '\n' :: body.take (bodyLines (heredocMarker rest) [] body).2.2 := by
  rcases taken_of_shape h with ⟨more, htail, htaken⟩
  rw [htail]
  cases htaken with
  | @heredoc rest body hmarker hbody =>
    refine ⟨rest, body, rfl, rfl, hmarker, ?_, rfl⟩
    rw [← hbody, List.prefix_iff_eq_append.1 (introducer_isPrefix rest)]

/-- A heredoc none of the lines behind which is its marker takes all of the text. -/
theorem bodyLines_of_open {mark line cs : List Char}
    (hfirst : Text.trim (line.reverse ++ firstLine cs) ≠ mark)
    (hbehind : ∀ l ∈ linesBehind cs, Text.trim l ≠ mark) :
    (bodyLines mark line cs).2.2 = cs.length := by
  fun_induction bodyLines mark line cs with
  | case1 => rfl
  | case2 => rfl
  | case3 => rfl
  | case4 line cs hmark =>
    rw [Text.firstLine_newline, List.append_nil] at hfirst
    exact absurd hmark hfirst
  | case5 line cs _ lines closed n hrest ih =>
    rw [Text.linesBehind_newline, Text.splitAtChar_eq] at hbehind
    rcases List.forall_mem_cons.1 hbehind with ⟨hnext, hbehind⟩
    have hlength : n = cs.length := by simpa [hrest] using ih hnext hbehind
    exact congrArg Nat.succ hlength
  | case6 line c cs hc lines closed n hrest ih =>
    rw [Text.linesBehind_cons hc] at hbehind
    rw [Text.firstLine_cons hc] at hfirst
    have hlength : n = cs.length := by simpa [hrest] using ih (by simpa using hfirst) hbehind
    exact congrArg Nat.succ hlength

end Lexeme

/-! ## Lines -/

/-- The text of a line behind its indentation: nothing, a comment, a closing brace, or a name and an
equals sign in front of a text without a closing brace. A comment that is closed on its line ends
the line. -/
inductive ItemText : List Char → Prop where
  | blank : ItemText []
  | hash (text : List Char) : ItemText ('#' :: text)
  | slashes (text : List Char) : ItemText ('/' :: '/' :: text)
  | opened (text : List Char) (h : (Lexeme.commentTail text).2 = false) :
    ItemText ('/' :: '*' :: text)
  | closed (text gap : List Char) (h : Lexeme.commentTail text = (text, true))
      (hgap : ∀ c ∈ gap, Lexeme.isSpace c = true) : ItemText ('/' :: '*' :: (text ++ gap))
  | brace (gap : List Char) (hgap : ∀ c ∈ gap, Lexeme.isSpace c = true) : ItemText ('}' :: gap)
  | definition (c : Char) (name gap text : List Char) (hstart : Lexeme.startsWord c = true)
      (hname : ∀ c ∈ name, Lexeme.continuesWord c = true)
      (hgap : ∀ c ∈ gap, Lexeme.isSpace c = true) (htext : '}' ∉ text) :
    ItemText (c :: (name ++ (gap ++ '=' :: text)))

/-- The line is blank, a comment, a closing brace, or a name and an equals sign in front of a text
without a closing brace. -/
def ItemLine (line : List Char) : Prop := ItemText (line.dropWhile Lexeme.isSpace)

section

open Lexeme (isSpace continuesWord marker eq_of_isSpace)

theorem isBlank_of_isSpace {c : Char} (h : isSpace c = true) : Text.isBlank c = true := by
  rcases eq_of_isSpace h with rfl | rfl | rfl <;> decide

theorem trim_eq_nil {line : List Char} (h : line.dropWhile isSpace = []) : Text.trim line = [] :=
  Text.trim_eq_nil_iff.2 fun c hc => isBlank_of_isSpace (List.dropWhile_eq_nil_iff.1 h c hc)

theorem mem_marker {c : Char} {cs : List Char} (h : c ∈ marker cs) : continuesWord c = true := by
  unfold marker at h
  split at h
  · cases h
  · split at h
    · next hstart =>
      rcases List.mem_cons.1 h with rfl | hrest
      · exact Lexeme.continuesWord_of_startsWord hstart
      · exact List.mem_takeWhile_imp hrest
    · cases h

/-- No such line closes a heredoc. -/
theorem ItemLine.trim_ne_marker {line cs : List Char} (h : ItemLine line) (hcs : marker cs ≠ []) :
    Text.trim line ≠ marker cs := by
  -- Some character of the line is neither blank nor part of a word.
  have hsign : ∀ c, c ∈ line.dropWhile isSpace → Text.isBlank c = false → continuesWord c = false →
      Text.trim line ≠ marker cs := by
    intro c hc hblank hcontinue heq
    have hmem := Text.mem_trim (List.dropWhile_suffix isSpace |>.subset hc) hblank
    rw [heq] at hmem
    rw [mem_marker hmem] at hcontinue
    cases hcontinue
  unfold ItemLine at h
  generalize htext : line.dropWhile isSpace = text at h hsign
  cases h with
  | blank =>
    rw [trim_eq_nil htext]
    exact hcs.symm
  | hash => exact hsign '#' List.mem_cons_self (by decide) (by decide +kernel)
  | slashes => exact hsign '/' List.mem_cons_self (by decide) (by decide +kernel)
  | opened => exact hsign '/' List.mem_cons_self (by decide) (by decide +kernel)
  | closed => exact hsign '/' List.mem_cons_self (by decide) (by decide +kernel)
  | brace => exact hsign '}' List.mem_cons_self (by decide) (by decide +kernel)
  | definition => exact hsign '=' (by simp) (by decide) (by decide +kernel)

end

/-! ## Ends of lines -/

/-- Nothing but blanks and comments stands in front of the next line end. -/
inductive EndsLine : List Lexeme → Prop where
  | nil : EndsLine []
  | newline (text : List Char) (xs : List Lexeme) : EndsLine (⟨.mark .newline, text⟩ :: xs)
  | blank (text : List Char) {xs : List Lexeme} (h : EndsLine xs) : EndsLine (⟨.blank, text⟩ :: xs)
  | lineComment (text : List Char) {xs : List Lexeme} (h : EndsLine xs) :
    EndsLine (⟨.lineComment, text⟩ :: xs)
  | blockComment (closed : Bool) (text : List Char) {xs : List Lexeme} (h : EndsLine xs) :
    EndsLine (⟨.blockComment closed, text⟩ :: xs)

/-- Whether the place behind a lexeme is in front of an item, if the place in front of it is. -/
def Shape.leavesFront (front : Bool) : Shape → Bool
  | .mark .newline | .mark .closeBrace => true
  | .blank | .lineComment | .blockComment _ => front
  | _ => false

theorem Shape.leavesFront_false {shape : Shape} (hnewline : shape ≠ .mark .newline)
    (hbrace : shape ≠ .mark .closeBrace) : shape.leavesFront false = false := by
  unfold leavesFront
  split
  · exact absurd rfl hnewline
  · exact absurd rfl hbrace
  · rfl
  · rfl
  · rfl
  · rfl

/-- The line ends. Else a line without a comment starts if the place is in front of an item, and
there is no closing brace on the line if it is not. -/
def ContinuesLine (front : Bool) (xs : List Lexeme) : Prop :=
  EndsLine xs ∨
    if front then ItemLine (firstLine (xs.flatMap Lexeme.text))
    else '}' ∉ firstLine (xs.flatMap Lexeme.text)

/-- The last lines of the comments that go over a line end go on like lines without a comment. -/
def CommentsContinue : Bool → List Lexeme → Prop
  | _, [] => True
  | front, x :: xs =>
    (x.shape = .blockComment true → '\n' ∈ x.text → ContinuesLine front xs) ∧
      CommentsContinue (x.shape.leavesFront front) xs

theorem CommentsContinue.tail {front behind : Bool} {x : Lexeme} {xs : List Lexeme}
    (h : CommentsContinue front (x :: xs)) (hx : x.shape.leavesFront front = behind) :
    CommentsContinue behind xs := by
  rw [← hx]
  exact h.2

theorem CommentsContinue.of_forall {front : Bool} {xs : List Lexeme}
    (h : ∀ x ∈ xs, x.shape ≠ .blockComment true) : CommentsContinue front xs := by
  induction xs generalizing front with
  | nil => trivial
  | cons x xs ih =>
    rw [List.forall_mem_cons] at h
    exact ⟨fun hx => absurd hx h.1, ih h.2⟩

namespace Lexeme

variable {c : Char} {cs : List Char}

theorem append_rest (c : Char) (cs : List Char) :
    c :: cs = (next c cs).text ++ cs.drop (tail c cs).2.length := by
  rw [next_text, List.cons_append, List.prefix_iff_eq_append.1 (tail_isPrefix c cs)]

theorem length_rest_lt (c : Char) (cs : List Char) :
    (cs.drop (tail c cs).2.length).length < (c :: cs).length := by
  rw [List.length_drop, List.length_cons]
  omega

/-- Blanks at the front are one lexeme. -/
theorem split_blanks (cs : List Char) : cs.dropWhile isSpace = cs ∨
    ∃ text, split cs = ⟨.blank, text⟩ :: split (cs.dropWhile isSpace) := by
  cases cs with
  | nil => exact .inl rfl
  | cons c cs =>
    by_cases hspace : isSpace c = true
    · refine .inr ⟨c :: cs.takeWhile isSpace, ?_⟩
      have htail := tail_blank hspace cs
      have hdrop : cs.drop (cs.takeWhile isSpace).length = (c :: cs).dropWhile isSpace := by
        have hleft : (cs.takeWhile isSpace ++ cs.dropWhile isSpace).drop
            (cs.takeWhile isSpace).length = cs.dropWhile isSpace := List.drop_left
        rw [List.takeWhile_append_dropWhile] at hleft
        rw [List.dropWhile_cons, if_pos hspace, hleft]
      rw [split_cons, next, htail, hdrop]
    · rw [List.dropWhile_cons, if_neg hspace]
      exact .inl rfl

end Lexeme

open Lexeme (split isSpace)

theorem endsLine_rest {rest : List Char} (h : rest = [] ∨ ∃ more, rest = '\n' :: more) :
    EndsLine (split rest) := by
  rcases h with rfl | ⟨more, rfl⟩
  · exact .nil
  · rw [Lexeme.split_newline]
    exact .newline _ _

theorem endsLine_gap {gap rest : List Char} (hgap : ∀ c ∈ gap, isSpace c = true)
    (h : rest = [] ∨ ∃ more, rest = '\n' :: more) : EndsLine (split (gap ++ rest)) := by
  have hdrop : (gap ++ rest).dropWhile isSpace = rest := by
    rw [List.dropWhile_append_of_pos hgap]
    rcases h with rfl | ⟨more, rfl⟩
    · rfl
    · rfl
  rcases Lexeme.split_blanks (gap ++ rest) with hnone | ⟨text, hsplit⟩
  · rw [← hnone, hdrop]
    exact endsLine_rest h
  · rw [hsplit, hdrop]
    exact .blank _ (endsLine_rest h)

namespace Lexeme

/-! ## Comments on one line -/

theorem commentTail_cons {c : Char} {cs : List Char} (h : ∀ rest, c = '*' → cs ≠ '/' :: rest) :
    commentTail (c :: cs) = (c :: (commentTail cs).1, (commentTail cs).2) := by
  rw [commentTail]
  intro rest hc hcs
  exact h rest hc hcs

/-- What stands behind a comment does not matter. -/
theorem commentTail_append {text : List Char} (h : (commentTail text).2 = true) (more : List Char) :
    commentTail (text ++ more) = commentTail text := by
  induction text with
  | nil => cases h
  | cons c text ih =>
    by_cases hclose : ∃ rest, c = '*' ∧ text = '/' :: rest
    · rcases hclose with ⟨rest, rfl, rfl⟩
      rfl
    · have hno : ∀ rest, c = '*' → text ≠ '/' :: rest :=
        fun rest hc htext => hclose ⟨rest, hc, htext⟩
      rw [commentTail_cons hno] at h ⊢
      have hmore : ∀ rest, c = '*' → text ++ more ≠ '/' :: rest := by
        intro rest hc hrest
        cases text with
        | nil => cases h
        | cons d text => exact hno text hc (congrArg (· :: text) (List.cons.inj hrest).1)
      rw [List.cons_append, commentTail_cons hmore, ih h]

/-- A comment that is not closed on its line goes over the line end. -/
theorem newline_mem_commentTail {text more : List Char} (h : (commentTail text).2 = false)
    (hmore : (commentTail (text ++ '\n' :: more)).2 = true) :
    '\n' ∈ (commentTail (text ++ '\n' :: more)).1 := by
  induction text with
  | nil =>
    have hno : ∀ rest, '\n' = '*' → more ≠ '/' :: rest := fun _ h => absurd h (by decide)
    rw [List.nil_append, commentTail_cons hno]
    exact List.mem_cons_self
  | cons c text ih =>
    have hno : ∀ rest, c = '*' → text ≠ '/' :: rest := by
      rintro rest rfl rfl
      cases h
    have hnoMore : ∀ rest, c = '*' → text ++ '\n' :: more ≠ '/' :: rest := by
      intro rest hc hrest
      cases text with
      | nil => exact absurd (List.cons.inj hrest).1 (by decide)
      | cons d text => exact hno text hc (congrArg (· :: text) (List.cons.inj hrest).1)
    rw [commentTail_cons hno] at h
    rw [List.cons_append, commentTail_cons hnoMore] at hmore ⊢
    exact List.mem_cons_of_mem _ (ih h hmore)

/-! ## Starts of lines -/

theorem tail_comment (cs : List Char) :
    tail '/' ('*' :: cs) = (.blockComment (commentTail cs).2, '*' :: (commentTail cs).1) := rfl

end Lexeme

/-! ## Tokens of such texts -/

/-- Wherever the lexemes stand, an item starts behind every line end and closing brace of their
tokens. -/
def Itemizes (xs : List Lexeme) : Prop := ∀ p, Itemized (Tokens.ofLexemes p xs).tokens

/-- Wherever the lexemes stand, their tokens are made of items. -/
def MakesItems (xs : List Lexeme) : Prop :=
  ∀ p, StartsItem (Tokens.ofLexemes p xs).tokens ∧ Itemized (Tokens.ofLexemes p xs).tokens

theorem Itemized.nil : Itemized [] := by
  intro t rest h
  have hnil := List.suffix_nil.1 h
  cases hnil

theorem Itemized.cons {t : Token} {ts : List Token} (hts : Itemized ts)
    (ht : t.kind = .mark .newline ∨ t.kind = .mark .closeBrace → StartsItem ts) :
    Itemized (t :: ts) := by
  intro u rest h hu
  rcases List.suffix_cons_iff.1 h with heq | hsuffix
  · cases heq
    exact ht hu
  · exact hts u rest hsuffix hu

theorem MakesItems.nil : MakesItems [] := fun _ => ⟨trivial, .nil⟩

/-- One lexeme alone. -/
theorem Itemizes.single (x : Lexeme) : Itemizes [x] := by
  intro p
  rw [Tokens.ofLexemes, Tokens.append]
  rcases Tokens.ofLexeme_tokens p x with hnone | ⟨kind, hone⟩
  · rw [hnone]
    exact .nil
  · rw [hone]
    exact Itemized.nil.cons fun _ => trivial

theorem MakesItems.itemizes {xs : List Lexeme} (h : MakesItems xs) : Itemizes xs := fun p => (h p).2

/-- Lexemes that stand for nothing do not matter. -/
theorem MakesItems.gap {x : Lexeme} {xs : List Lexeme} (h : MakesItems xs)
    (hx : ∀ p, (Tokens.ofLexeme p x).tokens = []) : MakesItems (x :: xs) := by
  intro p
  rw [Tokens.ofLexemes, Tokens.append, hx]
  exact h _

theorem Itemizes.gap {x : Lexeme} {xs : List Lexeme} (h : Itemizes xs)
    (hx : ∀ p, (Tokens.ofLexeme p x).tokens = []) : Itemizes (x :: xs) := by
  intro p
  rw [Tokens.ofLexemes, Tokens.append, hx]
  exact h _

theorem MakesItems.newline {text : List Char} {xs : List Lexeme} (h : MakesItems xs) :
    MakesItems (⟨.mark .newline, text⟩ :: xs) :=
  fun _ => ⟨.inl rfl, (h _).2.cons fun _ => (h _).1⟩

theorem MakesItems.closeBrace {text : List Char} {xs : List Lexeme} (h : MakesItems xs) :
    MakesItems (⟨.mark .closeBrace, text⟩ :: xs) :=
  fun _ => ⟨.inr (.inl rfl), (h _).2.cons fun _ => (h _).1⟩

/-- A name and an equals sign. -/
theorem MakesItems.definition {word equals : List Char} {xs : List Lexeme} (h : Itemizes xs) :
    MakesItems (⟨.word, word⟩ :: ⟨.mark .equals, equals⟩ :: xs) := by
  refine fun p => ⟨.inr (.inr ⟨_, rfl, rfl⟩), ((h _).cons ?_).cons ?_⟩
  · rintro (hkind | hkind) <;> cases hkind
  · rintro (hkind | hkind) <;> cases hkind

/-- A name, blanks and an equals sign. -/
theorem MakesItems.spacedDefinition {word blank equals : List Char} {xs : List Lexeme}
    (h : Itemizes xs) :
    MakesItems (⟨.word, word⟩ :: ⟨.blank, blank⟩ :: ⟨.mark .equals, equals⟩ :: xs) := by
  refine fun p => ⟨.inr (.inr ⟨_, rfl, rfl⟩), ((h _).cons ?_).cons ?_⟩
  · rintro (hkind | hkind) <;> cases hkind
  · rintro (hkind | hkind) <;> cases hkind

/-- What is said about a text behind which there are only such lines: its tokens are made of items
if its first line is blank from here on, or if it stands in front of an item and its first line is
such a line; inside an item they go on with items if there is no closing brace on its first line. -/
structure Lined (cs : List Char) : Prop where
  endsLine : ∀ front, CommentsContinue front (split cs) → EndsLine (split cs) →
    MakesItems (split cs)
  inside : CommentsContinue false (split cs) → '}' ∉ firstLine cs → Itemizes (split cs)
  start : CommentsContinue true (split cs) → ItemLine (firstLine cs) → MakesItems (split cs)

/-- The text and what follows have been shown to be `Lined`. -/
def LinedBelow (n : Nat) : Prop :=
  ∀ cs, cs.length < n → (∀ l ∈ linesBehind cs, ItemLine l) → Lined cs

section

variable {c : Char} {cs : List Char}

theorem LinedBelow.rest (hbelow : LinedBelow (c :: cs).length)
    (hlines : ∀ l ∈ linesBehind (c :: cs), ItemLine l) :
    Lined (cs.drop (Lexeme.tail c cs).2.length) := by
  refine hbelow _ (Lexeme.length_rest_lt c cs) fun l hl => hlines l ?_
  rw [Lexeme.append_rest c cs]
  exact Text.mem_linesBehind_append _ hl

/-- Behind a line end a line starts. -/
theorem LinedBelow.newline (hbelow : LinedBelow ('\n' :: cs).length)
    (hlines : ∀ l ∈ linesBehind ('\n' :: cs), ItemLine l) {front : Bool}
    (hcomments : CommentsContinue front (split ('\n' :: cs))) :
    MakesItems (split ('\n' :: cs)) := by
  have hrest := hbelow.rest hlines
  rw [Lexeme.split_newline] at hcomments ⊢
  rw [Text.linesBehind_newline, Text.splitAtChar_eq] at hlines
  exact (hrest.start hcomments.2 (hlines _ List.mem_cons_self)).newline

theorem LinedBelow.endsLine (hbelow : LinedBelow (c :: cs).length)
    (hlines : ∀ l ∈ linesBehind (c :: cs), ItemLine l) (front : Bool)
    (hcomments : CommentsContinue front (split (c :: cs))) (h : EndsLine (split (c :: cs))) :
    MakesItems (split (c :: cs)) := by
  have hrest := hbelow.rest hlines
  have hnewline : c = '\n' → MakesItems (split (c :: cs)) := by
    rintro rfl
    exact hbelow.newline hlines hcomments
  rw [Lexeme.split_cons] at h hcomments hnewline ⊢
  generalize hx : Lexeme.next c cs = x at h hcomments hnewline ⊢
  cases h with
  | newline text =>
    have hmark : (Lexeme.tail c cs).1 = .mark .newline := congrArg Lexeme.shape hx
    exact hnewline (Lexeme.eq_newline_of_ofChar? (Lexeme.eq_of_mark hmark).1)
  | blank text h => exact (hrest.endsLine front hcomments.2 h).gap fun _ => rfl
  | lineComment text h => exact (hrest.endsLine front hcomments.2 h).gap fun _ => rfl
  | blockComment closed text h => exact (hrest.endsLine front hcomments.2 h).gap fun _ => rfl

/-- A comment that is never closed is the last lexeme. -/
theorem rest_of_open (h : (Lexeme.tail c cs).1 = .blockComment false) :
    cs.drop (Lexeme.tail c cs).2.length = [] := by
  rcases Lexeme.eq_of_blockComment h with ⟨rest, -, rfl, htail, hopen⟩
  rw [htail, Lexeme.commentTail_of_open hopen.symm, List.drop_length]

/-- A heredoc in front of such lines is the last lexeme. -/
theorem rest_of_heredoc {doc : Heredoc} (h : (Lexeme.tail c cs).1 = .heredoc doc)
    (hlines : ∀ l ∈ linesBehind (c :: cs), ItemLine l) :
    cs.drop (Lexeme.tail c cs).2.length = [] := by
  rcases Lexeme.eq_of_heredoc h with ⟨rest, body, rfl, rfl, hmarker, hrest, htail⟩
  have hbody : ∀ l ∈ splitAtChar '\n' body, Text.trim l ≠ Lexeme.heredocMarker rest := by
    intro l hl
    refine (hlines l ?_).trim_ne_marker hmarker
    rw [hrest]
    exact Text.mem_linesBehind_append ('<' :: '<' :: Lexeme.introducer rest) hl
  rw [Text.splitAtChar_eq] at hbody
  rcases List.forall_mem_cons.1 hbody with ⟨hfirst, hbehind⟩
  have hall : (Lexeme.bodyLines (Lexeme.heredocMarker rest) [] body).2.2 = body.length :=
    Lexeme.bodyLines_of_open hfirst hbehind
  rw [htail, hall, List.take_length]
  refine List.drop_eq_nil_of_le (Nat.le_of_eq ?_)
  have hlength := congrArg List.length hrest
  simp only [List.length_append, List.length_cons] at hlength ⊢
  omega

/-- Only a mark stands for a mark. -/
theorem shape_of_mark {p : Pos} {x : Lexeme} {t : Token} {m : Mark}
    (ht : t ∈ (Tokens.ofLexeme p x).tokens) (hm : t.kind = .mark m) : x.shape = .mark m := by
  have htells := Tokens.tells_of_mem ht
  rwa [hm] at htells

/-- A lexeme with a line end in it is that line end, a comment or the last heredoc. -/
theorem LinedBelow.acrossLines (hbelow : LinedBelow (c :: cs).length)
    (hlines : ∀ l ∈ linesBehind (c :: cs), ItemLine l)
    (hcomments : CommentsContinue false (split (c :: cs)))
    (hline : '\n' ∈ (Lexeme.next c cs).text) : Itemizes (split (c :: cs)) := by
  have hrest := hbelow.rest hlines
  have hbehind := hcomments
  rw [Lexeme.split_cons] at hbehind
  rcases Lexeme.newline_mem_next hline with ⟨rfl, -⟩ | ⟨closed, hshape⟩ | ⟨doc, hshape⟩
  · exact (hbelow.newline hlines hcomments).itemizes
  · have hgap : ∀ p, (Tokens.ofLexeme p (Lexeme.next c cs)).tokens = [] := by
      intro p
      simp only [Tokens.ofLexeme, hshape]
    rw [Lexeme.split_cons]
    refine Itemizes.gap ?_ hgap
    cases closed with
    -- A closed comment may end in the middle of a line, so its place in the line matters.
    | true =>
      have hflag : CommentsContinue false (split (cs.drop (Lexeme.tail c cs).2.length)) := by
        refine hbehind.tail ?_
        rw [hshape]
        rfl
      rcases hbehind.1 hshape hline with hends | hbrace
      · exact (hrest.endsLine false hflag hends).itemizes
      · rw [Lexeme.flatMap_text_split] at hbrace
        exact hrest.inside hflag hbrace
    -- An open comment swallows the rest of the text.
    | false =>
      rw [rest_of_open hshape]
      exact MakesItems.nil.itemizes
  · rw [Lexeme.split_cons, rest_of_heredoc hshape hlines]
    exact .single _

/-- Behind a lexeme within the line the same line goes on. -/
theorem LinedBelow.withinLine (hbelow : LinedBelow (c :: cs).length)
    (hlines : ∀ l ∈ linesBehind (c :: cs), ItemLine l)
    (hcomments : CommentsContinue false (split (c :: cs)))
    (hline : '\n' ∉ (Lexeme.next c cs).text) (h : '}' ∉ firstLine (c :: cs)) :
    Itemizes (split (c :: cs)) := by
  rw [Lexeme.append_rest c cs, Text.firstLine_append hline, List.mem_append, not_or] at h
  rw [Lexeme.split_cons] at hcomments
  have hnewline : (Lexeme.next c cs).shape ≠ .mark .newline := by
    intro hmark
    have hc := Lexeme.eq_newline_of_ofChar? (Lexeme.eq_of_mark hmark).1
    exact hline (hc ▸ List.mem_cons_self)
  have hbrace : (Lexeme.next c cs).shape ≠ .mark .closeBrace := by
    intro hmark
    have hc := Lexeme.eq_closeBrace_of_ofChar? (Lexeme.eq_of_mark hmark).1
    exact h.1 (hc ▸ List.mem_cons_self)
  have hitems := (hbelow.rest hlines).inside
    (hcomments.tail (Shape.leavesFront_false hnewline hbrace)) h.2
  intro p
  rw [Lexeme.split_cons, Tokens.ofLexemes, Tokens.append]
  -- A lexeme inside the line gives at most one token, neither a line break nor a closing brace.
  rcases Tokens.ofLexeme_tokens p (Lexeme.next c cs) with hnone | ⟨kind, hone⟩
  · rw [hnone]
    exact hitems _
  · rw [hone]
    have hmark : ∀ m, kind = .mark m → (Lexeme.next c cs).shape = .mark m := fun m hkind =>
      shape_of_mark (by rw [hone]; exact List.mem_singleton_self _) hkind
    refine (hitems _).cons ?_
    rintro (hkind | hkind)
    · exact absurd (hmark _ hkind) hnewline
    · exact absurd (hmark _ hkind) hbrace

theorem LinedBelow.inside (hbelow : LinedBelow (c :: cs).length)
    (hlines : ∀ l ∈ linesBehind (c :: cs), ItemLine l)
    (hcomments : CommentsContinue false (split (c :: cs))) (h : '}' ∉ firstLine (c :: cs)) :
    Itemizes (split (c :: cs)) := by
  by_cases hline : '\n' ∈ (Lexeme.next c cs).text
  · exact hbelow.acrossLines hlines hcomments hline
  · exact hbelow.withinLine hlines hcomments hline h

/-- A comment at the start of a line. -/
theorem LinedBelow.comment (hbelow : LinedBelow (c :: cs).length)
    (hlines : ∀ l ∈ linesBehind (c :: cs), ItemLine l)
    (hcomments : CommentsContinue true (split (c :: cs)))
    (hshape : (Lexeme.tail c cs).1 = .lineComment ∨
      ∃ closed, (Lexeme.tail c cs).1 = .blockComment closed)
    (h : EndsLine (split (cs.drop (Lexeme.tail c cs).2.length)) ∨
      ItemLine (firstLine (cs.drop (Lexeme.tail c cs).2.length))) :
    MakesItems (split (c :: cs)) := by
  have hrest := hbelow.rest hlines
  rw [Lexeme.split_cons] at hcomments ⊢
  have hnext : (Lexeme.next c cs).shape = (Lexeme.tail c cs).1 := rfl
  have hfront : (Lexeme.next c cs).shape.leavesFront true = true := by
    rcases hshape with hshape | ⟨closed, hshape⟩
    · rw [hnext, hshape]
      rfl
    · rw [hnext, hshape]
      rfl
  have hitems : MakesItems (split (cs.drop (Lexeme.tail c cs).2.length)) := by
    rcases h with hends | hline
    · exact hrest.endsLine true (hcomments.tail hfront) hends
    · exact hrest.start (hcomments.tail hfront) hline
  -- A comment gives no token, so the items are those of what follows it.
  refine hitems.gap fun p => ?_
  rcases hshape with hshape | ⟨closed, hshape⟩
  · simp only [Tokens.ofLexeme, hnext, hshape]
  · simp only [Tokens.ofLexeme, hnext, hshape]

/-- Behind a comment that is not closed on its line its last line goes on. -/
theorem continuesLine_opened {front : Bool}
    (hcomments : CommentsContinue front (split ('/' :: '*' :: cs)))
    (hopen : (Lexeme.commentTail (firstLine cs)).2 = false) :
    ContinuesLine front (split (('*' :: cs).drop (Lexeme.tail '/' ('*' :: cs)).2.length)) := by
  have htail := Lexeme.tail_comment cs
  rw [Lexeme.split_cons, Lexeme.next, htail] at hcomments
  cases hclosed : (Lexeme.commentTail cs).2 with
  | false =>
    rw [rest_of_open (by rw [htail, hclosed])]
    exact .inl .nil
  | true =>
    refine hcomments.1 (by rw [hclosed]) ?_
    rcases Text.exists_rest cs with ⟨rest, hcs, rfl | ⟨more, rfl⟩⟩
    · rw [List.append_nil] at hcs
      rw [← hcs, hclosed] at hopen
      cases hopen
    · rw [hcs] at hclosed ⊢
      have hmem := Lexeme.newline_mem_commentTail hopen hclosed
      exact List.mem_cons_of_mem _ (List.mem_cons_of_mem _ hmem)

/-- Behind a comment that is closed at the end of its line the line ends. -/
theorem endsLine_closed {text gap : List Char} (hfirst : firstLine cs = text ++ gap)
    (hclosed : Lexeme.commentTail text = (text, true)) (hgap : ∀ c ∈ gap, isSpace c = true) :
    EndsLine (split (('*' :: cs).drop (Lexeme.tail '/' ('*' :: cs)).2.length)) := by
  rcases Text.exists_rest cs with ⟨rest, hcs, hend⟩
  have hcomment : Lexeme.commentTail cs = (text, true) := by
    rw [hcs, hfirst, List.append_assoc, Lexeme.commentTail_append (by rw [hclosed]), hclosed]
  have hdrop : ('*' :: cs).drop (Lexeme.tail '/' ('*' :: cs)).2.length = gap ++ rest := by
    rw [Lexeme.tail_comment, hcomment, List.length_cons, List.drop_succ_cons, hcs, hfirst,
      List.append_assoc, List.drop_left]
  rw [hdrop]
  exact endsLine_gap hgap hend

theorem LinedBelow.closeBrace (hbelow : LinedBelow ('}' :: cs).length)
    (hlines : ∀ l ∈ linesBehind ('}' :: cs), ItemLine l)
    (hcomments : CommentsContinue true (split ('}' :: cs)))
    (hgap : ∀ c ∈ firstLine cs, isSpace c = true) : MakesItems (split ('}' :: cs)) := by
  have hrest : Lined cs := hbelow.rest hlines
  rw [Lexeme.split_cons] at hcomments ⊢
  rcases Text.exists_rest cs with ⟨rest, hcs, hend⟩
  have hitems : MakesItems (split cs) := by
    refine hrest.endsLine true hcomments.2 ?_
    rw [hcs]
    exact endsLine_gap hgap hend
  exact hitems.closeBrace

theorem takeWhile_continuesWord {gap more : List Char} (hgap : ∀ c ∈ gap, isSpace c = true) :
    (gap ++ '=' :: more).takeWhile Lexeme.continuesWord = [] := by
  have hequals : Lexeme.continuesWord '=' = false := by decide +kernel
  cases gap with
  | nil =>
    rw [List.nil_append, List.takeWhile_cons, hequals]
    rfl
  | cons c gap =>
    have hspace : Lexeme.continuesWord c = false := by
      rcases Lexeme.eq_of_isSpace (hgap c List.mem_cons_self) with rfl | rfl | rfl <;> decide +kernel
    rw [List.cons_append, List.takeWhile_cons, hspace]
    rfl

/-- A name and an equals sign, with blanks between them or without, are lexemes of their own. -/
theorem split_definition {name gap more : List Char} (hstart : Lexeme.startsWord c = true)
    (hname : ∀ c ∈ name, Lexeme.continuesWord c = true) (hgap : ∀ c ∈ gap, isSpace c = true) :
    split (c :: (name ++ (gap ++ '=' :: more))) =
        ⟨.word, c :: name⟩ :: ⟨.mark .equals, ['=']⟩ :: split more ∨
      ∃ blank, split (c :: (name ++ (gap ++ '=' :: more))) =
        ⟨.word, c :: name⟩ :: ⟨.blank, blank⟩ :: ⟨.mark .equals, ['=']⟩ :: split more := by
  have hword : Lexeme.tail c (name ++ (gap ++ '=' :: more)) = (.word, name) := by
    rw [Lexeme.tail_word hstart, List.takeWhile_append_of_pos hname,
      takeWhile_continuesWord hgap, List.append_nil]
  have hdrop : (gap ++ '=' :: more).dropWhile isSpace = '=' :: more := by
    rw [List.dropWhile_append_of_pos hgap]
    rfl
  have hequals : split ('=' :: more) = ⟨.mark .equals, ['=']⟩ :: split more := by
    rw [Lexeme.split_cons]
    rfl
  rw [Lexeme.split_cons, Lexeme.next, hword, List.drop_left]
  rcases Lexeme.split_blanks (gap ++ '=' :: more) with hnone | ⟨blank, hblank⟩
  · rw [← hnone, hdrop, hequals]
    exact .inl rfl
  · rw [hblank, hdrop, hequals]
    exact .inr ⟨blank, rfl⟩

/-- A name and an equals sign at the start of a line. -/
theorem LinedBelow.definition {name gap text : List Char} (hbelow : LinedBelow (c :: cs).length)
    (hlines : ∀ l ∈ linesBehind (c :: cs), ItemLine l)
    (hcomments : CommentsContinue true (split (c :: cs))) (hstart : Lexeme.startsWord c = true)
    (hfirst : firstLine cs = name ++ (gap ++ '=' :: text))
    (hname : ∀ c ∈ name, Lexeme.continuesWord c = true) (hgap : ∀ c ∈ gap, isSpace c = true)
    (htext : '}' ∉ text) : MakesItems (split (c :: cs)) := by
  rcases Text.exists_rest cs with ⟨rest, hcs, hend⟩
  rw [hfirst, List.append_assoc, List.append_assoc, List.cons_append] at hcs
  have hsplit := @split_definition c name gap (text ++ rest) hstart hname hgap
  rw [← hcs] at hsplit
  have hinside : Itemizes (split (text ++ rest)) := by
    have hlined : Lined (text ++ rest) := by
      refine hbelow _ ?_ fun l hl => hlines l ?_
      · rw [hcs]
        simp only [List.length_cons, List.length_append]
        omega
      · have hmem := Text.mem_linesBehind_append (c :: (name ++ (gap ++ ['=']))) hl
        rw [hcs]
        simpa using hmem
    have hvalue : CommentsContinue false (split (text ++ rest)) := by
      rcases hsplit with hsplit | ⟨blank, hsplit⟩
      · rw [hsplit] at hcomments
        exact hcomments.2.2
      · rw [hsplit] at hcomments
        exact hcomments.2.2.2
    refine hlined.inside hvalue ?_
    -- The value's text is the end of a first line, so it holds no line break.
    have hline : '\n' ∉ text := by
      have hnone := Text.newline_not_mem_firstLine cs
      rw [hfirst] at hnone
      simp only [List.mem_append, List.mem_cons, not_or] at hnone
      exact hnone.2.2.2
    rw [Text.firstLine_append hline]
    rcases hend with rfl | ⟨more, rfl⟩
    · simpa [firstLine] using htext
    · simpa [Text.firstLine_newline] using htext
  rcases hsplit with hsplit | ⟨blank, hsplit⟩
  · rw [hsplit]
    exact .definition hinside
  · rw [hsplit]
    exact .spacedDefinition hinside

theorem LinedBelow.start (hbelow : LinedBelow (c :: cs).length)
    (hlines : ∀ l ∈ linesBehind (c :: cs), ItemLine l)
    (hcomments : CommentsContinue true (split (c :: cs))) (h : ItemLine (firstLine (c :: cs))) :
    MakesItems (split (c :: cs)) := by
  have hrest := hbelow.rest hlines
  by_cases hspace : isSpace c = true
  · -- Behind its indentation there is the same line.
    have htail := Lexeme.tail_blank hspace cs
    have hblank : ∀ d ∈ (Lexeme.next c cs).text, isSpace d = true := by
      rw [Lexeme.next_text, htail]
      exact List.forall_mem_cons.2 ⟨hspace, fun d hd => List.mem_takeWhile_imp hd⟩
    have hline : '\n' ∉ (Lexeme.next c cs).text := fun hmem => absurd (hblank _ hmem) (by decide)
    rw [Lexeme.append_rest c cs, Text.firstLine_append hline, ItemLine,
      List.dropWhile_append_of_pos hblank] at h
    rw [Lexeme.split_cons] at hcomments ⊢
    have hfront : (Lexeme.next c cs).shape.leavesFront true = true := by
      rw [Lexeme.next, htail]
      rfl
    refine (hrest.start (hcomments.tail hfront) h).gap fun p => ?_
    simp only [Tokens.ofLexeme, Lexeme.next, htail]
  · by_cases hc : c = '\n'
    · subst hc
      exact hbelow.newline hlines hcomments
    · rw [Text.firstLine_cons hc, ItemLine, List.dropWhile_cons, if_neg hspace] at h
      generalize hline : c :: firstLine cs = line at h
      cases h with
      | blank => cases hline
      | hash text =>
        rcases List.cons.inj hline with ⟨rfl, -⟩
        have hends := endsLine_rest (Text.drop_firstLine cs)
        exact hbelow.comment hlines hcomments (.inl rfl) (.inl hends)
      | slashes text =>
        rcases List.cons.inj hline with ⟨rfl, hfirst⟩
        rcases Text.exists_of_firstLine_eq hfirst with ⟨ds, rfl, -⟩
        have hends := endsLine_rest (Text.drop_firstLine ds)
        exact hbelow.comment hlines hcomments (.inl rfl) (.inl hends)
      | opened text hopen =>
        rcases List.cons.inj hline with ⟨rfl, hfirst⟩
        rcases Text.exists_of_firstLine_eq hfirst with ⟨ds, rfl, rfl⟩
        have hcontinues := continuesLine_opened hcomments hopen
        rw [ContinuesLine, if_pos rfl, Lexeme.flatMap_text_split] at hcontinues
        exact hbelow.comment hlines hcomments (.inr ⟨_, rfl⟩) hcontinues
      | closed text gap hclosed hgap =>
        rcases List.cons.inj hline with ⟨rfl, hfirst⟩
        rcases Text.exists_of_firstLine_eq hfirst with ⟨ds, rfl, hds⟩
        have hends := endsLine_closed hds hclosed hgap
        exact hbelow.comment hlines hcomments (.inr ⟨_, rfl⟩) (.inl hends)
      | brace gap hgap =>
        rcases List.cons.inj hline with ⟨rfl, rfl⟩
        exact hbelow.closeBrace hlines hcomments hgap
      | definition d name gap text hstart hname hgap htext =>
        rcases List.cons.inj hline with ⟨rfl, hfirst⟩
        exact hbelow.definition hlines hcomments hstart hfirst hname hgap htext

end

/-- Behind every place in a text made of lines there are items. -/
theorem lined (cs : List Char) (hlines : ∀ l ∈ linesBehind cs, ItemLine l) : Lined cs := by
  -- By induction on the text that is left: a lexeme or the start of a line leaves less of it.
  induction h : cs.length using Nat.strongRecOn generalizing cs with
  | ind n ih =>
    have hbelow : LinedBelow cs.length := fun ds hds hlines =>
      ih ds.length (by rw [← h]; exact hds) ds hlines rfl
    cases cs with
    | nil =>
      have hnil : MakesItems (split []) := .nil
      exact ⟨fun _ _ _ => hnil, fun _ _ => hnil.itemizes, fun _ _ => hnil⟩
    | cons c cs =>
      exact ⟨hbelow.endsLine hlines, hbelow.inside hlines, hbelow.start hlines⟩

/-- The tokens of a text made of lines are made of items. -/
theorem makesItems_of_lines {cs : List Char} (hlines : ∀ l ∈ splitAtChar '\n' cs, ItemLine l)
    (hcomments : CommentsContinue true (split cs)) : MakesItems (split cs) := by
  rw [Text.splitAtChar_eq] at hlines
  rcases List.forall_mem_cons.1 hlines with ⟨hfirst, hbehind⟩
  exact (lined cs hbehind).start hcomments hfirst

end Overlay.Hcl
