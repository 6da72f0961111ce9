import Mathlib.Data.List.TakeWhile
import Mathlib.Tactic.SplitIfs
import Overlay.Hcl.Container

/-!
# Lexemes and the text behind them

* A lexeme is a stretch of its text: what follows its first character is a prefix of the rest
  (`tail_isPrefix`), so cutting a text is a walk over its suffixes (`split_cons`) and loses
  nothing (`flatMap_text_split`).
* A line end behind a text ends every lexeme except an open comment and a heredoc.
  `Extended` lists what a container's end makes of the last lexeme, and `split_append_back` says
  that the other lexemes stay as they are.
-/

namespace Overlay.Hcl.Lexeme

/-! ## Lexemes are prefixes -/

theorem isPrefix_append_drop {xs ys cs : List Char} (hx : xs <+: cs)
    (hy : ys <+: cs.drop xs.length) : xs ++ ys <+: cs := by
  rcases hx with ⟨rest, rfl⟩
  rw [List.drop_left] at hy
  exact (List.prefix_append_right_inj xs).2 hy

theorem isPrefix_cons {xs cs : List Char} (c : Char) (h : xs <+: cs) : c :: xs <+: c :: cs :=
  (List.prefix_cons_inj c).2 h

theorem fraction_isPrefix (cs : List Char) : fraction cs <+: cs := by
  unfold fraction
  split
  · next cs =>
    dsimp only
    split
    · exact List.nil_prefix
    · exact isPrefix_cons '.' (List.takeWhile_prefix isDigit)
  · exact List.nil_prefix

theorem sign_isPrefix (cs : List Char) : sign cs <+: cs := by
  unfold sign
  split
  · exact isPrefix_cons '+' List.nil_prefix
  · exact isPrefix_cons '-' List.nil_prefix
  · exact List.nil_prefix

theorem exponent_isPrefix (cs : List Char) : exponent cs <+: cs := by
  unfold exponent
  split
  · exact List.nil_prefix
  · next c cs =>
    dsimp only
    split
    · split
      · exact List.nil_prefix
      · rw [List.cons_append]
        exact isPrefix_cons c
          (isPrefix_append_drop (sign_isPrefix cs) (List.takeWhile_prefix isDigit))
    · exact List.nil_prefix

theorem numberTail_isPrefix (cs : List Char) : numberTail cs <+: cs := by
  have hfraction := isPrefix_append_drop (List.takeWhile_prefix isDigit (l := cs))
    (fraction_isPrefix _)
  unfold numberTail
  refine isPrefix_append_drop hfraction ?_
  rw [List.length_append]
  exact exponent_isPrefix _

theorem quotedTail_isPrefix (cs : List Char) : (quotedTail cs).1 <+: cs := by
  fun_induction quotedTail cs with
  | case1 => exact List.nil_prefix
  | case2 cs => exact isPrefix_cons '"' List.nil_prefix
  | case3 => exact List.nil_prefix
  | case4 c cs h rest closed hrest ih =>
    have hback : rest <+: cs := by simpa [hrest] using ih
    exact isPrefix_cons '\\' (isPrefix_cons c hback)
  | case5 => exact List.nil_prefix
  | case6 c cs _ _ h rest closed hrest ih =>
    have hback : rest <+: cs := by simpa [hrest] using ih
    exact isPrefix_cons c hback

theorem commentTail_isPrefix (cs : List Char) : (commentTail cs).1 <+: cs := by
  fun_induction commentTail cs with
  | case1 => exact List.nil_prefix
  | case2 cs => exact isPrefix_cons '*' (isPrefix_cons '/' List.nil_prefix)
  | case3 c cs _ rest closed hrest ih =>
    have hback : rest <+: cs := by simpa [hrest] using ih
    exact isPrefix_cons c hback

theorem marker_isPrefix (cs : List Char) : marker cs <+: cs := by
  unfold marker
  split
  · exact List.nil_prefix
  · next c cs =>
    split
    · exact isPrefix_cons c (List.takeWhile_prefix continuesWord)
    · exact List.nil_prefix

theorem bodyLines_le (mark line cs : List Char) : (bodyLines mark line cs).2.2 ≤ cs.length := by
  fun_induction bodyLines mark line cs with
  | case1 => exact Nat.zero_le _
  | case2 => exact Nat.zero_le _
  | case3 => exact Nat.zero_le _
  | case4 => exact Nat.zero_le _
  | case5 line cs _ lines closed n hrest ih =>
    have hn : n ≤ cs.length := by simpa [hrest] using ih
    exact Nat.succ_le_succ hn
  | case6 line c cs _ lines closed n hrest ih =>
    have hn : n ≤ cs.length := by simpa [hrest] using ih
    exact Nat.succ_le_succ hn

/-! ## Heredoc introducers -/

/-- The dash behind the second `<` of a heredoc, if there is one. -/
def dash : List Char → List Char
  | '-' :: _ => ['-']
  | _ => []

/-- The marker behind the second `<` of a heredoc. -/
def heredocMarker (cs : List Char) : List Char := marker (cs.drop (dash cs).length)

/-- What of a heredoc stands between its second `<` and the end of the line. -/
def introducer (cs : List Char) : List Char := dash cs ++ heredocMarker cs

theorem dash_isPrefix (cs : List Char) : dash cs <+: cs := by
  unfold dash
  split
  · exact isPrefix_cons '-' List.nil_prefix
  · exact List.nil_prefix

theorem introducer_isPrefix (cs : List Char) : introducer cs <+: cs :=
  isPrefix_append_drop (dash_isPrefix cs) (marker_isPrefix _)

theorem heredocTail_cons (cs : List Char) :
    heredocTail ('<' :: cs) =
      match heredocMarker cs, cs.drop (introducer cs).length with
      | _ :: _, '\n' :: body =>
        (.heredoc ⟨!(dash cs).isEmpty, heredocMarker cs, (bodyLines (heredocMarker cs) [] body).1,
            (bodyLines (heredocMarker cs) [] body).2.1⟩,
          '<' :: introducer cs ++ '\n' :: body.take (bodyLines (heredocMarker cs) [] body).2.2)
      | _, _ => (.brokenHeredoc, '<' :: introducer cs) := by
  unfold heredocTail
  split
  · next cs h =>
    cases h
    rfl
  · next h =>
    have hdash : dash cs = [] := by
      unfold dash
      split
      · exact absurd rfl (h _)
      · rfl
    simp only [introducer, heredocMarker, hdash]
    rfl

theorem heredocTail_body {cs body : List Char} (hmarker : heredocMarker cs ≠ [])
    (hbody : cs.drop (introducer cs).length = '\n' :: body) :
    heredocTail ('<' :: cs) =
      (.heredoc ⟨!(dash cs).isEmpty, heredocMarker cs, (bodyLines (heredocMarker cs) [] body).1,
          (bodyLines (heredocMarker cs) [] body).2.1⟩,
        '<' :: introducer cs ++ '\n' :: body.take (bodyLines (heredocMarker cs) [] body).2.2) := by
  rw [heredocTail_cons, hbody]
  rcases List.exists_cons_of_ne_nil hmarker with ⟨m, ms, hcons⟩
  rw [hcons]
  rfl

theorem heredocTail_broken {cs : List Char}
    (h : heredocMarker cs = [] ∨ (cs.drop (introducer cs).length).head? ≠ some '\n') :
    heredocTail ('<' :: cs) = (.brokenHeredoc, '<' :: introducer cs) := by
  rw [heredocTail_cons]
  split
  · next hmarker hbody =>
    rcases h with hempty | hline
    · rw [hempty] at hmarker
      cases hmarker
    · exact absurd (by rw [hbody]; rfl) hline
  · rfl

/-! ## Cutting a text -/

/-- The lexemes that start with `c` in front of `cs`: the shape of each, and what of `cs` belongs to
it. -/
inductive Taken : Char → List Char → Shape → List Char → Prop where
  | blank {c : Char} {cs : List Char} (hc : isSpace c = true) :
    Taken c cs .blank (cs.takeWhile isSpace)
  | hash (cs : List Char) : Taken '#' cs .lineComment (cs.takeWhile (· ≠ '\n'))
  | word {c : Char} {cs : List Char} (hc : startsWord c = true) :
    Taken c cs .word (cs.takeWhile continuesWord)
  | number {c : Char} {cs : List Char} (hc : isDigit c = true) : Taken c cs .number (numberTail cs)
  | quoted (cs : List Char) : Taken '"' cs (.quoted (quotedTail cs).2) (quotedTail cs).1
  | mark {c : Char} {cs : List Char} {m : Mark} (hc : Mark.ofChar? c = some m) :
    Taken c cs (.mark m) []
  | slashes (cs : List Char) :
    Taken '/' ('/' :: cs) .lineComment ('/' :: cs.takeWhile (· ≠ '\n'))
  | blockComment (cs : List Char) :
    Taken '/' ('*' :: cs) (.blockComment (commentTail cs).2) ('*' :: (commentTail cs).1)
  | heredoc {cs body : List Char} (hmarker : heredocMarker cs ≠ [])
      (hbody : cs.drop (introducer cs).length = '\n' :: body) :
    Taken '<' ('<' :: cs)
      (.heredoc ⟨!(dash cs).isEmpty, heredocMarker cs, (bodyLines (heredocMarker cs) [] body).1,
        (bodyLines (heredocMarker cs) [] body).2.1⟩)
      ('<' :: introducer cs ++ '\n' :: body.take (bodyLines (heredocMarker cs) [] body).2.2)
  | brokenHeredoc (cs : List Char) :
    Taken '<' ('<' :: cs) .brokenHeredoc ('<' :: introducer cs)
  | stray {c : Char} {cs : List Char} : Taken c cs .stray []

/-- The lexeme at the front of a text is one of these. -/
theorem tail_taken (c : Char) (cs : List Char) : Taken c cs (tail c cs).1 (tail c cs).2 := by
  unfold tail
  split_ifs with hspace hhash hword hdigit hquote
  · exact .blank hspace
  · subst hhash
    exact .hash cs
  · exact .word hword
  · exact .number hdigit
  · subst hquote
    exact .quoted cs
  · split
    · next hmark => exact .mark hmark
    · exact .slashes _
    · exact .blockComment _
    · rw [heredocTail_cons]
      split
      · next hmarker hbody => exact .heredoc (by rw [hmarker]; exact List.cons_ne_nil _ _) hbody
      · exact .brokenHeredoc _
    · exact .stray

theorem taken_of_shape {c : Char} {cs : List Char} {shape : Shape} (h : (tail c cs).1 = shape) :
    ∃ more, tail c cs = (shape, more) ∧ Taken c cs shape more :=
  ⟨(tail c cs).2, Prod.ext h rfl, h ▸ tail_taken c cs⟩

/-- What belongs to a lexeme behind its first character is the front of what follows it. -/
theorem tail_isPrefix (c : Char) (cs : List Char) : (tail c cs).2 <+: cs := by
  have htaken := tail_taken c cs
  generalize (tail c cs).1 = shape, (tail c cs).2 = more at htaken
  cases htaken with
  | blank | hash | word => exact List.takeWhile_prefix _
  | number => exact numberTail_isPrefix cs
  | quoted => exact quotedTail_isPrefix cs
  | mark | stray => exact List.nil_prefix
  | slashes => exact isPrefix_cons '/' (List.takeWhile_prefix _)
  | blockComment => exact isPrefix_cons '*' (commentTail_isPrefix _)
  | @heredoc cs body _ hbody =>
    refine isPrefix_cons '<' (isPrefix_append_drop (introducer_isPrefix cs) ?_)
    rw [hbody]
    exact isPrefix_cons '\n' (List.take_prefix _ body)
  | brokenHeredoc cs => exact isPrefix_cons '<' (introducer_isPrefix cs)

theorem splitFrom_eq (n : Nat) (cs : List Char) : splitFrom n cs = split (cs.drop n) := by
  induction n generalizing cs with
  | zero => rfl
  | succ n ih =>
    cases cs with
    | nil => rfl
    | cons c cs => exact ih cs

theorem split_cons (c : Char) (cs : List Char) :
    split (c :: cs) = next c cs :: split (cs.drop (tail c cs).2.length) := by
  rw [← splitFrom_eq]
  rfl

theorem split_newline (cs : List Char) :
    split ('\n' :: cs) = ⟨.mark .newline, ['\n']⟩ :: split cs := by
  rw [split_cons]
  rfl

/-- Induction along the cut: over the rest behind each lexeme. -/
theorem split_induction {motive : List Char → Prop} (nil : motive [])
    (cons : ∀ c cs, motive (cs.drop (tail c cs).2.length) → motive (c :: cs)) (cs : List Char) :
    motive cs := by
  induction h : cs.length using Nat.strongRecOn generalizing cs with
  | ind n ih =>
    cases cs with
    | nil => exact nil
    | cons c cs =>
      have hshort : (cs.drop (tail c cs).2.length).length < n := by
        rw [List.length_drop, ← h, List.length_cons]
        omega
      exact cons c cs (ih _ hshort _ rfl)

theorem next_text (c : Char) (cs : List Char) : (next c cs).text = c :: (tail c cs).2 := rfl

/-- Cutting loses nothing. -/
theorem flatMap_text_split (cs : List Char) : (split cs).flatMap text = cs := by
  induction cs using split_induction with
  | nil => rfl
  | cons c cs ih =>
    rw [split_cons, List.flatMap_cons, ih, next_text, List.cons_append,
      List.prefix_iff_eq_append.1 (tail_isPrefix c cs)]

/-! ## Lexemes told from their start -/

theorem eq_of_isSpace {c : Char} (h : isSpace c = true) : c = ' ' ∨ c = '\t' ∨ c = '\r' := by
  simpa [isSpace, or_assoc] using h

theorem tail_blank {c : Char} (h : isSpace c = true) (cs : List Char) :
    tail c cs = (.blank, cs.takeWhile isSpace) := by
  unfold tail
  rw [if_pos h]

theorem continuesWord_of_startsWord {c : Char} (h : startsWord c = true) : continuesWord c = true := by
  simp only [startsWord, continuesWord, Bool.or_eq_true] at h ⊢
  rcases h with h | h
  · exact .inl (.inl (.inl h))
  · exact .inl (.inr h)

theorem tail_word {c : Char} (h : startsWord c = true) (cs : List Char) :
    tail c cs = (.word, cs.takeWhile continuesWord) := by
  have hspace : ¬isSpace c = true := by
    intro hspace
    rcases eq_of_isSpace hspace with rfl | rfl | rfl <;> exact absurd h (by decide +kernel)
  have hhash : ¬c = '#' := by
    rintro rfl
    exact absurd h (by decide +kernel)
  unfold tail
  rw [if_neg hspace, if_neg hhash, if_pos h]

/-! ## What is inside a lexeme -/

/-- The lines stand one behind the other in the body of a heredoc, each with the end of its line;
the last one may lack it. -/
inductive Covers : List (List Char) → List Char → Prop where
  | nil (body : List Char) : Covers [] body
  | last (line : List Char) : Covers [line] line
  | cons (line : List Char) {lines : List (List Char)} {body : List Char} (h : Covers lines body) :
    Covers (line :: lines) (line ++ '\n' :: body)

theorem bodyLines_covers (mark line cs : List Char) :
    Covers (bodyLines mark line cs).1
      (line.reverse ++ cs.take (bodyLines mark line cs).2.2) := by
  fun_induction bodyLines mark line cs with
  | case1 => exact .nil _
  | case2 => exact .nil _
  | case3 line =>
    rw [List.take_nil, List.append_nil]
    exact .last _
  | case4 => exact .nil _
  | case5 line cs _ lines closed n hrest ih =>
    rw [hrest] at ih
    exact .cons _ ih
  | case6 line c cs _ lines closed n hrest ih =>
    rw [hrest, List.reverse_cons, List.append_assoc] at ih
    exact ih

/-- What the shape of a lexeme says about its text. -/
structure Sound (x : Lexeme) : Prop where
  text_ne_nil : x.text ≠ []
  quoted : ∀ closed, x.shape = .quoted closed → ∃ rest, x.text = '"' :: rest
  heredoc : ∀ doc, x.shape = .heredoc doc → ∃ front body,
    '\n' ∉ front ∧ x.text = front ++ '\n' :: body ∧ Covers doc.lines body

theorem newline_not_mem_introducer (cs : List Char) : '\n' ∉ introducer cs := by
  have hword : continuesWord '\n' = false := by decide +kernel
  have hstart : startsWord '\n' = false := by decide +kernel
  unfold introducer heredocMarker marker dash
  rw [List.mem_append, not_or]
  constructor
  · split <;> decide
  · split
    · exact List.not_mem_nil
    · next c cs _ =>
      split
      · next hc =>
        rw [List.mem_cons, not_or]
        constructor
        · rintro rfl
          exact absurd hc (by simp [hstart])
        · intro h
          exact absurd (List.mem_takeWhile_imp h) (by rw [hword]; exact Bool.false_ne_true)
      · exact List.not_mem_nil

theorem next_sound (c : Char) (cs : List Char) : (next c cs).Sound := by
  refine ⟨List.cons_ne_nil _ _, fun closed h => ?_, fun doc h => ?_⟩
  · rcases taken_of_shape h with ⟨more, htail, htaken⟩
    rw [next_text, htail]
    cases htaken
    exact ⟨_, rfl⟩
  · rcases taken_of_shape h with ⟨more, htail, htaken⟩
    rw [next_text, htail]
    cases htaken with
    | @heredoc cs body =>
      refine ⟨'<' :: '<' :: introducer cs, _, ?_, rfl, bodyLines_covers _ [] body⟩
      simpa using newline_not_mem_introducer cs

theorem split_sound (cs : List Char) : ∀ x ∈ split cs, x.Sound := by
  induction cs using split_induction with
  | nil => exact fun _ h => absurd h List.not_mem_nil
  | cons c cs ih =>
    rw [split_cons]
    exact List.forall_mem_cons.2 ⟨next_sound c cs, ih⟩

/-! ## A container's end behind a text -/

/-- What stands behind the content of a container. -/
def back : List Char := wrapperBack.toList

theorem back_eq : back = ['\n', '}', '\n'] := by decide

theorem takeWhile_append_back {p : Char → Bool} (h : p '\n' = false) (cs : List Char) :
    (cs ++ back).takeWhile p = cs.takeWhile p := by
  rw [List.takeWhile_append]
  split
  · next hall =>
    rw [back_eq, List.takeWhile_cons, h]
    simp [(List.takeWhile_prefix p).eq_of_length hall]
  · rfl

theorem drop_append_back {xs cs : List Char} (h : xs <+: cs) :
    (cs ++ back).drop xs.length = cs.drop xs.length ++ back :=
  List.drop_append_of_le_length h.length_le

theorem fraction_append_back (cs : List Char) : fraction (cs ++ back) = fraction cs := by
  cases cs with
  | nil => decide
  | cons c cs =>
    by_cases h : c = '.'
    · subst h
      simp only [List.cons_append, fraction,
        takeWhile_append_back (by decide : isDigit '\n' = false)]
    · simp [fraction, h]

theorem sign_append_back (cs : List Char) : sign (cs ++ back) = sign cs := by
  cases cs with
  | nil => decide
  | cons c cs =>
    rw [List.cons_append]
    unfold sign
    split <;> simp_all

theorem exponent_append_back (cs : List Char) : exponent (cs ++ back) = exponent cs := by
  cases cs with
  | nil => decide
  | cons c cs =>
    simp only [List.cons_append, exponent, sign_append_back, drop_append_back (sign_isPrefix cs),
      takeWhile_append_back (by decide : isDigit '\n' = false)]

theorem numberTail_append_back (cs : List Char) : numberTail (cs ++ back) = numberTail cs := by
  have hdigits := takeWhile_append_back (by decide : isDigit '\n' = false) cs
  have hfraction := isPrefix_append_drop (List.takeWhile_prefix isDigit (l := cs))
    (fraction_isPrefix _)
  unfold numberTail
  simp only [hdigits, drop_append_back (List.takeWhile_prefix isDigit), fraction_append_back]
  rw [← List.length_append, drop_append_back hfraction, exponent_append_back]

theorem quotedTail_append_back (cs : List Char) : quotedTail (cs ++ back) = quotedTail cs := by
  fun_induction quotedTail cs with
  | case1 => decide
  | case2 cs => rfl
  | case3 => rfl
  | case4 c cs h rest closed hrest ih =>
    simp only [List.cons_append, quotedTail, h, if_false, ih, hrest]
  | case5 c cs hquote hescape hend =>
    rcases hend with rfl | rfl
    · simp [quotedTail]
    · cases cs with
      | nil => decide
      | cons d cs => exact absurd rfl (hescape d cs rfl)
  | case6 c cs hquote hescape hend rest closed hrest ih =>
    have hline : c ≠ '\n' := fun h => hend (.inl h)
    have hslash : c ≠ '\\' := fun h => hend (.inr h)
    simp [quotedTail, hline, hslash, ih, hrest]

theorem marker_append_back (cs : List Char) : marker (cs ++ back) = marker cs := by
  cases cs with
  | nil => decide +kernel
  | cons c cs =>
    simp only [List.cons_append, marker,
      takeWhile_append_back (by decide +kernel : continuesWord '\n' = false)]

theorem dash_append_back (cs : List Char) : dash (cs ++ back) = dash cs := by
  cases cs with
  | nil => decide
  | cons c cs =>
    rw [List.cons_append]
    unfold dash
    split <;> simp_all

theorem heredocMarker_append_back (cs : List Char) :
    heredocMarker (cs ++ back) = heredocMarker cs := by
  rw [heredocMarker, dash_append_back, drop_append_back (dash_isPrefix cs), marker_append_back]
  rfl

theorem introducer_append_back (cs : List Char) : introducer (cs ++ back) = introducer cs := by
  rw [introducer, dash_append_back, heredocMarker_append_back]
  rfl

theorem drop_introducer_append_back (cs : List Char) :
    (cs ++ back).drop (introducer (cs ++ back)).length =
      cs.drop (introducer cs).length ++ back := by
  rw [introducer_append_back, drop_append_back (introducer_isPrefix cs)]

theorem commentTail_append_back (cs : List Char) :
    (commentTail cs).2 = true ∧ commentTail (cs ++ back) = commentTail cs ∨
      commentTail cs = (cs, false) ∧ commentTail (cs ++ back) = (cs ++ back, false) := by
  fun_induction commentTail cs with
  | case1 => exact .inr ⟨rfl, by decide⟩
  | case2 cs => exact .inl ⟨rfl, rfl⟩
  | case3 c cs hclose rest closed hrest ih =>
    -- The line end behind the text never completes a closing marker.
    have hstep : commentTail (c :: cs ++ back) =
        (c :: (commentTail (cs ++ back)).1, (commentTail (cs ++ back)).2) := by
      rw [List.cons_append, commentTail]
      intro rest hstar hslash
      cases cs with
      | nil => simp [back_eq] at hslash
      | cons d cs =>
        rw [List.cons_append, List.cons.injEq] at hslash
        exact hclose cs hstar (by rw [hslash.1])
    rw [hstep]
    rcases ih with ⟨hclosed, hsame⟩ | ⟨hopen, hmore⟩
    · rw [hsame, hrest]
      rw [hrest] at hclosed
      exact .inl ⟨hclosed, rfl⟩
    · rw [hmore]
      rw [hrest, Prod.mk.injEq] at hopen
      rw [hopen.1, hopen.2]
      exact .inr ⟨rfl, rfl⟩

/-- What a container's end makes of the lines of a heredoc body with `size` characters: nothing if
the body has its closing line, else the brace becomes a line too. -/
def Continued (size : Nat) (r r' : List (List Char) × Bool × Nat) : Prop :=
  r.2.1 = true ∧ r' = r ∨
    r.2 = (false, size) ∧
      ∃ more, (more = [[], ['}']] ∨ more = [['}']]) ∧ r' = (r.1 ++ more, false, size + 3)

theorem Continued.line {size n n' : Nat} {lines lines' : List (List Char)} {closed closed' : Bool}
    (h : Continued size (lines, closed, n) (lines', closed', n')) (l : List Char) :
    Continued (size + 1) (l :: lines, closed, n + 1) (l :: lines', closed', n' + 1) := by
  rcases h with ⟨hclosed, hsame⟩ | ⟨hopen, more, hmore, hgrown⟩
  · cases hsame
    exact .inl ⟨hclosed, rfl⟩
  · cases hopen
    cases hgrown
    exact .inr ⟨rfl, more, hmore, rfl⟩

theorem Continued.char {size n n' : Nat} {lines lines' : List (List Char)} {closed closed' : Bool}
    (h : Continued size (lines, closed, n) (lines', closed', n')) :
    Continued (size + 1) (lines, closed, n + 1) (lines', closed', n' + 1) := by
  rcases h with ⟨hclosed, hsame⟩ | ⟨hopen, more, hmore, hgrown⟩
  · cases hsame
    exact .inl ⟨hclosed, rfl⟩
  · cases hopen
    cases hgrown
    exact .inr ⟨rfl, more, hmore, rfl⟩

/-- The brace of the container's end is no closing line. -/
theorem bodyLines_brace {mark : List Char} (hbrace : mark ≠ ['}']) :
    bodyLines mark [] ['}', '\n'] = ([['}']], false, 2) := by
  have htrim : Text.trim ['}'] = ['}'] := by decide +kernel
  have hline : Text.trim ['}'] ≠ mark := by
    rw [htrim]
    exact Ne.symm hbrace
  simp [bodyLines, hline]

theorem bodyLines_append_back {mark : List Char} (hne : mark ≠ []) (hbrace : mark ≠ ['}'])
    (line cs : List Char) :
    Continued cs.length (bodyLines mark line cs) (bodyLines mark line (cs ++ back)) := by
  have hblank : Text.trim [] ≠ mark := Ne.symm hne
  have hback := bodyLines_brace hbrace
  fun_induction bodyLines mark line cs with
  | case1 line h =>
    -- The text ends where a line starts: that line is empty, and the brace is the next one.
    rw [List.isEmpty_iff] at h
    subst h
    refine .inr ⟨rfl, [[], ['}']], .inl rfl, ?_⟩
    rw [List.nil_append, back_eq, bodyLines, if_pos rfl, List.reverse_nil, if_neg hblank, hback]
    rfl
  | case2 line h hend =>
    refine .inl ⟨rfl, ?_⟩
    rw [List.nil_append, back_eq, bodyLines, if_pos rfl, if_pos hend]
  | case3 line h hend =>
    -- The text ends inside a line, which the line end behind it completes.
    refine .inr ⟨rfl, [['}']], .inr rfl, ?_⟩
    rw [List.nil_append, back_eq, bodyLines, if_pos rfl, if_neg hend, hback]
    rfl
  | case4 line cs hend =>
    refine .inl ⟨rfl, ?_⟩
    rw [List.cons_append, bodyLines, if_pos rfl, if_pos hend]
  | case5 line cs hend lines closed n hrest ih =>
    rw [List.cons_append, bodyLines, if_pos rfl, if_neg hend]
    rw [hrest] at ih
    exact ih.line line.reverse
  | case6 line c cs hc lines closed n hrest ih =>
    rw [List.cons_append, bodyLines, if_neg hc]
    rw [hrest] at ih
    exact ih.char

theorem marker_ne_brace (cs : List Char) : marker cs ≠ ['}'] := by
  unfold marker
  split
  · simp
  · split
    · next hstart =>
      intro h
      rw [(List.cons.inj h).1] at hstart
      exact absurd hstart (by decide +kernel)
    · simp

theorem marker_startsWord {cs : List Char} (h : marker cs ≠ []) :
    (marker cs).any startsWord = true := by
  unfold marker at *
  split at h
  · exact absurd rfl h
  · split at h
    · next hstart =>
      simp [hstart]
    · exact absurd rfl h

/-- What a container's end makes of the last lexeme of its content. -/
inductive Extended : Lexeme → Lexeme → Prop where
  /-- An open comment swallows it. -/
  | comment (text : List Char) :
    Extended ⟨.blockComment false, text⟩ ⟨.blockComment false, text ++ back⟩
  /-- A heredoc without its closing line takes the brace for one more line. -/
  | heredoc (doc : Heredoc) (more : List (List Char)) (text : List Char)
      (hopen : doc.closed = false) (hmore : more = [[], ['}']] ∨ more = [['}']]) :
    Extended ⟨.heredoc doc, text⟩ ⟨.heredoc { doc with lines := doc.lines ++ more }, text ++ back⟩
  /-- An introducer with a marker at the end of the text gets the end of its line. -/
  | introducer (indented : Bool) (marker text : List Char) (h : text.any startsWord = true) :
    Extended ⟨.brokenHeredoc, text⟩ ⟨.heredoc ⟨indented, marker, [['}']], false⟩, text ++ back⟩

theorem Extended.text_eq {x y : Lexeme} (h : Extended x y) : y.text = x.text ++ back := by
  cases h <;> rfl

/-- Where a text ends with the marker, the container's end brings the end of its line. -/
theorem extended_marker {cs : List Char} (hne : heredocMarker cs ≠ [])
    (hrest : cs.drop (introducer cs).length = []) :
    (heredocTail ('<' :: cs)).2 = '<' :: cs ∧
      Extended ⟨(heredocTail ('<' :: cs)).1, '<' :: (heredocTail ('<' :: cs)).2⟩
        ⟨(heredocTail ('<' :: cs ++ back)).1, '<' :: (heredocTail ('<' :: cs ++ back)).2⟩ := by
  have hcs : introducer cs = cs :=
    (introducer_isPrefix cs).eq_of_length_le (List.drop_eq_nil_iff.1 hrest)
  -- The line break that is appended ends the introducer, and the brace becomes the only body line.
  have hbody : (cs ++ back).drop (introducer (cs ++ back)).length = '\n' :: ['}', '\n'] := by
    rw [drop_introducer_append_back, hrest]
    exact back_eq
  have hword : ('<' :: '<' :: introducer cs).any startsWord = true := by
    simp only [List.any_cons, introducer, List.any_append, heredocMarker, marker_startsWord hne,
      Bool.or_true]
  have hlines : bodyLines (heredocMarker cs) [] ['}', '\n'] = ([['}']], false, 2) :=
    bodyLines_brace (marker_ne_brace _)
  rw [List.cons_append, heredocTail_broken (.inr (by rw [hrest]; simp)),
    heredocTail_body (by rw [heredocMarker_append_back]; exact hne) hbody,
    heredocMarker_append_back, introducer_append_back, dash_append_back, hlines]
  refine ⟨by rw [hcs], ?_⟩
  exact .introducer _ _ _ hword

/-- The body of a heredoc goes on into the container's end unless it has its closing line. -/
theorem heredocTail_body_append_back {cs body : List Char} (hne : heredocMarker cs ≠ [])
    (hrest : cs.drop (introducer cs).length = '\n' :: body) :
    heredocTail ('<' :: cs ++ back) = heredocTail ('<' :: cs) ∨
      (heredocTail ('<' :: cs)).2 = '<' :: cs ∧
        Extended ⟨(heredocTail ('<' :: cs)).1, '<' :: (heredocTail ('<' :: cs)).2⟩
          ⟨(heredocTail ('<' :: cs ++ back)).1, '<' :: (heredocTail ('<' :: cs ++ back)).2⟩ := by
  have hdrop := drop_introducer_append_back cs
  rw [hrest, List.cons_append] at hdrop
  rw [List.cons_append, heredocTail_body hne hrest,
    heredocTail_body (by rw [heredocMarker_append_back]; exact hne) hdrop,
    heredocMarker_append_back, introducer_append_back, dash_append_back]
  have hle := bodyLines_le (heredocMarker cs) [] body
  have hgrown := bodyLines_append_back hne (marker_ne_brace _) [] body
  -- Either the marker line was found already, or the body ran to the end and takes the rest, too.
  rcases hgrown with ⟨-, hsame⟩ | ⟨hopen, more, hmore, hgrown⟩
  · left
    rw [hsame, List.take_append_of_le_length hle]
  · right
    have htext : introducer cs ++ '\n' :: body = cs := by
      rw [← hrest]
      exact List.prefix_iff_eq_append.1 (introducer_isPrefix cs)
    have hall : (body ++ back).take (body.length + 3) = body ++ back :=
      List.take_of_length_le (by simp [back_eq])
    rw [hgrown, hopen, List.take_length, hall]
    refine ⟨congrArg _ htext, ?_⟩
    have hextended := Extended.heredoc
      ⟨!(dash cs).isEmpty, heredocMarker cs, (bodyLines (heredocMarker cs) [] body).1, false⟩
      more ('<' :: '<' :: introducer cs ++ '\n' :: body) rfl hmore
    simpa using hextended

theorem heredocTail_append_back (cs : List Char) :
    heredocTail ('<' :: cs ++ back) = heredocTail ('<' :: cs) ∨
      (heredocTail ('<' :: cs)).2 = '<' :: cs ∧
        Extended ⟨(heredocTail ('<' :: cs)).1, '<' :: (heredocTail ('<' :: cs)).2⟩
          ⟨(heredocTail ('<' :: cs ++ back)).1, '<' :: (heredocTail ('<' :: cs ++ back)).2⟩ := by
  by_cases hne : heredocMarker cs = []
  · -- Without a marker there is no heredoc, whatever stands behind it.
    left
    rw [List.cons_append, heredocTail_broken (.inl ((heredocMarker_append_back cs).trans hne)),
      heredocTail_broken (.inl hne), introducer_append_back]
  cases hrest : cs.drop (introducer cs).length with
  | nil => exact .inr (extended_marker hne hrest)
  | cons c body =>
    by_cases hc : c = '\n'
    · subst hc
      exact heredocTail_body_append_back hne hrest
    · -- The marker does not end its line, with and without the container's end.
      left
      have hdrop := drop_introducer_append_back cs
      rw [List.cons_append,
        heredocTail_broken (.inr (by rw [hdrop, hrest]; simpa using hc)),
        heredocTail_broken (.inr (by rw [hrest]; simpa using hc)), introducer_append_back]

/-- What stands behind a text changes at most its last lexeme. -/
theorem next_append_back (c : Char) (cs : List Char) :
    next c (cs ++ back) = next c cs ∨
      (tail c cs).2 = cs ∧ Extended (next c cs) (next c (cs ++ back)) := by
  unfold next tail
  split_ifs
  · exact .inl (by rw [takeWhile_append_back (by decide)])
  · exact .inl (by rw [takeWhile_append_back (by decide)])
  · exact .inl (by rw [takeWhile_append_back (by decide +kernel)])
  · exact .inl (by rw [numberTail_append_back])
  · exact .inl (by rw [quotedTail_append_back])
  · -- The forms that a second character decides: comments, heredocs, and the stray character.
    cases hmark : Mark.ofChar? c with
    | some m => exact .inl rfl
    | none =>
      rcases cs with _ | ⟨d, rest⟩
      · left
        rw [List.nil_append, back_eq]
        split
        simp_all
      rw [List.cons_append]
      by_cases hline : c = '/' ∧ d = '/'
      · rcases hline with ⟨rfl, rfl⟩
        have hrest := takeWhile_append_back (p := (· ≠ '\n')) (by decide) rest
        exact .inl (by simp only [hrest])
      by_cases hblock : c = '/' ∧ d = '*'
      · rcases hblock with ⟨rfl, rfl⟩
        rcases commentTail_append_back rest with ⟨-, hsame⟩ | ⟨hopen, hgrown⟩
        · exact .inl (by simp only [hsame])
        · simp only [hopen, hgrown]
          exact .inr ⟨trivial, .comment ('/' :: '*' :: rest)⟩
      by_cases hdoc : c = '<' ∧ d = '<'
      · rcases hdoc with ⟨rfl, rfl⟩
        rcases heredocTail_append_back rest with hsame | hgrown
        · rw [List.cons_append] at hsame
          exact .inl (by simp only [hsame])
        · exact .inr hgrown
      · left
        split
        simp_all

/-- What stands behind a text stands apart from it, or belongs to its last lexeme. -/
theorem split_append_back (cs : List Char) : split (cs ++ back) = split cs ++ split back ∨
    ∃ xs x y, split cs = xs ++ [x] ∧ split (cs ++ back) = xs ++ [y] ∧ Extended x y := by
  induction cs using split_induction with
  | nil => exact .inl rfl
  | cons c cs ih =>
    rw [List.cons_append, split_cons, split_cons]
    rcases next_append_back c cs with hsame | ⟨hall, hextended⟩
    · have htail : (tail c (cs ++ back)).2 = (tail c cs).2 :=
        (List.cons.inj (congrArg text hsame)).2
      rw [hsame, htail, drop_append_back (tail_isPrefix c cs)]
      rcases ih with hapart | ⟨xs, x, y, hx, hy, hextended⟩
      · exact .inl (by rw [hapart, List.cons_append])
      · exact .inr ⟨next c cs :: xs, x, y, by rw [hx]; rfl, by rw [hy]; rfl, hextended⟩
    · have htail : (tail c (cs ++ back)).2 = cs ++ back := by
        have htext := hextended.text_eq
        rw [next_text, next_text, hall] at htext
        exact (List.cons.inj htext).2
      rw [hall, htail, List.drop_length, List.drop_length]
      exact .inr ⟨[], _, _, rfl, rfl, hextended⟩

/-! ### Introducers at the end of a text -/

/-- The start of a heredoc that has a marker, but not the end of its line. -/
def Lacks (x : Lexeme) : Prop := x.shape = .brokenHeredoc ∧ x.text.any startsWord = true

theorem tail_heredoc (cs : List Char) : tail '<' ('<' :: cs) = heredocTail ('<' :: cs) := rfl

/-- Whether the shape is that of a heredoc or of the start of one. -/
def isHeredoc : Shape → Bool
  | .heredoc _ | .brokenHeredoc => true
  | _ => false

theorem eq_of_isHeredoc {c : Char} {cs : List Char} (h : isHeredoc (tail c cs).1 = true) :
    ∃ rest, c = '<' ∧ cs = '<' :: rest := by
  rcases taken_of_shape rfl with ⟨more, -, htaken⟩
  generalize (tail c cs).1 = shape at htaken h
  cases htaken with
  | heredoc => exact ⟨_, rfl, rfl⟩
  | brokenHeredoc => exact ⟨_, rfl, rfl⟩
  | _ => cases h

/-- At the end of a text, the end of a container completes it. -/
theorem Lacks.shape_append_back {c : Char} {cs : List Char} (h : Lacks (next c cs))
    (hall : (tail c cs).2 = cs) : (next c (cs ++ back)).shape ≠ .brokenHeredoc := by
  rcases h with ⟨hshape, hword⟩
  rcases eq_of_isHeredoc (congrArg isHeredoc hshape) with ⟨rest, rfl, rfl⟩
  have htail : heredocTail ('<' :: rest) = (.brokenHeredoc, '<' :: rest) := Prod.ext hshape hall
  rw [next_text, hall] at hword
  have hintro : introducer rest = rest := by
    rw [heredocTail_cons] at htail
    split at htail
    · cases htail
    · exact (List.cons.inj (congrArg Prod.snd htail)).2
  -- A letter behind the second `<` belongs to the marker.
  have hne : heredocMarker rest ≠ [] := by
    intro hempty
    have hrest : dash rest = rest := by
      rw [← List.append_nil (dash rest), ← hempty]
      exact hintro
    have hnone : ∀ cs, ('<' :: '<' :: dash cs).any startsWord = false := by
      intro cs
      unfold dash
      split <;> decide +kernel
    rw [← hrest, hnone] at hword
    cases hword
  have hbody : (rest ++ back).drop (introducer (rest ++ back)).length = '\n' :: ['}', '\n'] := by
    rw [introducer_append_back, hintro, List.drop_left]
    exact back_eq
  have hheredoc := heredocTail_body (by rw [heredocMarker_append_back]; exact hne) hbody
  show (tail '<' ('<' :: (rest ++ back))).1 ≠ _
  rw [tail_heredoc, hheredoc]
  nofun

/-- An introducer that lacks the end of its line is completed by the end of a container. -/
theorem Lacks.split_append_back {cs : List Char} {x : Lexeme} (h : Lacks x)
    (hx : (split cs).getLast? = some x) :
    ∃ xs y, split cs = xs ++ [x] ∧ split (cs ++ back) = xs ++ [y] ∧ x.Extended y := by
  have hnever : split (cs ++ back) ≠ split cs ++ split back := by
    induction cs using split_induction with
    | nil => cases hx
    | cons c cs ih =>
      intro hapart
      rw [List.cons_append, split_cons, split_cons, List.cons_append, List.cons.injEq] at hapart
      rw [split_cons] at hx
      rcases hapart with ⟨hnext, hrest⟩
      have htail : (tail c (cs ++ back)).2 = (tail c cs).2 :=
        (List.cons.inj (congrArg text hnext)).2
      rw [htail, drop_append_back (tail_isPrefix c cs)] at hrest
      -- The lexeme is the last one, or it is among the lexemes behind this one.
      cases hsplit : split (cs.drop (tail c cs).2.length) with
      | nil =>
        rw [hsplit] at hx
        cases hx
        have hdrop : cs.drop (tail c cs).2.length = [] := by
          rw [← flatMap_text_split (cs.drop _), hsplit]
          rfl
        have hall := (tail_isPrefix c cs).eq_of_length_le (List.drop_eq_nil_iff.1 hdrop)
        exact h.shape_append_back hall (hnext ▸ h.1)
      | cons y ys =>
        refine ih ?_ hrest
        rwa [hsplit, List.getLast?_cons_cons, ← hsplit] at hx
  rcases Lexeme.split_append_back cs with hapart | ⟨xs, z, y, hz, hy, hextended⟩
  · exact absurd hapart hnever
  · rw [hz, List.getLast?_append, List.getLast?_singleton, Option.some_or] at hx
    cases hx
    exact ⟨xs, y, hz, hy, hextended⟩

end Overlay.Hcl.Lexeme
