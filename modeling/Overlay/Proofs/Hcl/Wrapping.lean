import Mathlib.Data.List.Forall2
import Overlay.Proofs.Hcl.Token
import Overlay.Proofs.Hcl.Unwrapping

/-!
# The tokens of a wrapped text

* The tokens of a wrapped text are those of its front, those of the content one line down, and
  those of the container's end (`ofText_text`), unless an open comment or heredoc at the end of the
  content swallows the container's end (`ofText_swallowed`).
* Either way the faults of both texts stand for each other, but for an introducer at the end of the
  content (`ofText_introducer`).
-/

namespace Overlay.Hcl

namespace Tokens

theorem append_assoc (a b c : Tokens) : (a.append b).append c = a.append (b.append c) := by
  simp only [append, List.append_assoc]

theorem append_empty (a : Tokens) : a.append ⟨[], []⟩ = a := by
  simp only [append, List.append_nil]

theorem ofLexemes_append (p : Pos) (xs ys : List Lexeme) :
    ofLexemes p (xs ++ ys) =
      (ofLexemes p xs).append (ofLexemes (p.advanceAll (xs.flatMap Lexeme.text)) ys) := by
  induction xs generalizing p with
  | nil => rfl
  | cons x xs ih =>
    rw [List.cons_append, ofLexemes, ih, ofLexemes, append_assoc, List.flatMap_cons,
      Pos.advanceAll_append]

end Tokens

namespace Wrapped

open Lexeme (split back)

variable {w : Wrapped}

/-! ## The front and the end -/

theorem split_front (cs : List Char) :
    split (wrapperFront.toList ++ cs) = split wrapperFront.toList ++ split cs := by
  rfl

/-- The tokens in front of the content. -/
def frontTokens : List Token :=
  [⟨.ident wrapperName, ⟨1, 1, 0⟩, ⟨1, 14, 13⟩⟩, ⟨.mark .equals, ⟨1, 15, 14⟩, ⟨1, 16, 15⟩⟩,
    ⟨.mark .openBrace, ⟨1, 17, 16⟩, ⟨1, 18, 17⟩⟩, ⟨.mark .newline, ⟨1, 18, 17⟩, ⟨2, 1, 18⟩⟩]

theorem ofLexemes_front :
    Tokens.ofLexemes .start (split wrapperFront.toList) = ⟨frontTokens, []⟩ := by decide +kernel

/-- The tokens behind the content, which ends at `p`. -/
def backTokens (p : Pos) : List Token :=
  [⟨.mark .newline, p, p.advance '\n'⟩,
    ⟨.mark .closeBrace, p.advance '\n', p.advanceAll ['\n', '}']⟩,
    ⟨.mark .newline, p.advanceAll ['\n', '}'], p.advanceAll back⟩]

theorem ofLexemes_back (p : Pos) : Tokens.ofLexemes p (split back) = ⟨backTokens p, []⟩ := by
  rfl

theorem ofText_text (w : Wrapped) :
    Tokens.ofText w.text = Tokens.append ⟨frontTokens, []⟩
      (Tokens.ofLexemes (shift .start) (split (w.content.toList ++ back))) := by
  have htext : w.text.toList = wrapperFront.toList ++ (w.content.toList ++ back) := by
    simp [text, back]
  rw [Tokens.ofText, htext, split_front, Tokens.ofLexemes_append, ofLexemes_front, shift_start,
    Lexeme.flatMap_text_split]

/-! ## The content -/

/-- The item stands for the other one. -/
def WrapsItem (w : Wrapped) (f f' : Located α) : Prop :=
  f.item = f'.item ∧ w.WrapsSpan f.span f'.span

/-- Kinds of tokens that reading does not tell apart: heredocs may differ in their text. -/
def Alike (k k' : TokenKind) : Prop :=
  k = k' ∨ ∃ a b, k = .heredoc a ∧ k' = .heredoc b

/-- The token of the wrapped text stands for that of the content. -/
structure WrapsToken (w : Wrapped) (t t' : Token) : Prop where
  span : w.WrapsSpan t.span t'.span
  kind : Alike t.kind t'.kind

theorem wrapsItem_map {fs : List (Located α)}
    (h : ∀ f ∈ fs, f.span.IsStretch .start w.content.toList) :
    List.Forall₂ w.WrapsItem fs (fs.map (Located.mapSpan shiftSpan)) := by
  rw [List.forall₂_map_right_iff, List.forall₂_same]
  exact fun f hf => ⟨rfl, wrapsSpan_shiftSpan (h f hf)⟩

theorem wrapsToken_map {ts : List Token}
    (h : ∀ t ∈ ts, t.span.IsStretch .start w.content.toList) :
    List.Forall₂ w.WrapsToken ts (ts.map (Token.mapSpan shiftSpan)) := by
  rw [List.forall₂_map_right_iff, List.forall₂_same]
  exact fun t ht => ⟨wrapsSpan_shiftSpan (h t ht), .inl rfl⟩

/-- The content ends with the introducer of a heredoc and its marker, without the end of the line.
The container's end brings it. -/
def EndsInIntroducer (content : String) : Prop :=
  ∃ x ∈ (split content.toList).getLast?, x.Lacks

/-- The tokens and the faults of a wrapped text, where the container's end stands apart. -/
theorem ofText_apart (w : Wrapped)
    (h : split (w.content.toList ++ back) = split w.content.toList ++ split back) :
    Tokens.ofText w.text =
      ⟨frontTokens ++ ((Tokens.ofText w.content).tokens.map (Token.mapSpan shiftSpan) ++
          backTokens (shift (.endOf w.content))),
        (Tokens.ofText w.content).faults.map (Located.mapSpan shiftSpan)⟩ := by
  rw [ofText_text, h, Tokens.ofLexemes_append, Tokens.ofLexemes_map (shift_steady.behind _),
    Lexeme.flatMap_text_split, ← shift_steady.advanceAll, ofLexemes_back]
  simp only [Tokens.append, Tokens.mapSpans, List.nil_append, List.append_nil]
  rfl

/-- A span that reaches to the end of the content, and over it where that is swallowed. -/
theorem wrapsSpan_swallowed {front text : List Char} (h : w.content.toList = front ++ text) :
    w.WrapsSpan ⟨Pos.start.advanceAll front, (Pos.start.advanceAll front).advanceAll text⟩
      ⟨shift (Pos.start.advanceAll front),
        (shift (Pos.start.advanceAll front)).advanceAll (text ++ back)⟩ := by
  have hend : (Pos.start.advanceAll front).advanceAll text = .endOf w.content := by
    rw [← Pos.advanceAll_append, ← h]
    rfl
  have hstop : (shift (Pos.start.advanceAll front)).advanceAll (text ++ back) =
      (shift (.endOf w.content)).advanceAll back := by
    rw [Pos.advanceAll_append, ← shift_steady.advanceAll, hend]
  rw [hstop, hend]
  exact ⟨wraps_shift (holds_advanceAll h), wraps_endOf w back, (holds_advanceAll h).2.1⟩

theorem decodeLines_append_faults {lines more : List (List Char)}
    (h : ∀ line ∈ more, ∀ p, (Template.decode false p line).faults = []) (p : Pos) :
    (Template.decodeLines p (lines ++ more)).2 = (Template.decodeLines p lines).2 := by
  induction lines generalizing p with
  | nil =>
    induction more generalizing p with
    | nil => rfl
    | cons line more ih =>
      rcases List.forall_mem_cons.1 h with ⟨hline, hmore⟩
      have hrest : (Template.decodeLines (p.advanceAll (line ++ ['\n'])) more).2 = [] := ih hmore _
      simp only [List.nil_append, Template.decodeLines, hline p, hrest]
  | cons line lines ih =>
    simp only [List.cons_append, Template.decodeLines, ih]

/-- What the last lexeme stands for, and what it stands for when it swallows the container's end. -/
theorem ofLexeme_extended {x y : Lexeme} (h : x.Extended y) (hx : x.Sound)
    (hshape : x.shape ≠ .brokenHeredoc) {front : List Char}
    (hcontent : w.content.toList = front ++ x.text) :
    List.Forall₂ w.WrapsToken (Tokens.ofLexeme (Pos.start.advanceAll front) x).tokens
        (Tokens.ofLexeme (shift (Pos.start.advanceAll front)) y).tokens ∧
      List.Forall₂ w.WrapsItem (Tokens.ofLexeme (Pos.start.advanceAll front) x).faults
        (Tokens.ofLexeme (shift (Pos.start.advanceAll front)) y).faults := by
  have hspan := wrapsSpan_swallowed hcontent
  cases h with
  | comment text => exact ⟨.nil, .cons ⟨rfl, hspan⟩ .nil⟩
  | introducer => exact absurd rfl hshape
  | heredoc doc more text hopen hmore =>
    refine ⟨.cons ⟨hspan, .inr ⟨_, _, rfl, rfl⟩⟩ .nil, ?_⟩
    -- The lines that an open heredoc swallows are blank or a brace, and give no fault of their own.
    have hclean : ∀ line ∈ more, ∀ p, (Template.decode false p line).faults = [] := by
      have hblank : ∀ p, (Template.decode false p []).faults = [] := fun p => rfl
      have hbrace : ∀ p, (Template.decode false p ['}']).faults = [] := fun p => rfl
      rcases hmore with rfl | rfl
      · simpa using ⟨hblank, hbrace⟩
      · simpa using hbrace
    have hintro := Lexeme.takeWhile_append_back (p := (· ≠ '\n')) (by decide) text
    have hstretch := ((Tokens.ofLexeme_isStretch hx (Pos.start.advanceAll front)).imp
      fun _ h => h.append_left front).2
    simp only [Tokens.ofLexeme, hopen, hintro, decodeLines_append_faults hclean] at hstretch ⊢
    rw [← shift_steady.advanceAll, Template.decodeLines_map (shift_steady.behind _)]
    rw [← hcontent] at hstretch
    exact List.rel_append (wrapsItem_map fun f hf => hstretch f (List.mem_append_left _ hf))
      (.cons ⟨rfl, hspan⟩ .nil)

theorem ofText_concat {text : String} {xs : List Lexeme} {x : Lexeme}
    (h : split text.toList = xs ++ [x]) :
    Tokens.ofText text = (Tokens.ofLexemes .start xs).append
      (Tokens.ofLexeme (Pos.start.advanceAll (xs.flatMap Lexeme.text)) x) := by
  rw [Tokens.ofText, h, Tokens.ofLexemes_append, Tokens.ofLexemes, Tokens.ofLexemes,
    Tokens.append_empty]

theorem ofText_text_concat {xs : List Lexeme} {y : Lexeme}
    (h : split (w.content.toList ++ back) = xs ++ [y]) :
    Tokens.ofText w.text = Tokens.append ⟨frontTokens, []⟩
      (((Tokens.ofLexemes .start xs).mapSpans shiftSpan).append
        (Tokens.ofLexeme (shift (Pos.start.advanceAll (xs.flatMap Lexeme.text))) y)) := by
  rw [ofText_text, h, Tokens.ofLexemes_append, Tokens.ofLexemes, Tokens.ofLexemes,
    Tokens.append_empty, Tokens.ofLexemes_map (shift_steady.behind _), ← shift_steady.advanceAll]
  rfl

/-- Where the container's end is swallowed, nothing is left of it and the content stays. -/
theorem ofText_swallowed {xs : List Lexeme} {x y : Lexeme} (hx : split w.content.toList = xs ++ [x])
    (hy : split (w.content.toList ++ back) = xs ++ [y]) (hextended : x.Extended y)
    (hshape : x.shape ≠ .brokenHeredoc) :
    (∃ ts, (Tokens.ofText w.text).tokens = frontTokens ++ ts ∧
        List.Forall₂ w.WrapsToken (Tokens.ofText w.content).tokens ts) ∧
      List.Forall₂ w.WrapsItem (Tokens.ofText w.content).faults (Tokens.ofText w.text).faults := by
  have hcontent : w.content.toList = xs.flatMap Lexeme.text ++ x.text := by
    rw [← Lexeme.flatMap_text_split w.content.toList, hx]
    simp
  have hsound := Lexeme.split_sound w.content.toList x (by rw [hx]; simp)
  rcases ofLexeme_extended hextended hsound hshape hcontent with ⟨htokens, hfaults⟩
  have hstretch := Tokens.ofText_isStretch w.content
  rw [ofText_concat hx] at hstretch
  rw [ofText_concat hx, ofText_text_concat hy]
  constructor
  · exact ⟨_, rfl, List.rel_append
      (wrapsToken_map fun t ht => hstretch.1 t (List.mem_append_left _ ht)) htokens⟩
  · exact List.rel_append
      (wrapsItem_map fun f hf => hstretch.2 f (List.mem_append_left _ hf)) hfaults

/-- Whatever is swallowed is reported, in the content and in the wrapped text. -/
theorem apart_of_clean
    (h : (Tokens.ofText w.content).faults = [] ∨ (Tokens.ofText w.text).faults = []) :
    split (w.content.toList ++ back) = split w.content.toList ++ split back := by
  rcases Lexeme.split_append_back w.content.toList with hapart | ⟨xs, x, y, hx, hy, hextended⟩
  · exact hapart
  · have hboth : ∀ p q, (Tokens.ofLexeme p x).faults ≠ [] ∧ (Tokens.ofLexeme q y).faults ≠ [] := by
      intro p q
      cases hextended with
      | comment => exact ⟨List.cons_ne_nil _ _, List.cons_ne_nil _ _⟩
      | heredoc doc more text hopen => simp [Tokens.ofLexeme, hopen]
      | introducer => simp [Tokens.ofLexeme]
    rw [ofText_text] at h
    simp [Tokens.ofText, hx, hy, Tokens.ofLexemes_append, Tokens.ofLexemes, Tokens.append] at h
    rcases h with ⟨-, h⟩ | ⟨-, h⟩
    · exact absurd h (hboth _ .start).1
    · exact absurd h (hboth .start _).2

/-- An introducer at the end of the content is reported as such there, and as a heredoc that is
never closed in the wrapped text. -/
theorem ofText_introducer (h : EndsInIntroducer w.content) :
    ∃ fs span fs' marker span', fs.length = fs'.length ∧
      (Tokens.ofText w.content).faults = fs ++ [⟨.invalidHeredoc, span⟩] ∧
      (Tokens.ofText w.text).faults = fs' ++ [⟨.unterminatedHeredoc marker, span'⟩] := by
  rcases h with ⟨x, hlast, hlacks⟩
  rcases hlacks.split_append_back hlast with ⟨xs, y, hx, hy, hextended⟩
  have hplain := congrArg Tokens.faults (ofText_concat hx)
  have hwrapped := congrArg Tokens.faults (ofText_text_concat hy)
  cases hextended with
  | comment => cases hlacks.1
  | heredoc => cases hlacks.1
  | introducer => exact ⟨_, _, _, _, _, (List.length_map _).symm, hplain, hwrapped⟩

end Wrapped

end Overlay.Hcl
