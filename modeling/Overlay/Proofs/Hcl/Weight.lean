import Mathlib.Algebra.GroupWithZero.Nat
import Overlay.Proofs.Hcl.Token

/-!
# What strings take to write

A string or heredoc takes more quotes, backslashes and less-than signs to write than it holds.

* `weight` counts these characters in a text.
* Decoding adds none: an escape starts with a backslash and stands for one character at most, and
  everything else stands for itself (`weight_piece_le`, `weight_decodeFrom_le`,
  `Heredoc.weight_join_le`).
* A string costs one character more than it holds (`TokenKind.cost`): the quote or the sign that it
  starts with. So the strings of a text together cost no more than the text weighs
  (`cost_ofText_le`).
-/

namespace Overlay.Hcl

/-! ## Weights -/

/-- Whether a string, a heredoc or an escape starts with the character. -/
def weighs (c : Char) : Bool := c == '"' || c == '\\' || c == '<'

/-- How many quotes, backslashes and less-than signs there are. -/
def weight (cs : List Char) : Nat := cs.countP weighs

@[simp] theorem weight_nil : weight [] = 0 := rfl

@[simp] theorem weight_append (xs ys : List Char) : weight (xs ++ ys) = weight xs + weight ys :=
  List.countP_append

theorem weight_cons (c : Char) (cs : List Char) : weight (c :: cs) = weight [c] + weight cs :=
  weight_append [c] cs

theorem weight_le_of_sublist {xs ys : List Char} (h : xs.Sublist ys) : weight xs ≤ weight ys :=
  h.countP_le

/-! ## Decoding -/

namespace Template

theorem length_escape_le (cs : List Char) : (escape cs).text.length ≤ 1 := by
  have hcodePoint : ∀ digits ds, (codePoint digits ds).text.length ≤ 1 := by
    intro digits ds
    unfold codePoint
    dsimp only
    split
    · split
      · exact le_refl 1
      · exact Nat.zero_le 1
    · exact Nat.zero_le 1
  unfold escape
  split
  case h_7 => exact hcodePoint 4 _
  case h_8 => exact hcodePoint 8 _
  all_goals decide

/-- What a piece stands for weighs no more than its first character. -/
theorem weight_piece_le (escapes : Bool) (c : Char) (cs : List Char) :
    weight (piece escapes c cs).text ≤ weight [c] := by
  unfold piece
  split_ifs with hescape hsign
  · -- A backslash weighs something, and an escape stands for one character at most.
    rw [hescape.1]
    exact le_trans List.countP_le_length (length_escape_le cs)
  · have hbrace : weight [c, '{'] = weight [c] := by
      rw [weight_cons]
      rfl
    unfold sequence
    split
    · exact hbrace.le
    · split
      · exact hbrace.le
      · exact le_refl _
    · exact le_refl _
  · exact le_refl _

/-- Decoded text weighs no more than what it is decoded from. The induction is on the text, of which
the first characters may belong to a piece in front. -/
theorem weight_decodeFrom_le (escapes : Bool) (p : Pos) (skip : Nat) (cs : List Char) :
    weight (decodeFrom escapes p skip cs).text ≤ weight cs := by
  induction cs generalizing p skip with
  | nil => cases skip <;> exact le_refl 0
  | cons c cs ih =>
    rw [weight_cons]
    cases skip with
    | succ skip => exact le_trans (ih _ skip) (Nat.le_add_left _ _)
    | zero =>
      rw [decodeFrom, weight_append]
      exact Nat.add_le_add (weight_piece_le escapes c cs) (ih _ _)

/-- The lines of a heredoc, decoded, weigh no more than its body. -/
theorem weight_decodeLines_le {lines : List (List Char)} {body : List Char}
    (h : Lexeme.Covers lines body) (p : Pos) :
    ((decodeLines p lines).1.map weight).sum ≤ weight body := by
  induction h generalizing p with
  | nil body => exact Nat.zero_le _
  | last line =>
    have hline := weight_decodeFrom_le false p 0 line
    simpa [decodeLines, decode] using hline
  | cons line _ ih =>
    have hline := weight_decodeFrom_le false p 0 line
    have hmore := ih (p.advanceAll (line ++ ['\n']))
    rw [decodeLines, weight_append, weight_cons]
    dsimp only
    rw [List.map_cons, List.sum_cons, decode]
    omega

end Template

/-- The text of a heredoc weighs no more than its lines. -/
theorem Heredoc.weight_join_le (indented : Bool) (lines : List (List Char)) :
    weight (Heredoc.join indented lines) ≤ (lines.map weight).sum := by
  unfold Heredoc.join
  generalize (if indented then commonIndent lines else 0) = n
  induction lines with
  | nil => exact Nat.zero_le _
  | cons line lines ih =>
    have hline : weight (line.drop n ++ ['\n']) ≤ weight line := by
      rw [weight_append]
      exact weight_le_of_sublist (List.drop_sublist n line)
    rw [List.flatMap_cons, weight_append, List.map_cons, List.sum_cons]
    exact Nat.add_le_add hline ih

/-! ## Tokens -/

/-- What a token costs: a string what its text weighs, and one for its start. -/
def TokenKind.cost : TokenKind → Nat
  | .str text | .heredoc text => weight text.toList + 1
  | .ident _ | .number _ | .mark _ | .stray _ => 0

/-- What all tokens cost. -/
def cost (ts : List Token) : Nat := (ts.map fun t => t.kind.cost).sum

@[simp] theorem cost_nil : cost [] = 0 := rfl

@[simp] theorem cost_cons (t : Token) (ts : List Token) : cost (t :: ts) = t.kind.cost + cost ts :=
  rfl

@[simp] theorem cost_append (ts us : List Token) : cost (ts ++ us) = cost ts + cost us := by
  rw [cost, List.map_append, List.sum_append]
  rfl

namespace Lexeme

/-- Whether a heredoc starts with its sign, also one that goes wrong. -/
def StartsWithSign (x : Lexeme) : Prop := isHeredoc x.shape = true → ∃ rest, x.text = '<' :: rest

theorem next_startsWithSign (c : Char) (cs : List Char) : (next c cs).StartsWithSign := by
  intro h
  rcases eq_of_isHeredoc h with ⟨rest, rfl, -⟩
  exact ⟨_, next_text '<' cs⟩

theorem split_startsWithSign (cs : List Char) : ∀ x ∈ split cs, x.StartsWithSign := by
  induction cs using split_induction with
  | nil => exact fun _ h => absurd h List.not_mem_nil
  | cons c cs ih =>
    rw [split_cons]
    exact List.forall_mem_cons.2 ⟨next_startsWithSign c cs, ih⟩

end Lexeme

namespace Tokens

/-- The token of a lexeme costs no more than the lexeme weighs. -/
theorem cost_ofLexeme_le {x : Lexeme} (hx : x.Sound) (hsign : x.StartsWithSign) (p : Pos) :
    cost (ofLexeme p x).tokens ≤ weight x.text := by
  rcases x with ⟨shape, text⟩
  cases shape with
  | quoted closed =>
    rcases hx.quoted closed rfl with ⟨rest, rfl⟩
    have hinner : weight (if closed then rest.dropLast else rest) ≤ weight rest := by
      split
      · exact weight_le_of_sublist (List.dropLast_sublist rest)
      · exact le_refl _
    have hdecoded := Template.weight_decodeFrom_le true (p.advance '"') 0
      (if closed then rest.dropLast else rest)
    have hquote : weight ('"' :: rest) = 1 + weight rest := weight_cons '"' rest
    simp only [ofLexeme, cost_cons, cost_nil, TokenKind.cost, String.toList_ofList, List.tail_cons,
      Template.decode]
    omega
  | heredoc doc =>
    rcases hsign rfl with ⟨rest, hrest⟩
    rcases hx.heredoc doc rfl with ⟨front, body, -, htext, hcovers⟩
    dsimp only at hrest htext
    -- The sign stands in the introducer, since a body starts with the end of a line.
    cases front with
    | nil =>
      rw [hrest] at htext
      cases htext
    | cons c front =>
      rw [hrest, List.cons_append] at htext
      obtain ⟨rfl, rfl⟩ := List.cons.inj htext
      have hintro : weight ('<' :: (front ++ '\n' :: body)) = 1 + (weight front + weight body) := by
        have hline : weight ('\n' :: body) = weight body := (weight_cons _ _).trans (Nat.zero_add _)
        rw [weight_cons, weight_append, hline]
        rfl
      have hlines := fun q => Template.weight_decodeLines_le hcovers q
      have hjoin := Heredoc.weight_join_le doc.indented
      simp only [ofLexeme, cost_cons, cost_nil, TokenKind.cost, String.toList_ofList, hrest, hintro]
      refine le_trans (Nat.add_le_add_right (le_trans (hjoin _) (hlines _)) 1) ?_
      omega
  | brokenHeredoc =>
    rcases hsign rfl with ⟨rest, rfl⟩
    rw [weight_cons]
    exact Nat.le_add_right 1 _
  | stray =>
    cases text with
    | nil => exact Nat.zero_le _
    | cons c cs => exact Nat.zero_le _
  | _ => exact Nat.zero_le _

theorem cost_ofLexemes_le {xs : List Lexeme} (hxs : ∀ x ∈ xs, x.Sound ∧ x.StartsWithSign) (p : Pos) :
    cost (ofLexemes p xs).tokens ≤ weight (xs.flatMap Lexeme.text) := by
  induction xs generalizing p with
  | nil => exact le_refl 0
  | cons x xs ih =>
    rcases List.forall_mem_cons.1 hxs with ⟨⟨hx, hsign⟩, hxs⟩
    rw [ofLexemes, append, cost_append, List.flatMap_cons, weight_append]
    exact Nat.add_le_add (cost_ofLexeme_le hx hsign p) (ih hxs _)

/-- The tokens of a text cost no more than the text weighs. -/
theorem cost_ofText_le (text : String) : cost (ofText text).tokens ≤ weight text.toList := by
  have hlexemes : ∀ x ∈ Lexeme.split text.toList, x.Sound ∧ x.StartsWithSign := by
    intro x hx
    exact ⟨Lexeme.split_sound _ x hx, Lexeme.split_startsWithSign _ x hx⟩
  have hcost := cost_ofLexemes_le hlexemes .start
  rwa [Lexeme.flatMap_text_split] at hcost

end Tokens

end Overlay.Hcl
