import Overlay.Hcl.Parser

/-!
# What is left in front of a cursor

Moving a cursor takes tokens from the front: what is left is the end of what there was.

* Skipping stops at a token that does not pass (`skipWhile_head`, `skipGroups_head`), and at a closer
  inside a group it goes on with one group less (`skipGroups_succ`).
-/

namespace Overlay.Hcl.Cursor

/-- The place in front of the same tokens and `ws` behind them. -/
def extend (ws : List Token) (c : Cursor) : Cursor := ⟨c.last, c.rest ++ ws⟩

@[simp] theorem extend_nil (c : Cursor) : c.extend [] = c :=
  congrArg (Cursor.mk c.last) (List.append_nil c.rest)

/-- The next token is of one sort, or it is there and is not. -/
theorem kind_cases (P : TokenKind → Prop) (c : Cursor) :
    (∀ k, c.kind? = some k → P k) ∨ ∃ last t ts, c = ⟨last, t :: ts⟩ ∧ ¬P t.kind := by
  rcases c with ⟨last, - | ⟨t, ts⟩⟩
  · exact .inl fun k hk => by cases hk
  · by_cases h : P t.kind
    · exact .inl fun k hk => Option.some.inj hk ▸ h
    · exact .inr ⟨last, t, ts, rfl, h⟩

theorem exists_cons_of_kind? {last : Pos} {ts : List Token} {k : TokenKind}
    (h : (⟨last, ts⟩ : Cursor).kind? = some k) : ∃ t us, ts = t :: us ∧ t.kind = k := by
  cases ts with
  | nil => cases h
  | cons t us => exact ⟨t, us, rfl, Option.some.inj h⟩

theorem advance_length_lt {c : Cursor} {k : TokenKind} (h : c.kind? = some k) :
    c.advance.rest.length < c.rest.length := by
  rcases c with ⟨last, rest⟩
  rcases exists_cons_of_kind? h with ⟨t, ts, rfl, -⟩
  exact Nat.lt_succ_self ts.length

theorem advance_suffix (c : Cursor) : c.advance.rest <:+ c.rest := by
  rcases c with ⟨last, rest⟩
  cases rest with
  | nil => exact List.suffix_rfl
  | cons t ts => exact List.suffix_cons t ts

theorem skipWhile_suffix (test : TokenKind → Bool) (last : Pos) (ts : List Token) :
    (skipWhile test last ts).rest <:+ ts := by
  induction ts generalizing last with
  | nil => exact List.suffix_rfl
  | cons t ts ih =>
    unfold skipWhile
    split
    · exact (ih _).trans (List.suffix_cons t ts)
    · exact List.suffix_rfl

/-- The token at which skipping stops does not pass. -/
theorem skipWhile_head (test : TokenKind → Bool) (last : Pos) (ts : List Token) :
    ∀ t ∈ (skipWhile test last ts).rest.head?, test t.kind = false := by
  induction ts generalizing last with
  | nil => nofun
  | cons t ts ih =>
    unfold skipWhile
    split
    · exact ih _
    · next htest =>
      intro u hu
      cases hu
      exact Bool.eq_false_iff.2 htest

/-- Everything is skipped if everything passes. -/
theorem skipWhile_rest_eq_nil (test : TokenKind → Bool) (last : Pos) (ts : List Token) :
    (skipWhile test last ts).rest = [] ↔ ∀ t ∈ ts, test t.kind = true := by
  induction ts generalizing last with
  | nil => simp [skipWhile]
  | cons t ts ih =>
    unfold skipWhile
    split
    · next h => simp [ih, h]
    · next h => simp [h]

theorem skipNewlines_suffix (c : Cursor) : c.skipNewlines.rest <:+ c.rest :=
  skipWhile_suffix _ c.last c.rest

theorem skipNewlines_idem (c : Cursor) : c.skipNewlines.skipNewlines = c.skipNewlines := by
  have hhead := skipWhile_head TokenKind.isNewline c.last c.rest
  unfold skipNewlines
  generalize skipWhile TokenKind.isNewline c.last c.rest = behind at hhead ⊢
  rcases behind with ⟨last, - | ⟨t, ts⟩⟩
  · rfl
  · show skipWhile TokenKind.isNewline last (t :: ts) = _
    rw [skipWhile, if_neg (Bool.eq_false_iff.1 (hhead t rfl))]

theorem skipGroups_suffix (last : Pos) (depth : Nat) (ts : List Token) :
    (skipGroups last depth ts).rest <:+ ts := by
  induction ts generalizing last depth with
  | nil =>
    unfold skipGroups
    exact List.suffix_rfl
  | cons t ts ih =>
    unfold skipGroups
    split
    · exact (ih _ _).trans (List.suffix_cons t ts)
    · split
      · split
        · exact List.suffix_rfl
        · exact (ih _ _).trans (List.suffix_cons t ts)
      · exact (ih _ _).trans (List.suffix_cons t ts)

/-- Skipping with one more group open goes on behind the closer at which it stops without. -/
theorem skipGroups_succ (last : Pos) (depth : Nat) (ts : List Token) :
    skipGroups last (depth + 1) ts =
      skipGroups (skipGroups last depth ts).advance.last 0 (skipGroups last depth ts).advance.rest := by
  induction ts generalizing last depth with
  | nil => simp [skipGroups, advance]
  | cons t ts ih =>
    rw [skipGroups.eq_def, skipGroups.eq_def last depth]
    dsimp only
    split
    · exact ih t.span.stop (depth + 1)
    · split
      · cases depth with
        | zero => rfl
        | succ depth => exact ih t.span.stop depth
      · exact ih t.span.stop depth

/-- Skipping stops in front of a closer. -/
theorem skipGroups_head (last : Pos) (depth : Nat) (ts : List Token) :
    ∀ t ∈ (skipGroups last depth ts).rest.head?, t.kind.isCloser = true := by
  induction ts generalizing last depth with
  | nil =>
    unfold skipGroups
    nofun
  | cons t ts ih =>
    unfold skipGroups
    split
    · exact ih _ _
    · split
      · next hcloser =>
        cases depth with
        | zero =>
          intro u hu
          cases hu
          exact hcloser
        | succ depth => exact ih _ _
      · exact ih _ _

theorem skipToClose_suffix (own : Mark) (c : Cursor) : (c.skipToClose own).rest <:+ c.rest := by
  unfold skipToClose
  dsimp only
  split
  · exact (advance_suffix _).trans (skipGroups_suffix _ _ _)
  · exact skipGroups_suffix _ _ _

theorem recoverLine_suffix (c : Cursor) : c.recoverLine.rest <:+ c.rest :=
  (advance_suffix _).trans (skipWhile_suffix _ _ _)

/-- The rest of a line starts with the next token. -/
theorem recoverLine_behind (last : Pos) (t : Token) (ts : List Token) :
    (Cursor.recoverLine ⟨last, t :: ts⟩).rest <:+ ts := by
  unfold recoverLine skipWhile
  split
  · exact (advance_suffix _).trans (skipWhile_suffix _ _ _)
  · exact List.suffix_rfl

/-- The rest of a line behind the next token, or in front of it. -/
theorem recoverLine_of_suffix {c : Cursor} {t : Token} {ts : List Token}
    (h : c.rest <:+ t :: ts) : c.recoverLine.rest <:+ ts := by
  rcases List.suffix_cons_iff.1 h with heq | hsuffix
  · rcases c with ⟨last, rest⟩
    cases heq
    exact recoverLine_behind last t ts
  · exact (recoverLine_suffix c).trans hsuffix

/-- The rest of a line has a token, if there is one. -/
theorem recoverLine_length (c : Cursor) : c.recoverLine.rest.length ≤ c.rest.length - 1 := by
  rcases c with ⟨last, rest⟩
  cases rest with
  | nil => exact Nat.le_refl _
  | cons t ts =>
    unfold recoverLine skipWhile
    split
    · exact ((advance_suffix _).trans (skipWhile_suffix _ _ _)).length_le
    · exact Nat.le_refl _

theorem comma_suffix (F : Frame) (c : Cursor) : (Parser.comma F c).next.rest <:+ c.rest := by
  unfold Parser.comma
  dsimp only
  split
  · exact (skipNewlines_suffix _).trans ((advance_suffix _).trans (skipNewlines_suffix c))
  · exact List.suffix_rfl

end Overlay.Hcl.Cursor
