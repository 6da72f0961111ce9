import Overlay.Proofs.Hcl.Alignment
import Overlay.Proofs.Hcl.Tree

/-!
# Expressions side by side

Both readings of an expression agree.

* Each form keeps this up if its parts do: a tuple, a call, an object, a traversal and so on.
* The parts stand behind at least one token, so an induction over the tokens that are left closes the
  circle (`expressions`).
-/

namespace Overlay.Hcl

namespace Sides

variable {S : Sides} {ok : Prop} {n : Nat} {s : Pos} {c c' : Cursor}

/-! ## Forms -/

section

variable (S)

/-- What both sides read is the same up to places, and both are right behind it. -/
def Reads {α : Type} (map : (Span → Span) → α → α) (n : Nat) (s : Pos) (ok : Prop) (a a' : α)
    (c c' : Cursor) : Prop :=
  S.Aligned n s c c' ∧ (ok → map S.unwrap a' = a ∧ S.Near c c')

/-- What both sides read is the same up to places. -/
def Leaves {α : Type} (map : (Span → Span) → α → α) (n : Nat) (s : Pos) (ok : Prop) (a a' : α)
    (c c' : Cursor) : Prop :=
  S.Aligned n s c c' ∧ (ok → map S.unwrap a' = a)

/-- A construct ends the same way on both sides, and where it is closed both are right behind it. -/
def Closes (n : Nat) (s : Pos) (ok : Prop) (a a' : Parser.Closing) (c c' : Cursor) : Prop :=
  S.Aligned n s c c' ∧ a = a' ∧ (ok → a ≠ .unclosed → S.Near c c')

/-- What stands between two marks is the same up to places, and it ends the same way. -/
def Delimits {α : Type} (map : (Span → Span) → α → α) (n : Nat) (s : Pos) (ok : Prop)
    (a a' : α × Parser.Closing) (c c' : Cursor) : Prop :=
  (ok → map S.unwrap a'.1 = a.1) ∧ S.Closes n s ok a.2 a'.2 c c'

end

theorem invalidExpression_agrees (h : S.Aligned n s c c') :
    S.Agrees ok (S.Reads Expr.mapSpans n s) (Parser.invalidExpression S.plain c)
      (Parser.invalidExpression S.container c') := by
  unfold Parser.invalidExpression
  simp only [Parser.lookahead_bind, Parser.found_bind, Parser.reportAt_bind, Parser.peekKind_bind]
  have hspan := h.ahead
  have hname := congrArg SyntaxFault.invalidExpression h.name_eq
  cases hc : c.kind? with
  | none =>
    -- A line end stays in place like the end of the text.
    rcases h.kind_none hc with hnone | hline
    · simp only [hnone]
      exact .reported hname hspan ⟨h, False.elim⟩
    · simp only [hline]
      exact .reported hname hspan ⟨h, False.elim⟩
  | some k =>
    rcases h.kind_some hc with ⟨k', hc', hk⟩
    have hcomma : (k == .mark .comma) = (k' == .mark .comma) := by
      rw [Bool.eq_iff_iff, beq_iff_eq, beq_iff_eq]
      exact hk.mark_iff .comma
    simp only [hc', hk.isNewline_eq, hk.isCloser_eq, hcomma]
    split
    · exact .reported hname hspan ⟨h, False.elim⟩
    · exact .reported hname hspan ⟨h.advance, False.elim⟩

theorem close_agrees {own : Mark} {fault : SyntaxFault} (hown : own ≠ .newline)
    (h : S.Aligned n s c c') (hend : Settled c c') :
    S.Agrees ok (S.Closes n s) (Parser.close own fault S.plain c)
      (Parser.close own fault S.container c') := by
  unfold Parser.close
  simp only [Parser.peekKind_bind]
  cases hc : c.kind? with
  | none =>
    simp only [hend.kind_none hc]
    exact .pure ⟨h, rfl, fun _ hne => absurd rfl hne⟩
  | some k =>
    rcases h.kind_some hc with ⟨k', hc', hk⟩
    simp only [hc', hk.isCloser_eq]
    by_cases hown : k = .mark own
    · -- The closer is taken on both sides, which leaves them right behind it.
      have hown' := (hk.mark_iff own).1 hown
      simp only [hown, hown', if_true]
      rw [hown] at hc
      exact .pure ⟨h.advance, rfl, fun _ _ => h.near_advance hc⟩
    · have hown' : ¬k' = .mark own := fun h' => hown ((hk.mark_iff own).2 h')
      simp only [hown, hown', if_false]
      split
      · exact .pure ⟨h, rfl, fun _ hne => absurd rfl hne⟩
      · -- Anything else is reported, and what is skipped reaches the same closer on both sides.
        exact .reported rfl h.ahead ⟨h.skipToClose own ‹_›, rfl, False.elim⟩

theorem delimited_agrees {α : Type} {map : (Span → Span) → α → α} {items items' : Parser α}
    {own : Mark} {fault : SyntaxFault} (hown : own ≠ .newline)
    (hitems : ∀ ok c c', S.Aligned n s c c' → Settled c c' →
      S.Agrees ok (S.Leaves map n s) (items S.plain c) (items' S.container c'))
    (h : S.Aligned n s c c') :
    S.Agrees ok (S.Delimits map n s)
      (Parser.delimited items own fault S.plain c)
      (Parser.delimited items' own fault S.container c') := by
  unfold Parser.delimited
  simp only [Parser.newlines_bind]
  refine .bind (hitems ok _ _ h.skipNewlines h.settled_skipNewlines) ?_
  rintro ok a a' c c' _ ⟨h, ha⟩
  simp only [Parser.newlines_bind]
  refine .bind (close_agrees hown h.skipNewlines h.settled_skipNewlines) ?_
  intro ok' b b' c c' hok hclose
  exact .pure ⟨fun hclean => ha ⟨hclean.1, hok hclean.2⟩, hclose⟩

/-- The end of a collection: a report if it is unclosed, and its span from `start` on. -/
theorem unclosed_agrees {m : Nat} {fault : SyntaxFault} {closing closing' : Parser.Closing}
    {opener opener' : Span} {start start' s₀ : Pos} {mk mk' : Span → Expr}
    (h : S.Closes n start (S.exact ∧ ok) closing closing' c c')
    (hopener : S.wrapped.WrapsSpan opener opener') (hstart : S.wrapped.Wraps start start')
    (hm : n ≤ m) (hle : s₀ ≤ start)
    (hmk : S.exact ∧ ok → ∀ span, (mk' span).mapSpans S.unwrap =
      mk (S.unwrap span)) :
    S.Agrees ok (S.Reads Expr.mapSpans m s₀)
      ((do
        if closing = .unclosed then Parser.reportAt opener fault
        return mk (← Parser.spanFrom start) : Parser Expr) S.plain c)
      ((do
        if closing' = .unclosed then Parser.reportAt opener' fault
        return mk' (← Parser.spanFrom start') : Parser Expr) S.container c') := by
  rcases h with ⟨haligned, rfl, hnear⟩
  -- What is unclosed is reported, so that nothing is said about its value.
  by_cases hclosing : closing = .unclosed
  · simp only [hclosing, if_true]
    exact .reported rfl hopener ⟨(haligned.of_le hle).mono hm, False.elim⟩
  · simp only [hclosing, if_false]
    refine .pure ⟨(haligned.of_le hle).mono hm, fun hok => ?_⟩
    have hspan := haligned.wrapsSpan hstart (hnear hok hclosing)
    exact ⟨(hmk hok _).trans (congrArg mk (S.unwraps hspan)), hnear hok hclosing⟩

theorem tuple_agrees {items items' : Parser (List Expr)} {t t' : Token} {ts ts' : List Token}
    {last last' : Pos}
    (hitems : ∀ ok s c c', S.Aligned n s c c' → Settled c c' →
      S.Agrees ok (S.Leaves mapItems n s) (items S.plain c) (items' S.container c'))
    (h : S.Aligned (n + 1) s ⟨last, t :: ts⟩ ⟨last', t' :: ts'⟩) :
    S.Agrees ok (S.Reads Expr.mapSpans (n + 1) s)
      (Parser.tuple items t.span S.plain ⟨last, t :: ts⟩)
      (Parser.tuple items' t'.span S.container ⟨last', t' :: ts'⟩) := by
  rcases h.head with ⟨token, -⟩
  unfold Parser.tuple
  simp only [Parser.advance_bind]
  refine .bind (delimited_agrees (by decide) (fun ok c c' => hitems ok _ c c') h.tail.1) ?_
  rintro ok ⟨items, closing⟩ ⟨items', closing'⟩ c c' _ ⟨hsame, hcloses⟩
  exact unclosed_agrees hcloses token.span token.span.start (Nat.le_succ n) h.within.le_start
    fun hok span => by rw [Expr.mapSpans, hsame hok]

theorem call_agrees {arguments arguments' : Parser (List Expr)} {name name' : String}
    {t t' u u' : Token} {ts ts' : List Token} {last last' : Pos}
    (harguments : ∀ ok s c c', S.Aligned n s c c' → Settled c c' →
      S.Agrees ok (S.Leaves mapItems n s) (arguments S.plain c) (arguments' S.container c'))
    (hname : S.exact → name = name')
    (h : S.Aligned (n + 1) s ⟨last, t :: u :: ts⟩ ⟨last', t' :: u' :: ts'⟩) :
    S.Agrees ok (S.Reads Expr.mapSpans (n + 1) s)
      (Parser.call arguments name t.span.start S.plain ⟨last, t :: u :: ts⟩)
      (Parser.call arguments' name' t'.span.start S.container ⟨last', t' :: u' :: ts'⟩) := by
  rcases h.head with ⟨token, -⟩
  rcases h.tail.1.head with ⟨opener, -⟩
  unfold Parser.call
  simp only [Parser.advance_bind, Parser.lookahead_bind]
  refine .bind (delimited_agrees (by decide) (fun ok c c' => harguments ok _ c c') h.tail.1.next) ?_
  rintro ok ⟨arguments, closing⟩ ⟨arguments', closing'⟩ c c' _ ⟨hsame, hcloses⟩
  exact unclosed_agrees hcloses opener.span token.span.start (Nat.le_succ n) h.within.le_start
    fun hok span => by rw [Expr.mapSpans, hsame hok, hname hok.1]

theorem object_agrees {entries entries' : Parser (List Entry × Parser.Closing)} {t t' : Token}
    {ts ts' : List Token} {last last' : Pos}
    (hentries : ∀ ok s c c', S.Aligned n s c c' →
      S.Agrees ok (S.Delimits mapEntries n s) (entries S.plain c) (entries' S.container c'))
    (h : S.Aligned (n + 1) s ⟨last, t :: ts⟩ ⟨last', t' :: ts'⟩) :
    S.Agrees ok (S.Reads Expr.mapSpans (n + 1) s)
      (Parser.object entries t.span S.plain ⟨last, t :: ts⟩)
      (Parser.object entries' t'.span S.container ⟨last', t' :: ts'⟩) := by
  rcases h.head with ⟨token, -⟩
  unfold Parser.object
  simp only [Parser.advance_bind]
  refine .bind (hentries ok _ _ _ h.tail.1) ?_
  rintro ok ⟨entries, closing⟩ ⟨entries', closing'⟩ c c' _ ⟨hsame, hcloses⟩
  exact unclosed_agrees hcloses token.span token.span.start (Nat.le_succ n) h.within.le_start
    fun hok span => by rw [Expr.mapSpans, hsame hok]

theorem closeParens_agrees (h : S.Aligned n s c c') (hend : Settled c c') :
    S.Agrees ok (fun ok _ _ c c' => S.Aligned n s c c' ∧ (ok → S.Near c c'))
      (Parser.closeParens S.plain c) (Parser.closeParens S.container c') := by
  unfold Parser.closeParens
  rw [Parser.mark_bind, Parser.mark_bind]
  have hiff := h.mark_iff (m := .closeParen) (by decide)
  by_cases hc : c.kind? = some (.mark .closeParen)
  · simp only [hc, hiff.1 hc, if_true]
    exact .pure ⟨h.advance, fun _ => h.near_advance hc⟩
  · rw [if_neg hc, if_neg fun hc' => hc (hiff.2 hc')]
    simp only [Bool.false_eq_true, if_false, Parser.report_bind, Parser.peekKind_bind]
    have hskip := h.skipToClose .closeParen (by decide)
    cases hkind : c.kind? with
    | none =>
      simp only [hend.kind_none hkind]
      exact .reported rfl h.ahead ⟨h, False.elim⟩
    | some k =>
      rcases h.kind_some hkind with ⟨k', hkind', hk⟩
      rw [hkind']
      rcases hk with rfl | ⟨a, b, rfl, rfl⟩
      · cases k with
        | mark m =>
          -- A closing brace or bracket stays in place.
          cases m <;> first
            | exact .reported rfl h.ahead ⟨h, False.elim⟩
            | exact .reported rfl h.ahead ⟨hskip, False.elim⟩
        | _ => exact .reported rfl h.ahead ⟨hskip, False.elim⟩
      · exact .reported rfl h.ahead ⟨hskip, False.elim⟩

theorem parens_agrees {inner inner' : Parser Expr} {t t' : Token} {ts ts' : List Token}
    {last last' : Pos}
    (hinner : ∀ ok s c c', S.Aligned n s c c' →
      S.Agrees ok (S.Reads Expr.mapSpans n s) (inner S.plain c) (inner' S.container c'))
    (h : S.Aligned (n + 1) s ⟨last, t :: ts⟩ ⟨last', t' :: ts'⟩) :
    S.Agrees ok (S.Reads Expr.mapSpans (n + 1) s)
      (Parser.parens inner t.span.start S.plain ⟨last, t :: ts⟩)
      (Parser.parens inner' t'.span.start S.container ⟨last', t' :: ts'⟩) := by
  rcases h.head with ⟨token, -⟩
  have hle := h.within.le_start
  unfold Parser.parens
  simp only [Parser.advance_bind, Parser.newlines_bind]
  refine .bind (hinner ok _ _ _ h.tail.1.skipNewlines) ?_
  rintro ok e e' c c' _ ⟨h, hsame⟩
  simp only [Parser.newlines_bind]
  refine .bind (closeParens_agrees h.skipNewlines h.settled_skipNewlines) ?_
  rintro ok' _ _ c c' hok ⟨h, hnear⟩
  simp only [Parser.spanFrom_bind, Parser.pure_run]
  refine .pure ⟨(h.of_le hle).mono (Nat.le_succ n), fun hclean => ⟨?_, hnear hclean⟩⟩
  -- The span starts at the parenthesis and stops at the last token, which both sides share.
  have hspan := h.wrapsSpan token.span.start (hnear hclean)
  rw [Expr.mapSpans, (hsame ⟨hclean.1, hok hclean.2⟩).1, S.unwraps hspan]

theorem negate_agrees {operand operand' : Parser Expr} {t t' : Token} {ts ts' : List Token}
    {last last' : Pos}
    (hoperand : ∀ ok s c c', S.Aligned n s c c' →
      S.Agrees ok (S.Reads Expr.mapSpans n s) (operand S.plain c) (operand' S.container c'))
    (h : S.Aligned (n + 1) s ⟨last, t :: ts⟩ ⟨last', t' :: ts'⟩) :
    S.Agrees ok (S.Reads Expr.mapSpans (n + 1) s)
      ((do
        Parser.advance
        let operand ← operand
        return .negate operand (← Parser.spanFrom t.span.start) : Parser Expr) S.plain
          ⟨last, t :: ts⟩)
      ((do
        Parser.advance
        let operand ← operand'
        return .negate operand (← Parser.spanFrom t'.span.start) : Parser Expr) S.container
          ⟨last', t' :: ts'⟩) := by
  rcases h.head with ⟨token, -⟩
  have hle := h.within.le_start
  simp only [Parser.advance_bind]
  refine .bind (hoperand ok _ _ _ h.tail.1) ?_
  rintro ok e e' c c' _ ⟨h, hsame⟩
  simp only [Parser.spanFrom_bind, Parser.pure_run]
  refine .pure ⟨(h.of_le hle).mono (Nat.le_succ n), fun hclean => ⟨?_, (hsame hclean).2⟩⟩
  have hspan := h.wrapsSpan token.span.start (hsame hclean).2
  rw [Expr.mapSpans, (hsame hclean).1, S.unwraps hspan]

theorem traversal_agrees {steps steps' : Parser (List Step)} {root root' : String} {t t' : Token}
    {ts ts' : List Token} {last last' : Pos}
    (hsteps : ∀ ok s c c', S.Aligned n s c c' → (S.exact ∧ ok → S.Near c c') →
      S.Agrees ok (S.Reads mapSteps n s) (steps S.plain c) (steps' S.container c'))
    (hroot : S.exact → root = root')
    (h : S.Aligned (n + 1) s ⟨last, t :: ts⟩ ⟨last', t' :: ts'⟩) :
    S.Agrees ok (S.Reads Traversal.mapSpans (n + 1) s)
      (Parser.traversal steps root t.span S.plain ⟨last, t :: ts⟩)
      (Parser.traversal steps' root' t'.span S.container ⟨last', t' :: ts'⟩) := by
  rcases h.head with ⟨token, -⟩
  have hle := h.within.le_start
  unfold Parser.traversal
  simp only [Parser.advance_bind]
  refine .bind (hsteps ok _ _ _ h.tail.1 fun _ => h.tail.2) ?_
  rintro ok a a' c c' _ ⟨h, hsame⟩
  rw [Parser.mark_bind, Parser.mark_bind]
  have hiff := h.mark_iff (m := .dot) (by decide)
  -- A dot without a name is left by the steps and reported here.
  by_cases hdot : c.kind? = some (.mark .dot)
  · simp only [hdot, hiff.1 hdot, if_true, Parser.report_bind, Parser.spanFrom_bind]
    exact .reported rfl h.advance.ahead
      ⟨(h.advance.of_le hle).mono (Nat.le_succ n), False.elim⟩
  · rw [if_neg hdot, if_neg fun hdot' => hdot (hiff.2 hdot')]
    simp only [Bool.false_eq_true, if_false]
    refine .pure ⟨(h.of_le hle).mono (Nat.le_succ n), fun hclean => ⟨?_, (hsame hclean).2⟩⟩
    have hspan := h.wrapsSpan token.span.start (hsame hclean).2
    show Traversal.mk root' _ (mapSteps _ a') _ = Traversal.mk root t.span a ⟨_, c.last⟩
    rw [hroot hclean.1, S.unwraps token.span, (hsame hclean).1, ← S.unwraps hspan]
    rfl

theorem indexStep_agrees {key key' : Parser Expr} {t t' : Token} {ts ts' : List Token}
    {last last' : Pos}
    (hkey : ∀ ok s c c', S.Aligned n s c c' →
      S.Agrees ok (S.Reads Expr.mapSpans n s) (key S.plain c) (key' S.container c'))
    (h : S.Aligned (n + 1) s ⟨last, t :: ts⟩ ⟨last', t' :: ts'⟩) :
    S.Agrees ok (S.Reads Step.mapSpans n s)
      (Parser.indexStep key t.span.start S.plain ⟨last, t :: ts⟩)
      (Parser.indexStep key' t'.span.start S.container ⟨last', t' :: ts'⟩) := by
  rcases h.head with ⟨token, -⟩
  have hle := h.within.le_start
  unfold Parser.indexStep
  simp only [Parser.advance_bind, Parser.newlines_bind]
  refine .bind (hkey ok _ _ _ h.tail.1.skipNewlines) ?_
  rintro ok e e' c c' _ ⟨h, hsame⟩
  simp only [Parser.newlines_bind]
  rw [Parser.mark_bind, Parser.mark_bind]
  have h := h.skipNewlines
  have hiff := h.mark_iff (m := .closeBracket) (by decide)
  -- Only behind the bracket both sides are near; without it only the reports have to agree.
  by_cases hc : c.skipNewlines.kind? = some (.mark .closeBracket)
  · rw [if_pos hc, if_pos (hiff.1 hc)]
    simp only [if_true]
    have hnear := h.near_advance hc
    refine .pure ⟨h.advance.of_le hle, fun hclean => ⟨?_, hnear⟩⟩
    have hspan := h.advance.wrapsSpan token.span.start hnear
    show Step.index (e'.mapSpans _) _ = Step.index e ⟨_, c.skipNewlines.advance.last⟩
    rw [(hsame hclean).1, ← S.unwraps hspan]
    rfl
  · rw [if_neg hc, if_neg fun hc' => hc (hiff.2 hc')]
    simp only [Bool.false_eq_true, if_false, Parser.report_bind, Parser.move_bind,
      Parser.spanFrom_bind, Parser.pure_run]
    exact .reported rfl h.ahead ⟨(h.skipToClose .closeBracket (by decide)).of_le hle, False.elim⟩

theorem dotStep_agrees {t t' : Token} {ts ts' : List Token} {last last' : Pos}
    (h : S.Aligned (n + 1) s ⟨last, t :: ts⟩ ⟨last', t' :: ts'⟩)
    (hnear : S.exact ∧ ok → S.Near ⟨last, t :: ts⟩ ⟨last', t' :: ts'⟩) :
    S.Agrees ok (fun ok a a' c c' =>
        (a = none ∧ a' = none ∧ S.Aligned (n + 1) s c c' ∧ (ok → S.Near c c')) ∨
        ∃ step step', a = some step ∧ a' = some step' ∧
          S.Reads Step.mapSpans n s ok step step' c c')
      (Parser.dotStep? t.span.start S.plain ⟨last, t :: ts⟩)
      (Parser.dotStep? t'.span.start S.container ⟨last', t' :: ts'⟩) := by
  rcases h.head with ⟨token, -⟩
  have hle := h.within.le_start
  rcases h.tail with ⟨htail, -⟩
  have hnone : S.Agrees ok (fun ok a a' c c' =>
        (a = none ∧ a' = none ∧ S.Aligned (n + 1) s c c' ∧ (ok → S.Near c c')) ∨
        ∃ step step', a = some step ∧ a' = some step' ∧
          S.Reads Step.mapSpans n s ok step step' c c')
      ⟨none, ⟨last, t :: ts⟩, []⟩ ⟨none, ⟨last', t' :: ts'⟩, []⟩ :=
    .pure (.inl ⟨rfl, rfl, h, hnear⟩)
  unfold Parser.dotStep?
  simp only [Parser.peekSecond_bind]
  cases hrest : htail.rest with
  | nil => exact hnone
  | lineEnd u kind =>
    -- A line end is no name, so the dot stays on the wrapped side too.
    rcases u with ⟨k, span⟩
    cases kind
    exact hnone
  | @cons u u' us us' next =>
    have hnext : S.Near ⟨u.span.stop, us⟩ ⟨u'.span.stop, us'⟩ := next.span.stop
    have hspan := htail.next.wrapsSpan token.span.start hnext
    rcases u with ⟨k, span⟩
    rcases u' with ⟨k', span'⟩
    rcases next.kind with hk | ⟨a, b, ha, hb⟩
    · cases hk
      cases k with
      | ident name =>
        refine .pure (.inr ⟨_, _, rfl, rfl, htail.next.of_le hle, fun _ => ⟨?_, hnext⟩⟩)
        exact congrArg (Step.attr name) (S.unwraps hspan)
      | number text =>
        refine .pure (.inr ⟨_, _, rfl, rfl, htail.next.of_le hle, fun _ => ⟨?_, hnext⟩⟩)
        exact congrArg₂ (fun a b => Step.index (.number text a) b) (S.unwraps next.span)
          (S.unwraps hspan)
      | _ => exact hnone
    · cases ha
      cases hb
      exact hnone

/-! ## Expressions -/

variable (S) in
/-- Both sides agree on the parts of expressions while at most `n` tokens are left. Each side has
its own bound of the depth, and either is enough. -/
structure Expressions (n : Nat) : Prop where
  value : ∀ {d d' : Nat} (ok : Prop) (s : Pos) (c c' : Cursor), 2 * n + 1 ≤ d → 2 * n + 1 ≤ d' →
    S.Aligned n s c c' → S.Agrees ok (S.Reads Expr.mapSpans n s) (Parser.value d S.plain c)
      (Parser.value d' S.container c')
  steps : ∀ {d d' : Nat} (ok : Prop) (s : Pos) (c c' : Cursor), 2 * n + 1 ≤ d → 2 * n + 1 ≤ d' →
    S.Aligned n s c c' → (S.exact ∧ ok → S.Near c c') →
      S.Agrees ok (S.Reads mapSteps n s) (Parser.steps d S.plain c) (Parser.steps d' S.container c')
  elements : ∀ {d d' : Nat} (ok : Prop) (s : Pos) (c c' : Cursor), 2 * n + 2 ≤ d → 2 * n + 2 ≤ d' →
    S.Aligned n s c c' → Settled c c' → S.Agrees ok (S.Leaves mapItems n s)
      (Parser.elements d S.plain c) (Parser.elements d' S.container c')
  entries : ∀ {d d' : Nat} (ok : Prop) (s : Pos) (c c' : Cursor), 2 * n + 2 ≤ d → 2 * n + 2 ≤ d' →
    S.Aligned n s c c' →
      S.Agrees ok (S.Delimits mapEntries n s)
        (Parser.objectEntries d S.plain c) (Parser.objectEntries d' S.container c')

theorem literalName?_mapSpans (f : Span → Span) (name : String) (span : Span) :
    Parser.literalName? name (f span) = (Parser.literalName? name span).map (Expr.mapSpans f) := by
  unfold Parser.literalName?
  split
  · rfl
  · split
    · rfl
    · split <;> rfl

/-- An expression that is one token. -/
theorem leaf_agrees {e e' : Expr} {t t' : Token} {ts ts' : List Token} {last last' : Pos}
    (h : S.Aligned n s ⟨last, t :: ts⟩ ⟨last', t' :: ts'⟩)
    (he : S.exact → e'.mapSpans S.unwrap = e) :
    S.Agrees ok (S.Reads Expr.mapSpans n s) ⟨e, ⟨t.span.stop, ts⟩, []⟩
      ⟨e', ⟨t'.span.stop, ts'⟩, []⟩ :=
  .pure ⟨h.next, fun hok => ⟨he hok.1, h.head.1.span.stop⟩⟩

theorem named_agrees {d d' : Nat} {name : String} {span span' : Span} {ts ts' : List Token}
    {last last' : Pos} (hsub : S.Expressions n) (hd : 2 * n + 2 ≤ d) (hd' : 2 * n + 2 ≤ d')
    (h : S.Aligned (n + 1) s ⟨last, ⟨.ident name, span⟩ :: ts⟩
      ⟨last', ⟨.ident name, span'⟩ :: ts'⟩) :
    S.Agrees ok (S.Reads Expr.mapSpans (n + 1) s)
      (Parser.value (d + 1) S.plain ⟨last, ⟨.ident name, span⟩ :: ts⟩)
      (Parser.value (d' + 1) S.container ⟨last', ⟨.ident name, span'⟩ :: ts'⟩) := by
  rcases h.head with ⟨token, -⟩
  have hliteral := literalName?_mapSpans S.unwrap name span'
  rw [S.unwraps token.span] at hliteral
  unfold Parser.value
  simp only [Parser.peek_bind, List.head?_cons, hliteral]
  cases hname : Parser.literalName? name span' with
  | some e =>
    simp only [Option.map_some]
    exact leaf_agrees h fun _ => rfl
  | none =>
    simp only [Option.map_none, Parser.peekSecond_bind]
    have hiff := h.advance.mark_iff (m := .openParen) (by decide)
    -- Marks are the same on both sides, so a name is called on both of them or on none.
    by_cases hcall : (⟨last, ⟨.ident name, span⟩ :: ts⟩ : Cursor).advance.kind? =
        some (.mark .openParen)
    · have hcall' := hiff.1 hcall
      simp only [hcall, hcall', if_true]
      rcases Cursor.exists_cons_of_kind? hcall with ⟨u, us, rfl, -⟩
      rcases Cursor.exists_cons_of_kind? hcall' with ⟨u', us', rfl, -⟩
      exact call_agrees (fun ok s c c' => hsub.elements ok s c c' hd hd') (fun _ => rfl) h
    · have hcall' : ¬(⟨last', ⟨.ident name, span'⟩ :: ts'⟩ : Cursor).advance.kind? =
          some (.mark .openParen) := fun hcall' => hcall (hiff.2 hcall')
      simp only [hcall, hcall', if_false]
      refine .bind (traversal_agrees
        (fun ok s c c' => hsub.steps ok s c c' (by omega) (by omega)) (fun _ => rfl) h) ?_
      rintro ok path path' c c' _ ⟨h, hsame⟩
      refine .pure ⟨h, fun hok => ⟨?_, (hsame hok).2⟩⟩
      rw [Expr.mapSpans, (hsame hok).1]

theorem value_agrees {d d' : Nat} (hsub : ∀ m, n = m + 1 → S.Expressions m)
    (hd : 2 * n + 1 ≤ d) (hd' : 2 * n + 1 ≤ d') (h : S.Aligned n s c c') :
    S.Agrees ok (S.Reads Expr.mapSpans n s) (Parser.value d S.plain c)
      (Parser.value d' S.container c') := by
  obtain ⟨d, rfl⟩ : ∃ e, d = e + 1 := ⟨d - 1, by omega⟩
  obtain ⟨d', rfl⟩ : ∃ e, d' = e + 1 := ⟨d' - 1, by omega⟩
  have hinvalid : S.Agrees ok (S.Reads Expr.mapSpans n s) (Parser.invalidExpression S.plain c)
      (Parser.invalidExpression S.container c') := invalidExpression_agrees h
  rcases c with ⟨last, rest⟩
  rcases c' with ⟨last', rest'⟩
  cases hrest : h.rest with
  | nil =>
    unfold Parser.value
    exact hinvalid
  | lineEnd t kind =>
    rcases t with ⟨k, span⟩
    cases kind
    unfold Parser.value
    exact hinvalid
  | @cons t t' ts ts' token same late rest =>
    rcases h.within.exists_succ with ⟨m, rfl⟩
    have hsub := hsub m rfl
    rcases t with ⟨k, span⟩
    rcases t' with ⟨k', span'⟩
    rcases token.kind with hk | ⟨a, b, ha, hb⟩
    · cases hk
      cases k with
      | ident name => exact named_agrees hsub (by omega) (by omega) h
      | number text =>
        unfold Parser.value
        exact leaf_agrees h fun _ => congrArg (Expr.number text) (S.unwraps token.span)
      | str text =>
        unfold Parser.value
        exact leaf_agrees h fun _ => congrArg (Expr.string text) (S.unwraps token.span)
      | heredoc text =>
        unfold Parser.value
        exact leaf_agrees h fun _ => congrArg (Expr.string text) (S.unwraps token.span)
      | stray c =>
        unfold Parser.value
        exact hinvalid
      | mark m =>
        unfold Parser.value
        cases m with
        | minus =>
          exact negate_agrees (fun ok s c c' => hsub.value ok s c c' (by omega) (by omega)) h
        | openBracket =>
          exact tuple_agrees (fun ok s c c' => hsub.elements ok s c c' (by omega) (by omega)) h
        | openBrace =>
          exact object_agrees (fun ok s c c' => hsub.entries ok s c c' (by omega) (by omega)) h
        | openParen =>
          exact parens_agrees (fun ok s c c' => hsub.value ok s c c' (by omega) (by omega)) h
        | _ => exact hinvalid
    · -- Two heredocs have the same text where all tokens are of the same kind.
      cases ha
      cases hb
      unfold Parser.value
      refine leaf_agrees h fun hexact => ?_
      cases same hexact
      exact congrArg (Expr.string a) (S.unwraps token.span)

/-- A step and the steps behind it. -/
theorem moreSteps_agrees {d d' : Nat} {step step' : Step} (hsub : S.Expressions n)
    (hd : 2 * n + 1 ≤ d) (hd' : 2 * n + 1 ≤ d')
    (h : S.Reads Step.mapSpans n s (S.exact ∧ ok) step step' c c') :
    S.Agrees ok (S.Reads mapSteps (n + 1) s)
      ((do return step :: (← Parser.steps d) : Parser (List Step)) S.plain c)
      ((do return step' :: (← Parser.steps d') : Parser (List Step)) S.container c') := by
  rcases h with ⟨haligned, hstep⟩
  refine .bind (hsub.steps ok s c c' hd hd' haligned fun hok => (hstep hok).2) ?_
  rintro ok' rest rest' c c' hok ⟨h, hrest⟩
  refine .pure ⟨h.mono (Nat.le_succ n), fun hclean => ⟨?_, (hrest hclean).2⟩⟩
  rw [mapSteps, (hstep ⟨hclean.1, hok hclean.2⟩).1, (hrest hclean).1]

theorem steps_agrees {d d' : Nat} (hsub : ∀ m, n = m + 1 → S.Expressions m)
    (hd : 2 * n + 1 ≤ d) (hd' : 2 * n + 1 ≤ d') (h : S.Aligned n s c c')
    (hnear : S.exact ∧ ok → S.Near c c') :
    S.Agrees ok (S.Reads mapSteps n s) (Parser.steps d S.plain c)
      (Parser.steps d' S.container c') := by
  obtain ⟨d, rfl⟩ : ∃ e, d = e + 1 := ⟨d - 1, by omega⟩
  obtain ⟨d', rfl⟩ : ∃ e, d' = e + 1 := ⟨d' - 1, by omega⟩
  have hnone : S.Agrees ok (S.Reads mapSteps n s) ⟨[], c, []⟩ ⟨[], c', []⟩ :=
    .pure ⟨h, fun hok => ⟨rfl, hnear hok⟩⟩
  rcases c with ⟨last, rest⟩
  rcases c' with ⟨last', rest'⟩
  unfold Parser.steps
  cases hrest : h.rest with
  | nil => exact hnone
  | lineEnd t kind =>
    rcases t with ⟨k, span⟩
    cases kind
    exact hnone
  | @cons t t' ts ts' token same late rest =>
    rcases h.within.exists_succ with ⟨m, rfl⟩
    have hsub := hsub m rfl
    rcases t with ⟨k, span⟩
    rcases t' with ⟨k', span'⟩
    simp only [Parser.peek_bind, List.head?_cons]
    -- Kinds that differ are those of heredocs, and these start no step.
    rcases token.kind with hk | ⟨a, b, ha, hb⟩
    · cases hk
      cases k with
      | mark mk =>
        cases mk with
        | dot =>
          refine .bind (dotStep_agrees h hnear) ?_
          intro ok a a' c c' hok hstep
          rcases hstep with ⟨rfl, rfl, h, hnear⟩ | ⟨step, step', rfl, rfl, hstep⟩
          · exact .pure ⟨h, fun hok => ⟨rfl, hnear hok⟩⟩
          · exact moreSteps_agrees hsub (by omega) (by omega) hstep
        | openBracket =>
          refine .bind (indexStep_agrees
            (fun ok s c c' => hsub.value ok s c c' (by omega) (by omega)) h) ?_
          intro ok step step' c c' hok hstep
          exact moreSteps_agrees hsub (by omega) (by omega) hstep
        | _ => exact hnone
      | _ => exact hnone
    · cases ha
      cases hb
      exact hnone

theorem elements_agrees {d d' : Nat} (hsub : ∀ m, n = m + 1 → S.Expressions m)
    (hd : 2 * n + 2 ≤ d) (hd' : 2 * n + 2 ≤ d') (h : S.Aligned n s c c') (hend : Settled c c') :
    S.Agrees ok (S.Leaves mapItems n s) (Parser.elements d S.plain c)
      (Parser.elements d' S.container c') := by
  obtain ⟨d, rfl⟩ : ∃ e, d = e + 1 := ⟨d - 1, by omega⟩
  obtain ⟨d', rfl⟩ : ∃ e, d' = e + 1 := ⟨d' - 1, by omega⟩
  unfold Parser.elements
  simp only [Parser.peekKind_bind]
  cases hc : c.kind? with
  | none =>
    simp only [hend.kind_none hc]
    exact .pure ⟨h, fun _ => rfl⟩
  | some k =>
    rcases h.kind_some hc with ⟨k', hc', hk⟩
    rcases h.exists_succ hc with ⟨m, rfl⟩
    simp only [hc', hk.isCloser_eq]
    split
    · exact .pure ⟨h, fun _ => rfl⟩
    · refine .bind (value_agrees hsub (by omega) (by omega) h) ?_
      rintro ok e e' c c' _ ⟨h, he⟩
      rw [Parser.comma_bind, Parser.comma_bind]
      have hiff := h.skipNewlines.mark_iff (m := .comma) (by decide)
      by_cases hcomma : c.skipNewlines.kind? = some (.mark .comma)
      · rw [if_pos hcomma, if_pos (hiff.1 hcomma)]
        simp only [if_true]
        -- The comma leaves one token less to the elements behind it.
        have hrest := h.skipNewlines.advance_lt hcomma
        refine .bind ((hsub m rfl).elements ok s _ _ (by omega) (by omega) hrest.skipNewlines
          hrest.settled_skipNewlines) ?_
        rintro ok' items items' c c' hok ⟨h, hitems⟩
        refine .pure ⟨h.mono (Nat.le_succ m), fun hclean => ?_⟩
        rw [mapItems, (he ⟨hclean.1, hok hclean.2⟩).1, hitems hclean]
      · rw [if_neg hcomma, if_neg fun hcomma' => hcomma (hiff.2 hcomma')]
        refine .pure ⟨h, fun hclean => ?_⟩
        rw [mapItems, (he hclean).1, mapItems]

theorem keyOf_agrees {d d' : Nat} (hsub : ∀ m, n = m + 1 → S.Expressions m)
    (hd : 2 * n + 1 ≤ d) (hd' : 2 * n + 1 ≤ d') (h : S.Aligned n s c c') :
    S.Agrees ok (S.Reads Key.mapSpans n s)
      (Parser.keyOf (Parser.value d) (Parser.steps d) S.plain c)
      (Parser.keyOf (Parser.value d') (Parser.steps d') S.container c') := by
  have hexpr : S.Agrees ok (S.Reads Key.mapSpans n s)
      ((do return .expr (← Parser.value d) : Parser Key) S.plain c)
      ((do return .expr (← Parser.value d') : Parser Key) S.container c') := by
    refine .bind (value_agrees hsub hd hd' h) ?_
    rintro ok e e' c c' _ ⟨h, he⟩
    exact .pure ⟨h, fun hclean => ⟨congrArg Key.expr (he hclean).1, (he hclean).2⟩⟩
  rcases c with ⟨last, rest⟩
  rcases c' with ⟨last', rest'⟩
  unfold Parser.keyOf
  cases hrest : h.rest with
  | nil => exact hexpr
  | lineEnd t kind =>
    rcases t with ⟨k, span⟩
    cases kind
    exact hexpr
  | @cons t t' ts ts' token =>
    rcases h.within.exists_succ with ⟨m, rfl⟩
    have hsub := hsub m rfl
    rcases t with ⟨k, span⟩
    rcases t' with ⟨k', span'⟩
    simp only [Parser.peek_bind, List.head?_cons]
    -- A heredoc is no name, so a key that starts with one is an expression, whatever its text.
    rcases token.kind with hk | ⟨a, b, ha, hb⟩
    · cases hk
      cases k with
      | ident name =>
        refine .bind (traversal_agrees
          (fun ok s c c' => hsub.steps ok s c c' (by omega) (by omega)) (fun _ => rfl) h) ?_
        rintro ok path path' c c' _ ⟨h, hpath⟩
        exact .pure ⟨h, fun hclean => ⟨congrArg Key.path (hpath hclean).1, (hpath hclean).2⟩⟩
      | _ => exact hexpr
    · cases ha
      cases hb
      exact hexpr

/-- Behind the value of an entry there is another one, or the end of the object. -/
theorem behindValue_agrees {d d' : Nat} {entry entry' : Entry}
    (hsub : ∀ m, n = m + 1 → S.Expressions m) (hd : 2 * n ≤ d) (hd' : 2 * n ≤ d') (hpos : 0 < d')
    (h : S.Aligned n s c c')
    (hentry : S.exact ∧ ok → entry'.mapSpans S.unwrap = entry) :
    S.Agrees ok (S.Delimits mapEntries n s) (Parser.behindValue d entry S.plain c)
      (Parser.behindValue d' entry' S.container c') := by
  have hone : S.exact ∧ ok → mapEntries S.unwrap [entry'] = [entry] := by
    intro hclean
    rw [mapEntries, mapEntries, hentry hclean]
  have hlast : Settled c c' → S.Agrees ok (S.Delimits mapEntries n s)
      (Parser.lastEntry entry S.plain c) (Parser.lastEntry entry' S.container c') := by
    intro hend
    refine .bind (close_agrees (by decide) h hend) ?_
    intro ok' a a' c c' hok hcloses
    exact .pure ⟨fun hclean => hone ⟨hclean.1, hok hclean.2⟩, hcloses⟩
  unfold Parser.behindValue
  simp only [Parser.peekKind_bind]
  cases hc : c.kind? with
  | none =>
    rcases h.kind_none hc with hc' | hc'
    · rw [hc']
      exact hlast fun _ => by simpa [Cursor.kind?] using hc'
    · -- The line end behind the content is taken, and then both sides are at their ends.
      rcases h.advance_lineEnd hc with ⟨hends, hnil⟩
      obtain ⟨e, rfl⟩ : ∃ e, d' = e + 1 := ⟨d' - 1, by omega⟩
      have hplain : Parser.lastEntry entry S.plain c = ⟨([entry], .unclosed), c, []⟩ := by
        rw [Parser.lastEntry, Parser.bind_run, Parser.close_none hc]
        rfl
      have hcontainer : Parser.entryBefore (e + 1) entry' S.container c' =
          ⟨([entry'], .unclosed), c'.advance, []⟩ := by
        rw [Parser.entryBefore, Parser.advance_bind, Parser.bind_run, Parser.objectEntries_nil hnil]
        rfl
      have hboth : S.Agrees ok (S.Delimits mapEntries n s)
          ⟨([entry], .unclosed), c, []⟩ ⟨([entry'], .unclosed), c'.advance, []⟩ :=
        .pure ⟨hone, hends, rfl, fun _ hne => absurd rfl hne⟩
      rw [← hplain, ← hcontainer] at hboth
      rw [hc']
      exact hboth
  | some k =>
    rcases h.kind_some hc with ⟨k', hc', hk⟩
    rcases h.exists_succ hc with ⟨m, rfl⟩
    have hrest := h.advance_lt hc
    have hmore : S.Agrees ok (S.Delimits mapEntries (m + 1) s)
        (Parser.entryBefore d entry S.plain c) (Parser.entryBefore d' entry' S.container c') := by
      unfold Parser.entryBefore
      simp only [Parser.advance_bind]
      refine .bind ((hsub m rfl).entries ok s _ _ (by omega) (by omega) hrest) ?_
      rintro ok' ⟨entries, closing⟩ ⟨entries', closing'⟩ c c' hok ⟨hsame, h, hclosing, hnear⟩
      refine .pure ⟨fun hclean => ?_, h.mono (Nat.le_succ m), hclosing, hnear⟩
      rw [mapEntries, hentry ⟨hclean.1, hok hclean.2⟩, hsame hclean]
    have hend : Settled c c' := settled_of_kind? hc
    rw [hc']
    rcases hk with rfl | ⟨a, b, rfl, rfl⟩
    · cases k with
      | mark mk =>
        cases mk with
        | comma => exact hmore
        | newline => exact hmore
        | _ => exact hlast hend
      | _ => exact hlast hend
    · exact hlast hend

/-- Behind a key there is a separator and a value, or the object is given up. -/
theorem behindKey_agrees {d d' : Nat} {key key' : Key} (hsub : ∀ m, n = m + 1 → S.Expressions m)
    (hd : 2 * n + 1 ≤ d) (hd' : 2 * n + 1 ≤ d') (h : S.Aligned n s c c')
    (hkey : S.exact ∧ ok → key'.mapSpans S.unwrap = key) :
    S.Agrees ok (S.Delimits mapEntries n s) (Parser.behindKey d key S.plain c)
      (Parser.behindKey d' key' S.container c') := by
  have hbroken : S.Agrees ok (S.Delimits mapEntries n s) (Parser.noSeparator S.plain c)
      (Parser.noSeparator S.container c') :=
    .reported rfl h.ahead ⟨False.elim, h.skipToClose .closeBrace (by decide), rfl, False.elim⟩
  have hvalue : S.Agrees ok (S.Delimits mapEntries n s) (Parser.entryValue d key S.plain c)
      (Parser.entryValue d' key' S.container c') := by
    unfold Parser.entryValue
    simp only [Parser.advance_bind]
    refine .bind (value_agrees hsub (by omega) (by omega) h.advance) ?_
    rintro ok' e e' c c' hok ⟨h, he⟩
    refine behindValue_agrees hsub (by omega) (by omega) (by omega) h fun hclean => ?_
    rw [Entry.mapSpans, hkey ⟨hclean.1, hok hclean.2⟩, (he hclean).1]
  unfold Parser.behindKey
  simp only [Parser.peekKind_bind]
  cases hc : c.kind? with
  | none =>
    -- At the end of the content the wrapped side may have a line end, which separates no value.
    rcases h.kind_none hc with hc' | hc'
    · rw [hc']
      exact hbroken
    · rw [hc']
      exact hbroken
  | some k =>
    rcases h.kind_some hc with ⟨k', hc', hk⟩
    rw [hc']
    rcases hk with rfl | ⟨a, b, rfl, rfl⟩
    · cases k with
      | mark mk =>
        cases mk with
        | equals => exact hvalue
        | colon => exact hvalue
        | _ => exact hbroken
      | _ => exact hbroken
    · exact hbroken

theorem objectEntries_agrees {d d' : Nat} (hsub : ∀ m, n = m + 1 → S.Expressions m)
    (hd : 2 * n + 2 ≤ d) (hd' : 2 * n + 2 ≤ d') (h : S.Aligned n s c c') :
    S.Agrees ok (S.Delimits mapEntries n s)
      (Parser.objectEntries d S.plain c) (Parser.objectEntries d' S.container c') := by
  obtain ⟨d, rfl⟩ : ∃ e, d = e + 1 := ⟨d - 1, by omega⟩
  obtain ⟨d', rfl⟩ : ∃ e, d' = e + 1 := ⟨d' - 1, by omega⟩
  rw [Parser.objectEntries_succ, Parser.objectEntries_succ]
  simp only [Parser.newlines_bind, Parser.peekKind_bind]
  have hend := h.settled_skipNewlines
  have h := h.skipNewlines
  cases hc : c.skipNewlines.kind? with
  | none =>
    simp only [hend.kind_none hc]
    exact .pure ⟨fun _ => rfl, h, rfl, fun _ hne => absurd rfl hne⟩
  | some k =>
    rcases h.kind_some hc with ⟨k', hc', hk⟩
    simp only [hc', hk.startsKey_eq]
    split
    · refine .bind (keyOf_agrees hsub (by omega) (by omega) h) ?_
      rintro ok key key' c c' _ ⟨h, hkey⟩
      exact behindKey_agrees hsub (by omega) (by omega) h fun hclean => (hkey hclean).1
    · refine .bind (close_agrees (by decide) h hend) ?_
      intro ok' a a' c c' hok hcloses
      exact .pure ⟨fun _ => rfl, hcloses⟩

/-- Expressions read the same in the content and in the wrapped text. -/
theorem expressions (S : Sides) (n : Nat) : S.Expressions n := by
  -- By induction on the tokens that are left: every part stands behind at least one of them.
  induction n with
  | zero =>
    have hsub : ∀ m, 0 = m + 1 → S.Expressions m := nofun
    exact ⟨fun _ _ _ _ => value_agrees hsub, fun _ _ _ _ => steps_agrees hsub,
      fun _ _ _ _ => elements_agrees hsub, fun _ _ _ _ => objectEntries_agrees hsub⟩
  | succ n ih =>
    have hsub : ∀ m, n + 1 = m + 1 → S.Expressions m := fun m hm => Nat.succ.inj hm ▸ ih
    exact ⟨fun _ _ _ _ => value_agrees hsub, fun _ _ _ _ => steps_agrees hsub,
      fun _ _ _ _ => elements_agrees hsub, fun _ _ _ _ => objectEntries_agrees hsub⟩

theorem expression_agrees (h : S.Aligned n s c c') :
    S.Agrees ok (S.Reads Expr.mapSpans n s) (Parser.expression S.plain c)
      (Parser.expression S.container c') := by
  -- Each side bounds the depth by its own number of tokens, and the wrapped side has no fewer.
  have hlength := h.rest.length_le
  have hshort : S.Aligned c.rest.length s c c' :=
    ⟨h.rest, h.within.le_last, h.within.order, Nat.le_refl _, h.within.suffix⟩
  have hvalue := (S.expressions c.rest.length).value ok s c c' (Nat.le_succ _)
    (by omega : 2 * c.rest.length + 1 ≤ 2 * c'.rest.length + 2) hshort
  exact hvalue.imp fun _ _ _ _ _ hreads => ⟨hreads.1.mono h.within.short, hreads.2⟩

end Sides

end Overlay.Hcl
