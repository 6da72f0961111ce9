import Overlay.Proofs.Hcl.Cursor
import Overlay.Proofs.Hcl.Parser
import Overlay.Proofs.Hcl.Wrapping

/-!
# Two readings side by side

The content of a container is read twice: as a text of its own, up to its last token, and as a part
of the wrapped text, where a line end and a closing brace stand behind it.

* `Parallel` relates what is left of the tokens, `Aligned` the places. Only the line end behind the
  content can be left over on the wrapped side.
* `Agrees` says that two readings report the same, each at its own places, and end at aligned
  places; where nothing was reported their values agree too.
* Each step keeps this up, and so does a sequence of readings (`Agrees.bind`).
-/

namespace Overlay.Hcl

open Wrapped (Alike)

/-! ## Kinds -/

namespace Wrapped.Alike

variable {k k' : TokenKind}

theorem isNewline_eq (h : Alike k k') : k.isNewline = k'.isNewline := by
  rcases h with rfl | ⟨a, b, rfl, rfl⟩ <;> rfl

theorem isOpener_eq (h : Alike k k') : k.isOpener = k'.isOpener := by
  rcases h with rfl | ⟨a, b, rfl, rfl⟩ <;> rfl

theorem isCloser_eq (h : Alike k k') : k.isCloser = k'.isCloser := by
  rcases h with rfl | ⟨a, b, rfl, rfl⟩ <;> rfl

theorem describe_eq (h : Alike k k') : k.describe = k'.describe := by
  rcases h with rfl | ⟨a, b, rfl, rfl⟩ <;> rfl

theorem startsKey_eq (h : Alike k k') : Parser.startsKey k = Parser.startsKey k' := by
  rcases h with rfl | ⟨a, b, rfl, rfl⟩ <;> rfl

theorem mark_iff (h : Alike k k') (m : Mark) : k = .mark m ↔ k' = .mark m := by
  rcases h with rfl | ⟨a, b, rfl, rfl⟩
  · exact Iff.rfl
  · constructor <;> nofun

theorem ident_iff (h : Alike k k') (name : String) : k = .ident name ↔ k' = .ident name := by
  rcases h with rfl | ⟨a, b, rfl, rfl⟩
  · exact Iff.rfl
  · constructor <;> nofun

end Wrapped.Alike

/-! ## Places -/

/-- The tokens left are the last ones of `all`, in order behind the place, which is at `s` or behind
it, and there are at most `n` of them. -/
structure Cursor.Within (all : List Token) (n : Nat) (s : Pos) (c : Cursor) : Prop where
  le_last : s ≤ c.last
  order : Tokens.InOrder c.last c.rest
  short : c.rest.length ≤ n
  suffix : c.rest <:+ all

namespace Cursor.Within

variable {all : List Token} {n : Nat} {s : Pos} {c : Cursor}

theorem mono {m : Nat} (h : c.Within all n s) (hle : n ≤ m) : c.Within all m s :=
  ⟨h.le_last, h.order, Nat.le_trans h.short hle, h.suffix⟩

theorem of_le {s₀ : Pos} (h : c.Within all n s) (hle : s₀ ≤ s) : c.Within all n s₀ :=
  ⟨Pos.le_trans hle h.le_last, h.order, h.short, h.suffix⟩

/-- Behind the next token there is one token less. -/
theorem tail {t : Token} {ts : List Token} {last : Pos}
    (h : Cursor.Within all (n + 1) s ⟨last, t :: ts⟩) :
    Cursor.Within all n t.span.start ⟨t.span.stop, ts⟩ :=
  ⟨h.order.2.1, h.order.2.2.2, Nat.le_of_succ_le_succ h.short,
    (List.suffix_cons t ts).trans h.suffix⟩

theorem exists_succ {t : Token} {ts : List Token} {last : Pos}
    (h : Cursor.Within all n s ⟨last, t :: ts⟩) : ∃ m, n = m + 1 :=
  Nat.exists_eq_add_one.2 (Nat.lt_of_lt_of_le (Nat.succ_pos _) h.short)

theorem le_start {t : Token} {ts : List Token} {last : Pos}
    (h : Cursor.Within all n s ⟨last, t :: ts⟩) : s ≤ t.span.start :=
  Pos.le_trans h.le_last h.order.1

theorem next {t : Token} {ts : List Token} {last : Pos}
    (h : Cursor.Within all n s ⟨last, t :: ts⟩) : Cursor.Within all n s ⟨t.span.stop, ts⟩ :=
  ⟨Pos.le_trans h.le_start h.order.2.1, h.order.2.2.2, Nat.le_of_succ_le h.short,
    (List.suffix_cons t ts).trans h.suffix⟩

theorem advance (h : c.Within all n s) : c.advance.Within all n s := by
  rcases c with ⟨last, rest⟩
  cases rest with
  | nil => exact h
  | cons t ts => exact h.next

theorem skipWhile (test : TokenKind → Bool) {last : Pos} {ts : List Token}
    (h : Cursor.Within all n s ⟨last, ts⟩) : (Cursor.skipWhile test last ts).Within all n s := by
  induction ts generalizing last with
  | nil => exact h
  | cons t ts ih =>
    unfold Cursor.skipWhile
    split
    · exact ih h.next
    · exact h

theorem skipGroups (depth : Nat) {last : Pos} {ts : List Token}
    (h : Cursor.Within all n s ⟨last, ts⟩) : (Cursor.skipGroups last depth ts).Within all n s := by
  induction ts generalizing last depth with
  | nil =>
    unfold Cursor.skipGroups
    exact h
  | cons t ts ih =>
    unfold Cursor.skipGroups
    split
    · exact ih _ h.next
    · split
      · split
        · exact h
        · exact ih _ h.next
      · exact ih _ h.next

end Cursor.Within

/-! ## Side by side -/

/-- The two sides of a reading: the tokens of the content, their frame, and the frame of the
container around them, the ends of which stand for each other; `unwrap` takes spans back. Under
`exact` all tokens are of the same kind. -/
structure Sides where
  wrapped : Wrapped
  tokens : List Token
  plain : Frame
  container : Frame
  exact : Prop
  unwrap : Span → Span
  ending : wrapped.WrapsSpan plain.ending container.ending
  unwraps : wrapped.Unwraps unwrap

namespace Sides

section

variable (S : Sides)

/-- What is left of the tokens on both sides. On the wrapped side the line end behind the content
may be left over; it stands where the content ends. -/
inductive Parallel : List Token → List Token → Prop where
  | nil : Parallel [] []
  | lineEnd (t : Token) (kind : t.kind = .mark .newline)
      (span : S.wrapped.WrapsSpan S.plain.ending t.span)
      (late : S.container.fileEnd ≤ t.span.start.byte) : Parallel [] [t]
  | cons {t t' : Token} {ts ts' : List Token} (token : S.wrapped.WrapsToken t t')
      (same : S.exact → t.kind = t'.kind)
      (late : S.plain.fileEnd ≤ t.span.start.byte ↔ S.container.fileEnd ≤ t'.span.start.byte)
      (rest : Parallel ts ts') :
    Parallel (t :: ts) (t' :: ts')

/-- Places on both sides with the same in front of them; the first one is `Cursor.Within` the tokens
of the content. -/
structure Aligned (n : Nat) (s : Pos) (c c' : Cursor) : Prop where
  rest : S.Parallel c.rest c'.rest
  within : c.Within S.tokens n s

/-- Both sides are right behind the same token. -/
def Near (c c' : Cursor) : Prop := S.wrapped.Wraps c.last c'.last

/-- Two readings report the same, and what they give is related by `Q`, the first argument of which
says that nothing was reported since `ok`. -/
def Agrees {α β : Type} (ok : Prop) (Q : Prop → α → β → Cursor → Cursor → Prop) (x : Parsed α)
    (x' : Parsed β) : Prop :=
  List.Forall₂ S.wrapped.WrapsItem x.faults x'.faults ∧
    Q (S.exact ∧ ok ∧ x.faults = []) x.value x'.value x.next x'.next

end

/-- One side is at its end only if both are. -/
def Settled (c c' : Cursor) : Prop := c.rest = [] → c'.rest = []

theorem Settled.kind_none {c c' : Cursor} (h : Settled c c') (hc : c.kind? = none) :
    c'.kind? = none := by
  have hrest : c.rest = [] := by simpa [Cursor.kind?] using hc
  simp [Cursor.kind?, h hrest]

theorem settled_of_kind? {k : TokenKind} {c c' : Cursor} (hc : c.kind? = some k) : Settled c c' := by
  intro hrest
  simp [Cursor.kind?, hrest] at hc

variable {S : Sides} {ok : Prop} {n : Nat} {s : Pos} {c c' : Cursor}

/-! ### Sequences and reports -/

section

variable {α β γ δ : Type}

theorem Agrees.bind {Q : Prop → α → β → Cursor → Cursor → Prop}
    {R : Prop → γ → δ → Cursor → Cursor → Prop} {p : Parser α} {p' : Parser β}
    {f : α → Parser γ} {f' : β → Parser δ}
    (hp : S.Agrees ok Q (p S.plain c) (p' S.container c'))
    (hf : ∀ ok' a a' c c', (ok' → ok) → Q (S.exact ∧ ok') a a' c c' →
      S.Agrees ok' R (f a S.plain c) (f' a' S.container c')) :
    S.Agrees ok R ((p >>= f) S.plain c) ((p' >>= f') S.container c') := by
  have hrest := hf _ _ _ _ _ And.left hp.2
  refine ⟨List.rel_append hp.1 hrest.1, ?_⟩
  -- Nothing is reported by both together if neither reports anything.
  have hclean : (S.exact ∧ ok ∧ ((p >>= f) S.plain c).faults = []) =
      (S.exact ∧ (ok ∧ (p S.plain c).faults = []) ∧
        (f (p S.plain c).value S.plain (p S.plain c).next).faults = []) := by
    simp only [Parser.bind_run, List.append_eq_nil_iff, and_assoc]
  rw [hclean]
  exact hrest.2

/-- A report that both sides make. -/
theorem Agrees.reported {Q : Prop → α → β → Cursor → Cursor → Prop} {a : α} {a' : β}
    {fault fault' : SyntaxFault} {span span' : Span} (hfault : fault = fault')
    (hspan : S.wrapped.WrapsSpan span span') (hQ : Q False a a' c c') :
    S.Agrees ok Q ⟨a, c, [⟨fault, span⟩]⟩ ⟨a', c', [⟨fault', span'⟩]⟩ := by
  refine ⟨.cons ⟨hfault, hspan⟩ .nil, ?_⟩
  have hfalse : (S.exact ∧ ok ∧ [(⟨fault, span⟩ : Located SyntaxFault)] = []) = False := by simp
  simpa only [hfalse] using hQ

theorem Agrees.pure {Q : Prop → α → β → Cursor → Cursor → Prop} {a : α} {a' : β}
    (hQ : Q (S.exact ∧ ok) a a' c c') : S.Agrees ok Q ⟨a, c, []⟩ ⟨a', c', []⟩ := by
  refine ⟨.nil, ?_⟩
  simpa only [and_true] using hQ

theorem Agrees.imp {Q R : Prop → α → β → Cursor → Cursor → Prop} {x : Parsed α}
    {x' : Parsed β} (h : S.Agrees ok Q x x')
    (hQ : ∀ ok a a' c c', Q ok a a' c c' → R ok a a' c c') : S.Agrees ok R x x' :=
  ⟨h.1, hQ _ _ _ _ _ h.2⟩

end

/-! ### Steps -/

namespace Parallel

variable {ts ts' : List Token}

theorem skipWhile {test : TokenKind → Bool} (htest : ∀ k k', Alike k k' → test k = test k')
    (h : S.Parallel ts ts') (last last' : Pos) :
    S.Parallel (Cursor.skipWhile test last ts).rest (Cursor.skipWhile test last' ts').rest := by
  induction h generalizing last last' with
  | nil => exact .nil
  | lineEnd t kind span late =>
    -- Only the wrapped side has a token to step over, and is at its end then.
    unfold Cursor.skipWhile
    split
    · exact .nil
    · exact .lineEnd t kind span late
  | @cons t t' ts ts' token same late rest ih =>
    unfold Cursor.skipWhile
    rw [← htest _ _ token.kind]
    split
    · exact ih _ _
    · exact .cons token same late rest

theorem skipGroups (h : S.Parallel ts ts') (depth : Nat) (last last' : Pos) :
    S.Parallel (Cursor.skipGroups last depth ts).rest
      (Cursor.skipGroups last' depth ts').rest := by
  induction h generalizing depth last last' with
  | nil =>
    unfold Cursor.skipGroups
    exact .nil
  | lineEnd t kind span late =>
    -- A line end neither opens nor closes a group, so it is stepped over.
    have hskip : Cursor.skipGroups last' depth [t] = ⟨t.span.stop, []⟩ := by
      simp only [Cursor.skipGroups, kind, TokenKind.isOpener, TokenKind.isCloser, Mark.isOpener,
        Mark.isCloser, Bool.false_eq_true, if_false]
    rw [hskip]
    unfold Cursor.skipGroups
    exact .nil
  | @cons t t' ts ts' token same late rest ih =>
    unfold Cursor.skipGroups
    rw [← token.kind.isOpener_eq, ← token.kind.isCloser_eq]
    split
    · exact ih _ _ _
    · split
      · cases depth with
        | zero => exact .cons token same late rest
        | succ depth => exact ih _ _ _
      · exact ih _ _ _

theorem length_le (h : S.Parallel ts ts') :
    ts.length ≤ ts'.length := by
  induction h with
  | nil => exact Nat.le_refl _
  | lineEnd => exact Nat.zero_le _
  | cons _ _ _ _ ih => exact Nat.succ_le_succ ih

end Parallel

namespace Aligned

theorem mono {m : Nat} (h : S.Aligned n s c c') (hle : n ≤ m) : S.Aligned m s c c' :=
  ⟨h.rest, h.within.mono hle⟩

theorem of_le {s₀ : Pos} (h : S.Aligned n s c c') (hle : s₀ ≤ s) : S.Aligned n s₀ c c' :=
  ⟨h.rest, h.within.of_le hle⟩

theorem advance (h : S.Aligned n s c c') : S.Aligned n s c.advance c'.advance := by
  refine ⟨?_, h.within.advance⟩
  rcases c with ⟨last, rest⟩
  rcases c' with ⟨last', rest'⟩
  rcases h with ⟨hrest, -⟩
  cases hrest with
  | nil => exact .nil
  | lineEnd => exact .nil
  | cons _ _ _ rest => exact rest

theorem skipNewlines (h : S.Aligned n s c c') : S.Aligned n s c.skipNewlines c'.skipNewlines :=
  ⟨h.rest.skipWhile (fun _ _ => Alike.isNewline_eq) _ _, h.within.skipWhile _⟩

/-- The line end behind the content, left over on the wrapped side, can be taken there alone. -/
theorem advance_lineEnd (h : S.Aligned n s c c') (hc : c.kind? = none) :
    S.Aligned n s c c'.advance ∧ c'.advance.rest = [] := by
  rcases c with ⟨last, rest⟩
  rcases c' with ⟨last', rest'⟩
  rcases h with ⟨hrest, hwithin⟩
  cases hrest with
  | nil => exact ⟨⟨.nil, hwithin⟩, rfl⟩
  | lineEnd => exact ⟨⟨.nil, hwithin⟩, rfl⟩
  | cons => cases hc

theorem recoverLine (h : S.Aligned n s c c') : S.Aligned n s c.recoverLine c'.recoverLine := by
  have hline : S.Aligned n s (Cursor.skipWhile (fun k => !k.isNewline) c.last c.rest)
      (Cursor.skipWhile (fun k => !k.isNewline) c'.last c'.rest) := by
    refine ⟨h.rest.skipWhile (fun _ _ hk => ?_) _ _, h.within.skipWhile _⟩
    rw [hk.isNewline_eq]
  exact hline.advance

theorem kind_none (h : S.Aligned n s c c') (hc : c.kind? = none) :
    c'.kind? = none ∨ c'.kind? = some (.mark .newline) := by
  rcases c with ⟨last, rest⟩
  rcases c' with ⟨last', rest'⟩
  rcases h with ⟨hrest, -⟩
  cases hrest with
  | nil => exact .inl rfl
  | lineEnd t kind => exact .inr (congrArg some kind)
  | cons => cases hc

theorem kind_some {k : TokenKind} (h : S.Aligned n s c c') (hc : c.kind? = some k) :
    ∃ k', c'.kind? = some k' ∧ Alike k k' := by
  rcases c with ⟨last, rest⟩
  rcases c' with ⟨last', rest'⟩
  rcases h with ⟨hrest, -⟩
  cases hrest with
  | nil => cases hc
  | lineEnd => cases hc
  | cons token =>
    cases hc
    exact ⟨_, rfl, token.kind⟩

/-- A mark that is no line end comes next on both sides or on none. -/
theorem mark_iff {m : Mark} (h : S.Aligned n s c c') (hm : m ≠ .newline) :
    c.kind? = some (.mark m) ↔ c'.kind? = some (.mark m) := by
  cases hc : c.kind? with
  | none =>
    rcases h.kind_none hc with hnone | hline
    · rw [hnone]
    · rw [hline, Option.some.injEq, TokenKind.mark.injEq]
      constructor
      · nofun
      · exact fun hm' => absurd hm'.symm hm
  | some k =>
    rcases h.kind_some hc with ⟨k', hk', hk⟩
    rw [hk', Option.some.injEq, Option.some.injEq]
    exact hk.mark_iff m

theorem skipToClose (own : Mark) (hown : own ≠ .newline) (h : S.Aligned n s c c') :
    S.Aligned n s (c.skipToClose own) (c'.skipToClose own) := by
  have hgroups : S.Aligned n s (Cursor.skipGroups c.last 0 c.rest)
      (Cursor.skipGroups c'.last 0 c'.rest) :=
    ⟨h.rest.skipGroups 0 _ _, h.within.skipGroups 0⟩
  unfold Cursor.skipToClose
  by_cases hclose : (Cursor.skipGroups c.last 0 c.rest).kind? = some (.mark own)
  · simp only [hclose, (hgroups.mark_iff hown).1 hclose, if_true]
    exact hgroups.advance
  · rw [if_neg hclose, if_neg fun hclose' => hclose ((hgroups.mark_iff hown).2 hclose')]
    exact hgroups

/-- Behind the line ends at the front one side is at its end only if both are. -/
theorem settled_skipNewlines (h : S.Aligned n s c c') : Settled c.skipNewlines c'.skipNewlines := by
  rcases c with ⟨last, rest⟩
  rcases c' with ⟨last', rest'⟩
  rcases h with ⟨hrest, -⟩
  unfold Cursor.skipNewlines Settled
  dsimp only at hrest ⊢
  induction hrest generalizing last last' with
  | nil => exact fun _ => rfl
  | lineEnd t kind =>
    simp [Cursor.skipWhile, kind, TokenKind.isNewline]
  | @cons t t' ts ts' token same late rest ih =>
    unfold Cursor.skipWhile
    rw [← token.kind.isNewline_eq]
    split
    · exact ih _ _
    · exact fun hend => absurd hend (List.cons_ne_nil t ts)

theorem ahead (h : S.Aligned n s c c') :
    S.wrapped.WrapsSpan (Parser.ahead S.plain c) (Parser.ahead S.container c') := by
  rcases c with ⟨last, rest⟩
  rcases c' with ⟨last', rest'⟩
  rcases h with ⟨hrest, -⟩
  cases hrest with
  | nil => exact S.ending
  | lineEnd t kind span => exact span
  | cons token => exact token.span

theorem name_eq (h : S.Aligned n s c c') :
    Parser.name S.plain c = Parser.name S.container c' := by
  rcases c with ⟨last, rest⟩
  rcases c' with ⟨last', rest'⟩
  rcases h with ⟨hrest, -⟩
  unfold Parser.name Parser.found
  cases hrest with
  | nil => rfl
  | lineEnd t kind span late => simp only [late, if_true]
  | cons token same late =>
    simp only [late, token.kind.describe_eq]

/-- Behind the next token, which both sides have. -/
theorem tail {t t' : Token} {ts ts' : List Token} {last last' : Pos}
    (h : S.Aligned (n + 1) s ⟨last, t :: ts⟩ ⟨last', t' :: ts'⟩) :
    S.Aligned n t.span.start ⟨t.span.stop, ts⟩ ⟨t'.span.stop, ts'⟩ ∧
      S.Near ⟨t.span.stop, ts⟩ ⟨t'.span.stop, ts'⟩ := by
  rcases h with ⟨hrest, hwithin⟩
  cases hrest with
  | cons token _ _ rest => exact ⟨⟨rest, hwithin.tail⟩, token.span.stop⟩

theorem next {t t' : Token} {ts ts' : List Token} {last last' : Pos}
    (h : S.Aligned n s ⟨last, t :: ts⟩ ⟨last', t' :: ts'⟩) :
    S.Aligned n s ⟨t.span.stop, ts⟩ ⟨t'.span.stop, ts'⟩ := h.advance

theorem head {t t' : Token} {ts ts' : List Token} {last last' : Pos}
    (h : S.Aligned n s ⟨last, t :: ts⟩ ⟨last', t' :: ts'⟩) :
    S.wrapped.WrapsToken t t' ∧ (S.exact → t.kind = t'.kind) := by
  rcases h with ⟨hrest, -⟩
  cases hrest with
  | cons token same => exact ⟨token, same⟩

theorem near_advance {m : Mark} (h : S.Aligned n s c c')
    (hc : c.kind? = some (.mark m)) : S.Near c.advance c'.advance := by
  rcases c with ⟨last, rest⟩
  rcases c' with ⟨last', rest'⟩
  rcases h with ⟨hrest, -⟩
  cases hrest with
  | nil => cases hc
  | lineEnd => cases hc
  | cons token => exact token.span.stop

/-- Behind a token there is one token less. -/
theorem advance_lt {k : TokenKind} (h : S.Aligned (n + 1) s c c')
    (hc : c.kind? = some k) : S.Aligned n s c.advance c'.advance := by
  have hadvance := h.advance
  refine ⟨hadvance.rest, hadvance.within.le_last, hadvance.within.order, ?_,
    hadvance.within.suffix⟩
  rcases c with ⟨last, rest⟩
  rcases Cursor.exists_cons_of_kind? hc with ⟨t, ts, rfl, -⟩
  exact Nat.le_of_succ_le_succ h.within.short

theorem exists_succ {k : TokenKind} (h : S.Aligned n s c c') (hc : c.kind? = some k) :
    ∃ m, n = m + 1 := by
  rcases c with ⟨last, rest⟩
  rcases Cursor.exists_cons_of_kind? hc with ⟨t, ts, rfl, -⟩
  exact h.within.exists_succ

/-- A span that ends at the place and starts at `s`. -/
theorem wrapsSpan {s' : Pos} (h : S.Aligned n s c c') (hs : S.wrapped.Wraps s s')
    (hnear : S.Near c c') : S.wrapped.WrapsSpan ⟨s, c.last⟩ ⟨s', c'.last⟩ :=
  ⟨hs, hnear, h.within.le_last⟩

end Aligned

end Sides

end Overlay.Hcl
