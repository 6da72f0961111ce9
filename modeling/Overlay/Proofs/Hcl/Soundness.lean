import Overlay.Proofs.Hcl.Alignment
import Overlay.Proofs.Hcl.Grammar
import Overlay.Proofs.Hcl.Parser

/-!
# What is read without faults

A reader that reports nothing took tokens that the grammar derives, and gives their tree.

* `Parsed.Takes` says this of one reading. It says nothing of a reading that reports, so every branch
  that reports is done with at once.
* Each form keeps it if its parts do. The parts are read at a smaller depth, so an induction over the
  depth closes the circle (`sound`).
* Bodies and containers are read item by item, and every item is a derivation of its own.
-/

namespace Overlay.Hcl

variable {α β : Type}

/-- If nothing is reported, the reading takes some tokens and leaves the others, and what it gives is
as `Q` says of both. -/
def Parsed.Leaves (x : Parsed α) (c : Cursor) (Q : List Token → List Token → α → Prop) : Prop :=
  x.faults = [] → ∃ ts, c.rest = ts ++ x.next.rest ∧ x.next.last = stopAfter c.last ts ∧
    Q ts x.next.rest x.value

/-- If nothing is reported, what the reading gives is as `Q` says of the tokens it takes. -/
abbrev Parsed.Takes (x : Parsed α) (c : Cursor) (Q : List Token → α → Prop) : Prop :=
  x.Leaves c fun ts _ a => Q ts a

namespace Parsed.Leaves

variable {x : Parsed α} {c : Cursor} {P Q : List Token → List Token → α → Prop} {last : Pos}
  {t : Token} {ts rest : List Token}

theorem done {a : α} (h : Q [] c.rest a) : (⟨a, c, []⟩ : Parsed α).Leaves c Q :=
  fun _ => ⟨[], rfl, rfl, h⟩

theorem imp (h : x.Leaves c P) (hPQ : ∀ ts rest a, P ts rest a → Q ts rest a) : x.Leaves c Q := by
  intro hclean
  rcases h hclean with ⟨ts, hrest, hlast, hts⟩
  exact ⟨ts, hrest, hlast, hPQ _ _ _ hts⟩

theorem reported (h : x.faults ≠ []) : x.Leaves c Q := fun hclean => absurd hclean h

/-- What is read behind some tokens is read with them. -/
theorem behind (h : x.Leaves ⟨stopAfter last ts, rest⟩ fun us rest a => Q (ts ++ us) rest a) :
    x.Leaves ⟨last, ts ++ rest⟩ Q := by
  intro hclean
  rcases h hclean with ⟨us, hrest, hlast, hus⟩
  refine ⟨ts ++ us, ?_, ?_, hus⟩
  · show ts ++ rest = ts ++ us ++ x.next.rest
    rw [List.append_assoc, ← hrest]
  · rw [hlast, stopAfter_append]

theorem cons (h : x.Leaves ⟨t.span.stop, rest⟩ fun us rest a => Q (t :: us) rest a) :
    x.Leaves ⟨last, t :: rest⟩ Q :=
  show x.Leaves ⟨last, [t] ++ rest⟩ Q from behind h

end Parsed.Leaves

/-- The line ends at a place, and the place behind them. -/
theorem Cursor.skipNewlines_eq (c : Cursor) :
    ∃ as rest, c.rest = as ++ rest ∧ LineEnds as ∧ c.skipNewlines = ⟨stopAfter c.last as, rest⟩ := by
  rcases c with ⟨last, tokens⟩
  unfold Cursor.skipNewlines
  induction tokens generalizing last with
  | nil => exact ⟨[], [], rfl, by simp [LineEnds], rfl⟩
  | cons t ts ih =>
    by_cases ht : t.kind.isNewline = true
    · rcases ih t.span.stop with ⟨as, rest, hts, has, hskip⟩
      refine ⟨t :: as, rest, congrArg (t :: ·) hts, ?_, ?_⟩
      · have hkind : t.kind = .mark .newline := beq_iff_eq.1 ht
        exact List.forall_mem_cons.2 ⟨hkind, has⟩
      · rw [Cursor.skipWhile, if_pos ht]
        exact hskip
    · exact ⟨[], t :: ts, rfl, by simp [LineEnds], by simp [Cursor.skipWhile, ht]⟩

namespace Parser

variable {F : Frame} {c : Cursor} {last : Pos} {t : Token} {ts rest : List Token}
  {P : List Token → List Token → α → Prop} {Q : List Token → List Token → β → Prop}

/-! ## Steps -/

theorem takes_bind {p : Parser α} {f : α → Parser β} (hp : (p F c).Leaves c P)
    (hf : ∀ ts a rest, c.rest = ts ++ rest → P ts rest a →
      (f a F ⟨stopAfter c.last ts, rest⟩).Leaves ⟨stopAfter c.last ts, rest⟩
        fun us rest b => Q (ts ++ us) rest b) :
    ((p >>= f) F c).Leaves c Q := by
  intro hclean
  rw [bind_run] at hclean ⊢
  rcases List.append_eq_nil_iff.1 hclean with ⟨hpclean, hfclean⟩
  rcases hp hpclean with ⟨ts, hrest, hlast, hts⟩
  have hnext : (p F c).next = ⟨stopAfter c.last ts, (p F c).next.rest⟩ := by rw [← hlast]
  have hbehind := (hf ts _ _ hrest hts).behind
  rw [← hnext, ← hrest] at hbehind
  exact hbehind hfclean

theorem takes_advance {f : Unit → Parser β}
    (hf : (f () F ⟨t.span.stop, rest⟩).Leaves ⟨t.span.stop, rest⟩
      fun us rest b => Q (t :: us) rest b) :
    ((advance >>= f) F ⟨last, t :: rest⟩).Leaves ⟨last, t :: rest⟩ Q :=
  hf.cons

theorem takes_newlines {f : Unit → Parser β}
    (hf : ∀ as rest, LineEnds as → (f () F ⟨stopAfter c.last as, rest⟩).Leaves
      ⟨stopAfter c.last as, rest⟩ fun us rest b => Q (as ++ us) rest b) :
    ((newlines >>= f) F c).Leaves c Q := by
  rcases c with ⟨last, tokens⟩
  rcases Cursor.skipNewlines_eq ⟨last, tokens⟩ with ⟨as, rest, htokens, has, hskip⟩
  rw [newlines_bind, hskip, show tokens = as ++ rest from htokens]
  exact (hf as rest has).behind

theorem takes_report {fault : SyntaxFault} {f : Unit → Parser β} :
    ((report fault >>= f) F c).Leaves c Q :=
  .reported (List.cons_ne_nil _ _)

theorem takes_reportAt {span : Span} {fault : SyntaxFault} {f : Unit → Parser β} :
    ((reportAt span fault >>= f) F c).Leaves c Q :=
  .reported (List.cons_ne_nil _ _)

/-- A mark that comes next is taken; there may be another way on without it. -/
theorem takes_mark {m : Mark} {f : Bool → Parser β}
    (htrue : ∀ t rest, c.rest = t :: rest → t.kind = .mark m →
      (f true F ⟨t.span.stop, rest⟩).Leaves ⟨t.span.stop, rest⟩
        fun us rest b => Q (t :: us) rest b)
    (hfalse : c.kind? ≠ some (.mark m) → (f false F c).Leaves c Q) :
    ((mark m >>= f) F c).Leaves c Q := by
  rw [mark_bind]
  by_cases hc : c.kind? = some (.mark m)
  · rw [if_pos hc]
    rcases c with ⟨last, tokens⟩
    rcases Cursor.exists_cons_of_kind? hc with ⟨t, rest, rfl, ht⟩
    exact (htrue t rest rfl ht).cons
  · rw [if_neg hc]
    exact hfalse hc

theorem invalidExpression_takes {Q : List Token → List Token → Expr → Prop} :
    (invalidExpression F c).Leaves c Q := by
  unfold invalidExpression
  rw [lookahead_bind, found_bind]
  exact takes_reportAt

theorem exhausted_takes {a : α} : (exhausted a F c).Leaves c P := by
  unfold exhausted
  rw [found_bind]
  exact takes_report

/-- A construct is unclosed, or its closer was taken. -/
theorem close_takes {own : Mark} {fault : SyntaxFault} :
    (close own fault F c).Takes c fun ts closing =>
      closing ≠ .unclosed → ∃ t, ts = [t] ∧ t.kind = .mark own := by
  rcases c with ⟨last, tokens⟩
  unfold close
  rw [peekKind_bind]
  cases tokens with
  | nil => exact .done fun hclosed => absurd rfl hclosed
  | cons t rest =>
    simp only [Cursor.kind?, List.head?_cons, Option.map_some]
    by_cases hown : t.kind = .mark own
    · simp only [hown, if_true]
      exact takes_advance (.done fun _ => ⟨t, rfl, hown⟩)
    · simp only [hown, if_false]
      split
      · exact .done fun hclosed => absurd rfl hclosed
      · exact takes_report

/-- What a reading up to the mark `own` gives: unless it is unclosed, the tokens end with the mark and
those in front of it are as `Q` says. -/
def Enclosed (own : Mark) (Q : List Token → α → Prop) (ts : List Token) (x : α × Closing) : Prop :=
  x.2 ≠ .unclosed → ∃ us t, ts = us ++ [t] ∧ Q us x.1 ∧ t.kind = .mark own

theorem Enclosed.behind {own : Mark} {P : List Token → α → Prop} {Q : List Token → β → Prop} {a : α}
    {b : β} {closing : Closing} (h : Enclosed own P rest (a, closing))
    (hPQ : ∀ us, P us a → Q (ts ++ us) b) : Enclosed own Q (ts ++ rest) (b, closing) := by
  intro hclosed
  rcases h hclosed with ⟨us, t, rfl, hus, ht⟩
  exact ⟨ts ++ us, t, (List.append_assoc ts us [t]).symm, hPQ us hus, ht⟩

/-- The closer behind what is already read. -/
theorem enclosed_takes {own : Mark} {Q : List Token → α → Prop} {a : α} (fault : SyntaxFault)
    (ha : Q ts a) :
    ((do return (a, ← close own fault) : Parser (α × Closing)) F c).Takes c
      fun us x => Enclosed own Q (ts ++ us) x := by
  refine takes_bind close_takes fun us closing rest _ hclosing => .done fun hclosed => ?_
  rcases hclosing hclosed with ⟨t, rfl, ht⟩
  exact ⟨ts, t, by simp, ha, ht⟩

/-! ## Forms -/

/-- A construct that is not unclosed is what `Q` says of its tokens and its span. -/
theorem takes_unclosed {closing : Closing} {opener : Span} {start : Pos} {fault : SyntaxFault}
    {mk : Span → Expr} {Q : List Token → Expr → Prop}
    (h : closing ≠ .unclosed → Q [] (mk ⟨start, c.last⟩)) :
    ((do
      if closing = .unclosed then reportAt opener fault
      return mk (← spanFrom start) : Parser Expr) F c).Takes c Q := by
  by_cases hclosing : closing = .unclosed
  · simp only [hclosing, if_true]
    exact takes_reportAt
  · simp only [hclosing, if_false]
    exact .done (h hclosing)

theorem delimited_takes {items : Parser (List Expr)} {own : Mark} {fault : SyntaxFault}
    (hitems : ∀ c, (items F c).Takes c IsItems) :
    (delimited items own fault F c).Takes c (Enclosed own IsList) := by
  unfold delimited
  refine takes_newlines fun as rest has => ?_
  refine takes_bind (hitems _) fun ts es rest _ hes => ?_
  refine takes_newlines fun bs rest hbs => ?_
  refine (enclosed_takes fault (IsList.mk has hes hbs)).imp fun us _ x hx => ?_
  simpa using hx

theorem tuple_takes {items : Parser (List Expr)} (hitems : ∀ c, (items F c).Takes c IsItems)
    (ht : t.kind = .mark .openBracket) :
    (tuple items t.span F ⟨last, t :: rest⟩).Takes ⟨last, t :: rest⟩ IsExpr := by
  unfold tuple
  refine takes_advance (takes_bind (delimited_takes hitems) fun ts x rest _ hx => ?_)
  refine takes_unclosed fun hclosing => ?_
  rcases hx hclosing with ⟨us, c, rfl, hes, hc⟩
  have hexpr := IsExpr.tuple ht hes hc
  simpa using hexpr

theorem call_takes {items : Parser (List Expr)} (hitems : ∀ c, (items F c).Takes c IsItems)
    {name : String} {o : Token} (ht : t.kind = .ident name) (hname : NotLiteral name)
    (ho : o.kind = .mark .openParen) :
    (call items name t.span.start F ⟨last, t :: o :: rest⟩).Takes ⟨last, t :: o :: rest⟩
      IsExpr := by
  unfold call
  refine takes_advance ?_
  rw [lookahead_bind]
  refine takes_advance (takes_bind (delimited_takes hitems) fun ts x rest _ hx => ?_)
  refine takes_unclosed fun hclosing => ?_
  rcases hx hclosing with ⟨us, c, rfl, hes, hc⟩
  have hexpr := IsExpr.call ht hname ho hes hc
  simpa using hexpr

theorem object_takes {entries : Parser (List Entry × Closing)}
    (hentries : ∀ c, (entries F c).Takes c (Enclosed .closeBrace IsEntries))
    (ht : t.kind = .mark .openBrace) :
    (object entries t.span F ⟨last, t :: rest⟩).Takes ⟨last, t :: rest⟩ IsExpr := by
  unfold object
  refine takes_advance (takes_bind (hentries _) fun ts x rest _ hx => ?_)
  refine takes_unclosed fun hclosing => ?_
  rcases hx hclosing with ⟨us, c, rfl, hes, hc⟩
  have hexpr := IsExpr.object ht hes hc
  simpa using hexpr

theorem closeParens_takes :
    (closeParens F c).Takes c fun ts _ => ∃ t, ts = [t] ∧ t.kind = .mark .closeParen := by
  unfold closeParens
  refine takes_mark (fun t rest _ ht => .done ⟨t, rfl, ht⟩) fun _ => ?_
  exact takes_report

theorem parens_takes {inner : Parser Expr} (hinner : ∀ c, (inner F c).Takes c IsExpr)
    (ht : t.kind = .mark .openParen) :
    (parens inner t.span.start F ⟨last, t :: rest⟩).Takes ⟨last, t :: rest⟩ IsExpr := by
  unfold parens
  refine takes_advance (takes_newlines fun as rest has => ?_)
  refine takes_bind (hinner _) fun ts e rest _ he => ?_
  refine takes_newlines fun bs rest hbs => ?_
  refine takes_bind closeParens_takes fun closer _ rest _ hcloser => ?_
  rcases hcloser with ⟨c, rfl, hc⟩
  rw [spanFrom_bind]
  refine .done ?_
  have hexpr := IsExpr.parens ht has he hbs hc
  simpa using hexpr

theorem negate_takes {operand : Parser Expr} (hoperand : ∀ c, (operand F c).Takes c IsExpr)
    (ht : t.kind = .mark .minus) :
    ((do
      advance
      let operand ← operand
      return .negate operand (← spanFrom t.span.start) : Parser Expr) F ⟨last, t :: rest⟩).Takes
        ⟨last, t :: rest⟩ IsExpr := by
  refine takes_advance (takes_bind (hoperand _) fun ts e rest _ he => ?_)
  rw [spanFrom_bind]
  refine .done ?_
  have hexpr := IsExpr.negate ht he
  simpa using hexpr

theorem traversal_takes {more : Parser (List Step)} (hmore : ∀ c, (more F c).Takes c IsSteps)
    {name : String} (ht : t.kind = .ident name) :
    (traversal more name t.span F ⟨last, t :: rest⟩).Takes ⟨last, t :: rest⟩ fun ts path =>
      path.root = name ∧ IsPath ts path := by
  unfold traversal
  refine takes_advance (takes_bind (hmore _) fun ts steps rest _ hsteps => ?_)
  refine takes_mark (fun _ _ _ _ => takes_report) fun _ => ?_
  refine .done ⟨rfl, ?_⟩
  have hpath := IsPath.mk ht hsteps
  simpa [spanFrom] using hpath

theorem indexStep_takes {key : Parser Expr} (hkey : ∀ c, (key F c).Takes c IsExpr)
    (ht : t.kind = .mark .openBracket) :
    (indexStep key t.span.start F ⟨last, t :: rest⟩).Takes ⟨last, t :: rest⟩ IsStep := by
  unfold indexStep
  refine takes_advance (takes_newlines fun as rest has => ?_)
  refine takes_bind (hkey _) fun ts e rest _ he => ?_
  refine takes_newlines fun bs rest hbs => ?_
  refine takes_mark (fun c rest _ hc => ?_) fun _ => takes_report
  refine .done ?_
  have hstep := IsStep.index ht has he hbs hc
  simpa [spanFrom] using hstep

/-- A dot and what is behind it make a step, if that is a name or a number. -/
theorem dotStep?_takes (ht : t.kind = .mark .dot) :
    (dotStep? t.span.start F ⟨last, t :: rest⟩).Takes ⟨last, t :: rest⟩ fun ts step =>
      (step = none ∧ ts = []) ∨ ∃ s, step = some s ∧ IsStep ts s := by
  unfold dotStep?
  rw [peekSecond_bind]
  have hnone : ((pure none : Parser (Option Step)) F ⟨last, t :: rest⟩).Takes ⟨last, t :: rest⟩
      fun ts step => (step = none ∧ ts = []) ∨ ∃ s, step = some s ∧ IsStep ts s :=
    .done (.inl ⟨rfl, rfl⟩)
  rcases rest with - | ⟨⟨kind, span⟩, rest⟩
  · exact hnone
  · cases kind with
    | ident name => exact takes_advance (takes_advance (.done (.inr ⟨_, rfl, .attr ht rfl⟩)))
    | number text => exact takes_advance (.cons (.done (.inr ⟨_, rfl, .number ht rfl⟩)))
    | _ => exact hnone

/-- A key that starts with a name is a path. -/
theorem keyOf_ident {inner : Parser Expr} {more : Parser (List Step)} {name : String}
    (ht : t.kind = .ident name) :
    keyOf inner more F ⟨last, t :: rest⟩ =
      (do return .path (← traversal more name t.span) : Parser Key) F ⟨last, t :: rest⟩ := by
  rcases t with ⟨kind, span⟩
  cases ht
  rfl

/-- Any other key is an expression. -/
theorem keyOf_other {inner : Parser Expr} {more : Parser (List Step)}
    (ht : startsKeyExpr t.kind = true) :
    keyOf inner more F ⟨last, t :: rest⟩ =
      (do return .expr (← inner) : Parser Key) F ⟨last, t :: rest⟩ := by
  rcases t with ⟨kind, span⟩
  cases kind with
  | ident name => cases ht
  | _ => rfl

theorem keyOf_takes {inner : Parser Expr} {more : Parser (List Step)}
    (hinner : ∀ c, (inner F c).Takes c IsExpr) (hmore : ∀ c, (more F c).Takes c IsSteps)
    (hstart : startsKey t.kind = true) :
    (keyOf inner more F ⟨last, t :: rest⟩).Takes ⟨last, t :: rest⟩ IsKey := by
  rcases startsKey_iff.1 hstart with ⟨name, hname⟩ | hexpr
  · rw [keyOf_ident hname]
    refine takes_bind (traversal_takes hmore hname) fun ts path rest _ hpath => .done ?_
    rw [List.append_nil]
    exact .path hpath.2
  · rw [keyOf_other hexpr]
    refine takes_bind (hinner _) fun ts e rest' hts he => .done ?_
    -- The token that decided on the reader is the first one of the expression.
    rcases he.exists_cons with ⟨u, us, rfl, -⟩
    have hu : t = u := (List.cons.inj hts).1
    subst hu
    rw [List.append_nil]
    exact .expr hexpr he

/-! ## Expressions -/

/-- At this depth the readers of the parts of expressions take what the grammar derives. -/
structure Sound (F : Frame) (depth : Nat) : Prop where
  value : ∀ c, (value depth F c).Takes c IsExpr
  steps : ∀ c, (steps depth F c).Takes c IsSteps
  elements : ∀ c, (elements depth F c).Takes c IsItems
  entries : ∀ c, (objectEntries depth F c).Takes c (Enclosed .closeBrace IsEntries)

variable {depth : Nat}

/-- The names of the literals, and all other names. -/
theorem literalName?_cases {name : String} (ht : t.kind = .ident name) :
    (∃ e, literalName? name t.span = some e ∧ IsExpr [t] e) ∨
      (literalName? name t.span = none ∧ NotLiteral name) := by
  unfold literalName?
  by_cases htrue : name = "true"
  · subst htrue
    exact .inl ⟨_, rfl, .trueLit ht⟩
  · by_cases hfalse : name = "false"
    · subst hfalse
      exact .inl ⟨_, rfl, .falseLit ht⟩
    · by_cases hnull : name = "null"
      · subst hnull
        exact .inl ⟨_, rfl, .nullLit ht⟩
      · right
        simp only [htrue, hfalse, hnull, if_false]
        exact ⟨trivial, htrue, hfalse, hnull⟩

theorem named_takes (h : Sound F depth) {name : String} {span : Span} :
    (value (depth + 1) F ⟨last, ⟨.ident name, span⟩ :: rest⟩).Takes
      ⟨last, ⟨.ident name, span⟩ :: rest⟩ IsExpr := by
  unfold value
  rw [peek_bind]
  simp only [List.head?_cons]
  rcases literalName?_cases (t := ⟨.ident name, span⟩) rfl with ⟨e, hname, he⟩ | ⟨hname, hnot⟩
  · simp only [hname]
    exact takes_advance (.done he)
  · simp only [hname]
    rw [peekSecond_bind]
    split
    case isTrue hcall =>
      rcases Cursor.exists_cons_of_kind? hcall with ⟨o, rest, rfl, ho⟩
      exact call_takes h.elements rfl hnot ho
    case isFalse =>
      refine takes_bind (traversal_takes h.steps rfl) fun ts path rest _ hpath => .done ?_
      rw [List.append_nil]
      exact .traversal hpath.2 (hpath.1 ▸ hnot)

theorem value_takes (h : Sound F depth) (c : Cursor) : (value (depth + 1) F c).Takes c IsExpr := by
  rcases c with ⟨last, tokens⟩
  rcases tokens with - | ⟨⟨kind, span⟩, rest⟩
  · unfold value
    rw [peek_bind]
    exact invalidExpression_takes
  · cases kind with
    | ident name => exact named_takes h
    | number text =>
      have he : IsExpr [⟨.number text, span⟩] (.number text span) := .number rfl
      unfold value
      exact .cons (.done he)
    | str text =>
      have he : IsExpr [⟨.str text, span⟩] (.string text span) := .string rfl
      unfold value
      exact .cons (.done he)
    | heredoc text =>
      have he : IsExpr [⟨.heredoc text, span⟩] (.string text span) := .heredoc rfl
      unfold value
      exact .cons (.done he)
    | stray c =>
      unfold value
      rw [peek_bind]
      exact invalidExpression_takes
    | mark m =>
      unfold value
      rw [peek_bind]
      cases m with
      | minus => exact negate_takes h.value rfl
      | openBracket => exact tuple_takes h.elements rfl
      | openBrace => exact object_takes h.entries rfl
      | openParen => exact parens_takes h.value rfl
      | _ => exact invalidExpression_takes

/-- A step, and the steps behind it. -/
theorem moreSteps_takes (h : Sound F depth) {step : Step} (hts : IsStep ts step) :
    ((do return step :: (← steps depth) : Parser (List Step)) F c).Takes c fun us more =>
      IsSteps (ts ++ us) more := by
  refine takes_bind (h.steps c) fun us more rest _ hmore => .done ?_
  rw [List.append_nil]
  exact .cons hts hmore

theorem steps_takes (h : Sound F depth) (c : Cursor) :
    (steps (depth + 1) F c).Takes c IsSteps := by
  rcases c with ⟨last, tokens⟩
  unfold steps
  rw [peek_bind]
  rcases tokens with - | ⟨⟨kind, span⟩, rest⟩
  · exact .done .none
  · cases kind with
    | mark m =>
      cases m with
      | dot =>
        refine takes_bind (dotStep?_takes (t := ⟨.mark .dot, span⟩) rfl) fun ts step rest _ hs => ?_
        rcases hs with ⟨rfl, rfl⟩ | ⟨step, rfl, hstep⟩
        · exact .done .none
        · exact moreSteps_takes h hstep
      | openBracket =>
        refine takes_bind (indexStep_takes (t := ⟨.mark .openBracket, span⟩) h.value rfl)
          fun ts step rest _ hstep => ?_
        exact moreSteps_takes h hstep
      | _ => exact .done .none
    | _ => exact .done .none

/-- A comma is taken with the line ends around it, or nothing is. -/
theorem comma_takes : (comma F c).Takes c fun ts found =>
    (found = false ∧ ts = []) ∨ (found = true ∧
      ∃ as t bs, ts = as ++ t :: bs ∧ LineEnds as ∧ t.kind = .mark .comma ∧ LineEnds bs) := by
  rcases c with ⟨last, tokens⟩
  rcases Cursor.skipNewlines_eq ⟨last, tokens⟩ with ⟨as, rest, htokens, has, hskip⟩
  have hrun : comma F ⟨last, tokens⟩ =
      if (⟨stopAfter last as, rest⟩ : Cursor).kind? = some (.mark .comma) then
        ⟨true, (⟨stopAfter last as, rest⟩ : Cursor).advance.skipNewlines, []⟩
      else ⟨false, ⟨last, tokens⟩, []⟩ := by
    rw [← hskip]
    rfl
  rw [hrun]
  split
  case isTrue hcomma =>
    -- Line ends are skipped on both sides of the comma, so all of it is taken at once.
    rcases Cursor.exists_cons_of_kind? hcomma with ⟨t, behind, rfl, ht⟩
    rcases Cursor.skipNewlines_eq ⟨t.span.stop, behind⟩ with ⟨bs, rest, hbehind, hbs, hskip⟩
    intro _
    refine ⟨as ++ t :: bs, ?_, ?_, .inr ⟨rfl, as, t, bs, rfl, has, ht, hbs⟩⟩
    · show tokens = as ++ t :: bs ++ (Cursor.skipNewlines ⟨t.span.stop, behind⟩).rest
      rw [hskip, show tokens = as ++ t :: behind from htokens, show behind = bs ++ rest from hbehind]
      simp
    · show (Cursor.skipNewlines ⟨t.span.stop, behind⟩).last = stopAfter last (as ++ t :: bs)
      rw [hskip]
      simp
  case isFalse => exact .done (.inl ⟨rfl, rfl⟩)

theorem elements_takes (h : Sound F depth) (c : Cursor) :
    (elements (depth + 1) F c).Takes c IsItems := by
  rcases c with ⟨last, tokens⟩
  unfold elements
  rw [peekKind_bind]
  rcases tokens with - | ⟨t, rest⟩
  · exact .done .none
  · simp only [Cursor.kind?, List.head?_cons, Option.map_some]
    split
    · exact .done .none
    · refine takes_bind (h.value _) fun ts e rest _ he => ?_
      refine takes_bind comma_takes fun cs found rest _ hfound => ?_
      rcases hfound with ⟨rfl, rfl⟩ | ⟨rfl, as, t, bs, rfl, has, ht, hbs⟩
      · refine .done ?_
        simpa using IsItems.last he
      · refine takes_bind (h.elements _) fun us es rest _ hes => .done ?_
        simpa using IsItems.cons he has ht hbs hes

theorem behindValue_takes (h : Sound F depth) {entry : Entry} {as : List Token} (has : LineEnds as)
    (hts : IsEntry ts entry) :
    (behindValue depth entry F c).Takes c
      fun us x => Enclosed .closeBrace IsEntries (as ++ ts ++ us) x := by
  have hlast : (do return ([entry], ← close .closeBrace .missingAttributeSeparator) :
      Parser (List Entry × Closing)) F c |>.Takes c
        fun us x => Enclosed .closeBrace IsEntries (as ++ ts ++ us) x :=
    enclosed_takes _ (.last has hts)
  have hmore : ∀ t rest, c.rest = t :: rest → t.kind = .mark .comma ∨ t.kind = .mark .newline →
      (entryBefore depth entry F c).Takes c
        fun us x => Enclosed .closeBrace IsEntries (as ++ ts ++ us) x := by
    intro t rest hc ht
    rcases c with ⟨last, tokens⟩
    cases hc
    refine takes_advance (takes_bind (h.entries _) fun us x rest _ hx => .done ?_)
    -- The separator joins the entry read so far to the entries that follow.
    have hbehind : Enclosed .closeBrace IsEntries (as ++ ts ++ [t] ++ us) (entry :: x.1, x.2) :=
      hx.behind fun vs hvs => by simpa using IsEntries.cons has hts ht hvs
    simpa using hbehind
  unfold behindValue
  rw [peekKind_bind]
  rcases c with ⟨last, tokens⟩
  rcases tokens with - | ⟨⟨kind, span⟩, rest⟩
  · exact hlast
  · cases kind with
    | mark m =>
      cases m with
      | comma => exact hmore _ rest rfl (.inl rfl)
      | newline => exact hmore _ rest rfl (.inr rfl)
      | _ => exact hlast
    | _ => exact hlast

theorem behindKey_takes (h : Sound F depth) {key : Key} {as : List Token} (has : LineEnds as)
    (hts : IsKey ts key) :
    (behindKey depth key F c).Takes c
      fun us x => Enclosed .closeBrace IsEntries (as ++ ts ++ us) x := by
  have hvalue : ∀ t rest, c.rest = t :: rest → t.kind = .mark .equals ∨ t.kind = .mark .colon →
      (entryValue depth key F c).Takes c
        fun us x => Enclosed .closeBrace IsEntries (as ++ ts ++ us) x := by
    intro t rest hc ht
    rcases c with ⟨last, tokens⟩
    cases hc
    refine takes_advance (takes_bind (h.value _) fun us e rest _ he => ?_)
    refine (behindValue_takes h has (.mk hts ht he)).imp fun ws _ x hx => ?_
    simpa using hx
  unfold behindKey
  rw [peekKind_bind]
  rcases c with ⟨last, tokens⟩
  rcases tokens with - | ⟨⟨kind, span⟩, rest⟩
  · exact takes_report
  · cases kind with
    | mark m =>
      cases m with
      | equals => exact hvalue _ rest rfl (.inl rfl)
      | colon => exact hvalue _ rest rfl (.inr rfl)
      | _ => exact takes_report
    | _ => exact takes_report

theorem objectEntries_takes (h : Sound F depth) (c : Cursor) :
    (objectEntries (depth + 1) F c).Takes c (Enclosed .closeBrace IsEntries) := by
  rw [objectEntries_succ]
  refine takes_newlines fun as rest has => ?_
  rw [peekKind_bind]
  rcases rest with - | ⟨t, rest⟩
  · exact .done fun hclosed => absurd rfl hclosed
  · simp only [Cursor.kind?, List.head?_cons, Option.map_some]
    split
    case isTrue hstart =>
      refine takes_bind (keyOf_takes h.value h.steps hstart) fun ts key rest _ hkey => ?_
      refine (behindKey_takes h has hkey).imp fun us _ x hx => ?_
      simpa using hx
    case isFalse => exact enclosed_takes _ (.none has)

/-- At every depth the readers take what the grammar derives. -/
theorem sound (F : Frame) (depth : Nat) : Sound F depth := by
  induction depth with
  | zero =>
    -- Without depth every reader reports, so there is nothing to show.
    constructor
    · intro c
      unfold value
      rw [lookahead_bind]
      exact exhausted_takes
    · intro c
      unfold steps
      exact exhausted_takes
    · intro c
      unfold elements
      exact exhausted_takes
    · intro c
      unfold objectEntries
      exact exhausted_takes
  | succ depth ih =>
    exact ⟨value_takes ih, steps_takes ih, elements_takes ih, objectEntries_takes ih⟩

theorem expression_takes (c : Cursor) : (expression F c).Takes c IsExpr :=
  (sound F (2 * c.rest.length + 2)).value c

theorem entryKey_takes (ht : startsKey t.kind = true) :
    (entryKey F ⟨last, t :: rest⟩).Takes ⟨last, t :: rest⟩ IsKey :=
  have h := sound F (2 * (t :: rest).length + 2)
  keyOf_takes h.value h.steps ht

/-! ## Bodies -/

theorem labelsFrom_takes (last : Pos) (tokens : List Token) :
    (labelsFrom last tokens).Takes ⟨last, tokens⟩ IsLabels := by
  induction tokens generalizing last with
  | nil => exact .done .none
  | cons t ts ih =>
    have hlabel : ∀ text, t.kind = .str text ∨ t.kind = .ident text →
        (⟨⟨text, t.span⟩ :: (labelsFrom t.span.stop ts).value, (labelsFrom t.span.stop ts).next,
          []⟩ : Parsed (List Label)).Takes ⟨last, t :: ts⟩ IsLabels := by
      intro text ht _
      -- Reading labels never reports, so the labels behind this one are clean as well.
      have hclean : (labelsFrom t.span.stop ts).faults = [] := by
        cases ts with
        | nil => rfl
        | cons u us =>
          rw [labelsFrom]
          split <;> rfl
      rcases ih t.span.stop hclean with ⟨us, hrest, hlast, hus⟩
      exact ⟨t :: us, congrArg (t :: ·) hrest, hlast, .cons ht hus⟩
    rcases t with ⟨kind, span⟩
    cases kind with
    | str text => exact hlabel text (.inl rfl)
    | ident text => exact hlabel text (.inr rfl)
    | _ => exact .done .none

/-- Whether the tokens end here, or a block or an object does. -/
def AtEnd (rest : List Token) : Prop :=
  rest = [] ∨ ∃ t us, rest = t :: us ∧ t.kind = .mark .closeBrace

/-- What may stand between an item and the next: the end of its line, or nothing at an end. -/
def Ends (ts rest : List Token) : Prop :=
  (∃ t, ts = [t] ∧ t.kind = .mark .newline) ∨ (ts = [] ∧ AtEnd rest)

theorem endOfItem_leaves :
    (endOfItem F c).Leaves c fun ts rest _ => Ends ts rest := by
  rcases c with ⟨last, tokens⟩
  unfold endOfItem
  rw [peekKind_bind]
  rcases tokens with - | ⟨⟨kind, span⟩, rest⟩
  · exact .done (.inr ⟨rfl, .inl rfl⟩)
  · cases kind with
    | mark m =>
      cases m with
      | closeBrace => exact .done (.inr ⟨rfl, .inr ⟨_, _, rfl, rfl⟩⟩)
      | newline => exact .cons (.done (.inl ⟨_, rfl, rfl⟩))
      | _ => exact takes_report
    | _ => exact takes_report

/-- An attribute or a block that has ended. -/
def Ended {γ : Type} (P : List Token → γ → Prop) (ts rest : List Token) (a : γ) : Prop :=
  ∃ us es, ts = us ++ es ∧ P us a ∧ Ends es rest

theorem attributeBody_leaves {name : String} {q : Token} (ht : t.kind = .ident name)
    (hq : q.kind = .mark .equals) :
    (attributeBody name t.span F ⟨last, q :: rest⟩).Leaves ⟨last, q :: rest⟩ fun ts rest item =>
      Ended IsItem (t :: ts) rest item := by
  unfold attributeBody
  refine takes_advance (takes_bind (expression_takes _) fun ts e rest _ he => ?_)
  refine takes_bind endOfItem_leaves fun es _ rest _ hes => .done ?_
  exact ⟨t :: q :: ts, es, by simp, .attr ht hq he, hes⟩

theorem blockBody_leaves {items : Parser (List Item)} (hitems : ∀ c, (items F c).Takes c IsBody)
    {name : String} {o : Token} {ls : List Token} {labels : List Label} (ht : t.kind = .ident name)
    (hlabels : IsLabels ls labels) (ho : o.kind = .mark .openBrace) :
    (blockBody items ⟨name, t.span, labels⟩ F ⟨last, o :: rest⟩).Leaves ⟨last, o :: rest⟩
      fun ts rest item => Ended IsItem (t :: ls ++ ts) rest item := by
  unfold blockBody
  rw [lookahead_bind]
  refine takes_advance (takes_bind (hitems _) fun ts items rest _ hbody => ?_)
  refine takes_newlines fun as rest has => ?_
  refine takes_mark (fun c rest _ hc => ?_) fun _ => ?_
  · rw [spanFrom_bind, spanFrom_bind]
    refine takes_bind endOfItem_leaves fun es _ rest _ hes => .done ?_
    refine ⟨t :: ls ++ o :: (ts ++ as) ++ [c], es, by simp, ?_, hes⟩
    have hitem := IsItem.block ht hlabels ho (hbody.append_lineEnds has) hc
    simpa [ahead] using hitem
  · rw [spanFrom_bind, spanFrom_bind]
    exact takes_reportAt

theorem skipItem_leaves {fault : SyntaxFault} {Q : List Token → List Token → Option Item → Prop} :
    (skipItem fault F c).Leaves c Q := by
  unfold skipItem
  exact takes_report

theorem itemOf_leaves {items : Parser (List Item)} (hitems : ∀ c, (items F c).Takes c IsBody) :
    (itemOf items F c).Leaves c fun ts rest item =>
      ∃ i, item = some i ∧ Ended IsItem ts rest i := by
  unfold itemOf
  rw [peek_bind]
  rcases c with ⟨last, tokens⟩
  rcases tokens with - | ⟨⟨kind, span⟩, rest⟩
  · exact skipItem_leaves
  · cases kind with
    | ident name =>
      refine takes_advance ?_
      -- An equals sign behind the name makes an attribute, labels and a brace make a block.
      rw [atMark_bind]
      split
      case isTrue hequals =>
        rcases Cursor.exists_cons_of_kind? (beq_iff_eq.1 hequals) with ⟨q, rest, rfl, hq⟩
        refine takes_bind (attributeBody_leaves (t := ⟨.ident name, span⟩) rfl hq)
          fun ts item rest _ hitem => .done ⟨item, rfl, ?_⟩
        rw [List.append_nil]
        exact hitem
      case isFalse =>
        refine takes_bind (labelsFrom_takes _ _) fun ls labels rest _ hlabels => ?_
        rw [atMark_bind]
        split
        case isTrue hbrace =>
          rcases Cursor.exists_cons_of_kind? (beq_iff_eq.1 hbrace) with ⟨o, rest, rfl, ho⟩
          refine takes_bind
            (blockBody_leaves hitems (t := ⟨.ident name, span⟩) rfl hlabels ho)
            fun ts item rest _ hitem => .done ⟨item, rfl, ?_⟩
          rw [List.append_nil]
          exact hitem
        case isFalse =>
          split
          · exact skipItem_leaves
          · exact skipItem_leaves
    | _ => exact skipItem_leaves

/-- An item that has ended, in front of more lines. -/
theorem Ended.cons {γ : Type} {P : List Token → γ → Prop} {as ts us rest : List Token} {a : γ}
    {more : List γ} (hP : Opens P) (has : LineEnds as) (h : Ended P ts (us ++ rest) a)
    (hmore : IsLines P us more) : IsLines P (as ++ ts ++ us) (a :: more) := by
  rcases h with ⟨ts, es, rfl, ha, ⟨t, rfl, ht⟩ | ⟨rfl, hend⟩⟩
  · simpa using IsLines.cons has ha ht hmore
  · -- Without a line end the item is the last one.
    have hus : us = [] := by
      rcases us with - | ⟨u, us⟩
      · rfl
      · rcases hend with hnil | ⟨t, vs, hcons, ht⟩
        · simp at hnil
        · have hu : u = t := (List.cons.inj hcons).1
          exact absurd (hu ▸ ht) (hmore.head_ne hP)
    subst hus
    rw [hmore.eq_nil hP]
    simpa using IsLines.last has ha

/-- An item and the lines behind it. -/
theorem lines_leaves {item : Parser (Option Item)} {more : Parser (List Item)}
    {R : List Token → Prop} {as : List Token} (has : LineEnds as)
    (hitem : (item F c).Leaves c fun ts rest i => ∃ a, i = some a ∧ Ended IsItem ts rest a)
    (hmore : ∀ c, (more F c).Leaves c fun ts rest items => R rest ∧ IsBody ts items) :
    ((do
      let item ← item
      return item.toList ++ (← more) : Parser (List Item)) F c).Leaves c fun ts rest items =>
        R rest ∧ IsBody (as ++ ts) items := by
  refine takes_bind hitem fun ts item rest _ hitem => ?_
  rcases hitem with ⟨a, rfl, hended⟩
  refine takes_bind (hmore _) fun us more rest' hrest hmore => .done ⟨hmore.1, ?_⟩
  have hended : Ended IsItem ts (us ++ rest') a := hrest ▸ hended
  simpa using hended.cons opens_isItem has hmore.2

/-- The items of a block end where the tokens do, or at a closing brace. -/
theorem items_leaves (depth : Nat) (c : Cursor) :
    (items depth F c).Leaves c fun ts rest items => AtEnd rest ∧ IsBody ts items := by
  induction depth generalizing c with
  | zero =>
    unfold items
    exact exhausted_takes
  | succ depth ih =>
    unfold items
    refine takes_newlines fun as rest has => ?_
    have hnone : AtEnd rest → (⟨[], ⟨stopAfter c.last as, rest⟩, []⟩ : Parsed (List Item)).Leaves
        ⟨stopAfter c.last as, rest⟩ fun ts rest items => AtEnd rest ∧ IsBody (as ++ ts) items :=
      fun hend => .done ⟨hend, by simpa using IsLines.none has⟩
    have hsome := lines_leaves (F := F) (c := ⟨stopAfter c.last as, rest⟩) has
      (itemOf_leaves fun c => (ih c).imp fun _ _ _ h => h.2) ih
    rw [peekKind_bind]
    rcases rest with - | ⟨⟨kind, span⟩, rest⟩
    · exact hnone (.inl rfl)
    · cases kind with
      | mark m =>
        cases m with
        | closeBrace => exact hnone (.inr ⟨_, _, rfl, rfl⟩)
        | _ => exact hsome
      | _ => exact hsome

theorem items_takes (depth : Nat) (c : Cursor) : (items depth F c).Takes c IsBody :=
  (items_leaves depth c).imp fun _ _ _ h => h.2

/-- The items of a whole text end where its tokens do. -/
theorem topItems_leaves (depth : Nat) (c : Cursor) :
    (topItems depth F c).Leaves c fun ts rest items => rest = [] ∧ IsBody ts items := by
  induction depth generalizing c with
  | zero =>
    unfold topItems
    exact exhausted_takes
  | succ depth ih =>
    unfold topItems
    refine takes_newlines fun as rest has => ?_
    have hsome := lines_leaves (F := F) (c := ⟨stopAfter c.last as, rest⟩) has
      (itemOf_leaves (items_takes depth)) ih
    rw [peekKind_bind]
    rcases rest with - | ⟨⟨kind, span⟩, rest⟩
    · exact .done ⟨rfl, by simpa using IsLines.none has⟩
    · cases kind with
      | mark m =>
        cases m with
        | closeBrace => exact takes_report
        | _ => exact hsome
      | _ => exact hsome

theorem spanned_leaves {p : Parser α} (hp : (p F c).Leaves c P) :
    (spanned p F c).Leaves c fun ts rest x =>
      P ts rest x.1 ∧ x.2 = ⟨(ahead F c).start, stopAfter c.last ts⟩ := by
  unfold spanned
  rw [lookahead_bind]
  refine takes_bind hp fun ts a rest _ ha => .done ?_
  rw [List.append_nil]
  exact ⟨ha, rfl⟩

/-- The body of a whole text: its items, and the span of all tokens, or of the end if there are
none. -/
theorem body_leaves : (body F c).Leaves c fun ts rest b =>
    rest = [] ∧ ∃ items, IsBody ts items ∧ b = ⟨items, if ts = [] then F.ending else spanOf ts⟩ := by
  rcases c with ⟨last, tokens⟩
  unfold body
  rw [peek_bind]
  rcases tokens with - | ⟨t, rest⟩
  · exact .done ⟨rfl, [], .none (by simp [LineEnds]), rfl⟩
  · refine takes_bind (spanned_leaves (topItems_leaves _ _)) fun ts x rest' hts hx => .done ?_
    rcases x with ⟨items, span⟩
    rcases hx with ⟨⟨rfl, hitems⟩, rfl⟩
    have hall : t :: rest = ts := hts.trans (List.append_nil ts)
    subst hall
    refine ⟨rfl, items, by simpa using hitems, ?_⟩
    simp [ahead]

/-- The assignments of a whole container. -/
theorem assignments_leaves (depth : Nat) (c : Cursor) :
    (assignments depth F c).Leaves c fun ts rest entries =>
      rest = [] ∧ IsAssignments ts entries := by
  -- On the depth; a round either takes a whole assignment or reports a fault.
  induction depth generalizing c with
  | zero =>
    unfold assignments
    exact exhausted_takes
  | succ depth ih =>
    unfold assignments
    refine takes_newlines fun as rest has => ?_
    rw [peekKind_bind]
    rcases rest with - | ⟨t, rest⟩
    · exact .done ⟨rfl, by simpa using IsLines.none has⟩
    · simp only [Cursor.kind?, List.head?_cons, Option.map_some]
      split
      case isTrue hstart =>
        refine takes_bind (entryKey_takes hstart) fun ks key rest _ hkey => ?_
        refine takes_mark (fun q rest _ hq => ?_) fun _ => takes_report
        refine takes_bind (expression_takes _) fun vs value rest _ hvalue => ?_
        refine takes_bind endOfItem_leaves fun es _ rest _ hes => ?_
        refine takes_bind (ih _) fun us more rest' hrest hmore => .done ⟨hmore.1, ?_⟩
        -- `hrest` tells that the line end found here is that of the remaining tokens.
        have hended : Ended IsAssignment (ks ++ q :: vs ++ es) (us ++ rest') (.mk key value) :=
          ⟨ks ++ q :: vs, es, rfl, .mk hkey hq hvalue, hrest ▸ hes⟩
        simpa using hended.cons opens_isAssignment has hmore.2
      case isFalse =>
        split
        · exact takes_report
        · exact takes_report

/-- An expression that is all of a text. -/
theorem loneExpression_leaves :
    (loneExpression F c).Leaves c fun ts rest e => rest = [] ∧ IsLone ts e := by
  unfold loneExpression
  refine takes_newlines fun as rest has => ?_
  refine takes_bind (expression_takes _) fun ts e rest _ he => ?_
  refine takes_newlines fun bs rest hbs => ?_
  rw [peek_bind]
  rcases rest with - | ⟨t, rest⟩
  · refine .done ⟨rfl, ?_⟩
    simpa using IsLone.mk has he hbs
  · exact takes_report

end Parser

end Overlay.Hcl
