import Overlay.Proofs.Hcl.Soundness

/-!
# What the grammar derives is read

Tokens with a derivation are read without a report, and the tree is the one of the derivation.

* The statements are equations: in front of the tokens `ts` and any others that do not go on with the
  construct, the reader gives the tree, the place behind `ts`, and no fault.
* `Follows` says of the tokens behind an expression that they do not go on with it.
* A depth above the number of tokens is enough (`complete`), and every reader sets one.
-/

namespace Overlay.Hcl

variable {α β : Type}

/-- Whether an expression ends in front of the tokens: no step and no call comes next. -/
def Follows (rest : List Token) : Prop :=
  ∀ t us, rest = t :: us →
    t.kind ≠ .mark .dot ∧ t.kind ≠ .mark .openBracket ∧ t.kind ≠ .mark .openParen

theorem follows_nil : Follows [] := fun _ _ h => absurd h (List.cons_ne_nil _ _).symm

/-- Every mark but three ends an expression in front of it. -/
theorem follows_mark {t : Token} {us : List Token} {m : Mark} (ht : t.kind = .mark m)
    (hm : m ≠ .dot ∧ m ≠ .openBracket ∧ m ≠ .openParen) : Follows (t :: us) := by
  intro u vs h
  rw [← (List.cons.inj h).1, ht]
  exact ⟨by simpa using hm.1, by simpa using hm.2.1, by simpa using hm.2.2⟩

/-- Line ends end an expression, and so does what stands behind them. -/
theorem LineEnds.follows {bs rest : List Token} (hbs : LineEnds bs) (hrest : Follows rest) :
    Follows (bs ++ rest) := by
  rcases bs with - | ⟨t, bs⟩
  · exact hrest
  · exact follows_mark (hbs t List.mem_cons_self) (by decide)

theorem Parser.Ends.follows {es rest : List Token} (h : Parser.Ends es rest) :
    Follows (es ++ rest) := by
  rcases h with ⟨t, rfl, ht⟩ | ⟨rfl, rfl | ⟨t, us, rfl, ht⟩⟩
  · exact follows_mark ht (by decide)
  · exact follows_nil
  · exact follows_mark ht (by decide)

/-- Steps start with a dot or a bracket. -/
theorem IsStep.head {ts : List Token} {step : Step} (h : IsStep ts step) :
    ∃ t us, ts = t :: us ∧ (t.kind = .mark .dot ∨ t.kind = .mark .openBracket) := by
  cases h with
  | attr hd => exact ⟨_, _, rfl, .inl hd⟩
  | number hd => exact ⟨_, _, rfl, .inl hd⟩
  | index ho => exact ⟨_, _, rfl, .inr ho⟩

theorem IsStep.length_pos {ts : List Token} {step : Step} (h : IsStep ts step) : 0 < ts.length := by
  rcases h.head with ⟨t, us, rfl, -⟩
  exact Nat.succ_pos _

/-- No parenthesis comes next behind a name that is not called. -/
theorem IsSteps.not_openParen {ts us rest : List Token} {ss : List Step} {u : Token}
    (h : IsSteps ts ss) (hrest : Follows rest) (hu : ts ++ rest = u :: us) :
    u.kind ≠ .mark .openParen := by
  cases h with
  | none => exact (hrest u us hu).2.2
  | cons hstep hss =>
    rcases hstep.head with ⟨t, ts, rfl, ht⟩
    rw [← (List.cons.inj hu).1]
    intro hopen
    rcases ht with ht | ht
    · rw [ht] at hopen
      cases hopen
    · rw [ht] at hopen
      cases hopen

/-- Line ends at the front are skipped. -/
theorem LineEnds.skip {as : List Token} (has : LineEnds as) (last : Pos) (rest : List Token) :
    Cursor.skipNewlines ⟨last, as ++ rest⟩ = Cursor.skipNewlines ⟨stopAfter last as, rest⟩ := by
  unfold Cursor.skipNewlines
  induction as generalizing last with
  | nil => rfl
  | cons a as ih =>
    rcases List.forall_mem_cons.1 has with ⟨ha, has⟩
    have hnewline : a.kind.isNewline = true := by
      rw [ha]
      rfl
    show Cursor.skipWhile TokenKind.isNewline last (a :: (as ++ rest)) = _
    rw [Cursor.skipWhile, if_pos hnewline]
    exact ih has a.span.stop

/-- In front of an expression no line ends are skipped. -/
theorem IsExpr.skipNewlines {ts rest : List Token} {e : Expr} (he : IsExpr ts e) (last : Pos) :
    Cursor.skipNewlines ⟨last, ts ++ rest⟩ = ⟨last, ts ++ rest⟩ := by
  rcases he.exists_cons with ⟨t, us, rfl, -, ht⟩
  exact Parser.skipNewlines_of_ne ht

/-- In front of a mark that is no line end none are skipped. -/
theorem skipNewlines_mark {rest : List Token} {t : Token} {m : Mark} (ht : t.kind = .mark m)
    (hm : m ≠ .newline) (last : Pos) :
    Cursor.skipNewlines ⟨last, t :: rest⟩ = ⟨last, t :: rest⟩ := by
  refine Parser.skipNewlines_of_ne ?_
  rw [ht]
  simpa [TokenKind.isNewline] using hm

namespace Parser

variable {F : Frame} {c d : Cursor} {last : Pos} {t o : Token} {ts us as bs rest : List Token}
  {depth : Nat} {e : Expr}

/-! ## Steps -/

theorem advance_cons {f : Unit → Parser β} :
    (advance >>= f) F ⟨last, t :: rest⟩ = f () F ⟨t.span.stop, rest⟩ := rfl

theorem mark_taken {m : Mark} {f : Bool → Parser β} (ht : t.kind = .mark m) :
    (mark m >>= f) F ⟨last, t :: rest⟩ = f true F ⟨t.span.stop, rest⟩ := by
  rw [mark_bind, if_pos (by simp [Cursor.kind?, ht])]
  rfl

theorem mark_missing {m : Mark} {f : Bool → Parser β} (h : ∀ t us, rest = t :: us → t.kind ≠ .mark m) :
    (mark m >>= f) F ⟨last, rest⟩ = f false F ⟨last, rest⟩ := by
  rw [mark_bind, if_neg]
  intro hkind
  rcases Cursor.exists_cons_of_kind? hkind with ⟨t, us, rfl, ht⟩
  exact h t us rfl ht

theorem close_taken {own : Mark} {fault : SyntaxFault} (ht : t.kind = .mark own) :
    close own fault F ⟨last, t :: rest⟩ = ⟨.closed, ⟨t.span.stop, rest⟩, []⟩ := by
  unfold close
  rw [peekKind_bind]
  simp only [Cursor.kind?, List.head?_cons, Option.map_some, ht, if_true]
  rfl

/-! ## Expressions -/

/-- At this depth the readers of the parts of expressions read what the grammar derives with fewer
tokens. -/
structure Complete (F : Frame) (depth : Nat) : Prop where
  value : ∀ {ts e}, IsExpr ts e → ts.length < depth → ∀ last rest, Follows rest →
    value depth F ⟨last, ts ++ rest⟩ = ⟨e, ⟨stopAfter last ts, rest⟩, []⟩
  steps : ∀ {ts ss}, IsSteps ts ss → ts.length < depth → ∀ last rest, Follows rest →
    steps depth F ⟨last, ts ++ rest⟩ = ⟨ss, ⟨stopAfter last ts, rest⟩, []⟩
  elements : ∀ {ts es}, IsItems ts es → ts.length + 1 < depth → ∀ {bs}, LineEnds bs →
    ∀ {c : Token}, c.kind.isCloser = true → ∀ last rest, ∃ next,
      elements depth F (Cursor.skipNewlines ⟨last, ts ++ bs ++ c :: rest⟩) = ⟨es, next, []⟩ ∧
        next.skipNewlines = ⟨stopAfter last (ts ++ bs), c :: rest⟩
  entries : ∀ {ts es}, IsEntries ts es → ts.length < depth →
    ∀ {c : Token}, c.kind = .mark .closeBrace → ∀ last rest,
      objectEntries depth F ⟨last, ts ++ c :: rest⟩ = ⟨(es, .closed), ⟨c.span.stop, rest⟩, []⟩

/-- What stands between an opener and its closer. -/
theorem delimited_complete (h : Complete F depth) {own : Mark} {fault : SyntaxFault}
    {es : List Expr} (hes : IsList ts es) (hlen : ts.length + 1 < depth)
    (ho : o.kind = .mark own) (hown : own.isCloser = true) :
    delimited (elements depth) own fault F ⟨last, ts ++ o :: rest⟩ =
      ⟨(es, .closed), ⟨o.span.stop, rest⟩, []⟩ := by
  rcases hes with @⟨as, ts, bs, _, has, hes, hbs⟩
  have hcloser : o.kind.isCloser = true := by
    rw [ho]
    exact hown
  have hshort : ts.length + 1 < depth := by
    simp only [List.length_append] at hlen
    omega
  have htokens : as ++ ts ++ bs ++ o :: rest = as ++ (ts ++ bs ++ o :: rest) := by simp
  rcases h.elements hes hshort hbs hcloser (stopAfter last as) rest with ⟨next, hrun, hnext⟩
  unfold delimited
  rw [newlines_bind, htokens, has.skip, bind_silent hrun, newlines_bind, hnext,
    bind_silent (close_taken ho)]
  rfl

theorem tuple_complete (h : Complete F depth) {es : List Expr} (hes : IsList ts es)
    (ho : o.kind = .mark .closeBracket) (hlen : ts.length + 1 < depth) :
    tuple (elements depth) t.span F ⟨last, t :: ts ++ o :: rest⟩ =
      ⟨.tuple es (spanOf (t :: ts ++ [o])), ⟨o.span.stop, rest⟩, []⟩ := by
  have hrun : delimited (elements depth) .closeBracket .missingItemSeparator F
      ⟨t.span.stop, ts ++ o :: rest⟩ = ⟨(es, .closed), ⟨o.span.stop, rest⟩, []⟩ :=
    delimited_complete h hes hlen ho rfl
  unfold tuple
  rw [List.cons_append, advance_cons, bind_silent hrun]
  simp [spanFrom_bind, -bind_pure_comp]

theorem call_complete (h : Complete F depth) {es : List Expr} {name : String}
    (hes : IsList ts es) (hlen : ts.length + 1 < depth)
    {p : Token} (hp : p.kind = .mark .closeParen) :
    call (elements depth) name t.span.start F ⟨last, t :: o :: ts ++ p :: rest⟩ =
      ⟨.call name es (spanOf (t :: o :: ts ++ [p])), ⟨p.span.stop, rest⟩, []⟩ := by
  have hrun : delimited (elements depth) .closeParen .missingArgumentSeparator F
      ⟨o.span.stop, ts ++ p :: rest⟩ = ⟨(es, .closed), ⟨p.span.stop, rest⟩, []⟩ :=
    delimited_complete h hes hlen hp rfl
  unfold call
  rw [List.cons_append, List.cons_append, advance_cons, lookahead_bind, advance_cons, bind_silent hrun]
  simp [spanFrom_bind, -bind_pure_comp]

theorem object_complete (h : Complete F depth) {es : List Entry} (hes : IsEntries ts es)
    (ho : o.kind = .mark .closeBrace) (hlen : ts.length < depth) :
    object (objectEntries depth) t.span F ⟨last, t :: ts ++ o :: rest⟩ =
      ⟨.object es (spanOf (t :: ts ++ [o])), ⟨o.span.stop, rest⟩, []⟩ := by
  have hrun := h.entries hes hlen ho t.span.stop rest
  unfold object
  rw [List.cons_append, advance_cons, bind_silent hrun]
  simp [spanFrom_bind, -bind_pure_comp]

theorem closeParens_taken (ho : o.kind = .mark .closeParen) :
    closeParens F ⟨last, o :: rest⟩ = ⟨(), ⟨o.span.stop, rest⟩, []⟩ := by
  unfold closeParens
  rw [mark_taken ho]
  rfl

theorem parens_complete (h : Complete F depth) (has : LineEnds as) (he : IsExpr ts e)
    (hbs : LineEnds bs) (ho : o.kind = .mark .closeParen) (hlen : ts.length < depth) :
    parens (value depth) t.span.start F ⟨last, t :: as ++ ts ++ bs ++ o :: rest⟩ =
      ⟨.parens e (spanOf (t :: as ++ ts ++ bs ++ [o])), ⟨o.span.stop, rest⟩, []⟩ := by
  have hrun := h.value he hlen (stopAfter t.span.stop as) (bs ++ o :: rest)
    (hbs.follows (follows_mark ho (by decide)))
  have htokens : t :: as ++ ts ++ bs ++ o :: rest = t :: (as ++ (ts ++ (bs ++ o :: rest))) := by
    simp
  unfold parens
  rw [htokens, advance_cons, newlines_bind, has.skip, he.skipNewlines, bind_silent hrun, newlines_bind,
    hbs.skip, skipNewlines_mark ho (by decide), bind_silent (closeParens_taken ho)]
  simp [spanFrom_bind, -bind_pure_comp]

theorem negate_complete (h : Complete F depth) (he : IsExpr ts e) (hlen : ts.length < depth)
    (hrest : Follows rest) :
    (do
      advance
      let operand ← value depth
      return .negate operand (← spanFrom t.span.start) : Parser Expr) F ⟨last, t :: ts ++ rest⟩ =
        ⟨.negate e (spanOf (t :: ts)), ⟨stopAfter t.span.stop ts, rest⟩, []⟩ := by
  rw [List.cons_append, advance_cons, bind_silent (h.value he hlen _ _ hrest)]
  simp [spanFrom_bind, -bind_pure_comp]

theorem traversal_complete (h : Complete F depth) {name : String} {ss : List Step}
    (hss : IsSteps ts ss) (hlen : ts.length < depth) (hrest : Follows rest) :
    traversal (steps depth) name t.span F ⟨last, t :: ts ++ rest⟩ =
      ⟨.mk name t.span ss (spanOf (t :: ts)), ⟨stopAfter t.span.stop ts, rest⟩, []⟩ := by
  have hdot : ∀ u us, rest = u :: us → u.kind ≠ .mark .dot := fun u us hu => (hrest u us hu).1
  unfold traversal
  rw [List.cons_append, advance_cons, bind_silent (h.steps hss hlen _ _ hrest), mark_missing hdot]
  simp [spanFrom_bind, -bind_pure_comp]

theorem indexStep_complete (h : Complete F depth) (has : LineEnds as) (he : IsExpr ts e)
    (hbs : LineEnds bs) (ho : o.kind = .mark .closeBracket) (hlen : ts.length < depth) (last : Pos)
    (rest : List Token) :
    indexStep (value depth) t.span.start F ⟨last, t :: as ++ ts ++ bs ++ o :: rest⟩ =
      ⟨.index e (spanOf (t :: as ++ ts ++ bs ++ [o])), ⟨o.span.stop, rest⟩, []⟩ := by
  have hrun := h.value he hlen (stopAfter t.span.stop as) (bs ++ o :: rest)
    (hbs.follows (follows_mark ho (by decide)))
  have htokens : t :: as ++ ts ++ bs ++ o :: rest = t :: (as ++ (ts ++ (bs ++ o :: rest))) := by
    simp
  unfold indexStep
  rw [htokens, advance_cons, newlines_bind, has.skip, he.skipNewlines, bind_silent hrun, newlines_bind,
    hbs.skip, skipNewlines_mark ho (by decide), mark_taken ho]
  simp [spanFrom_bind, -bind_pure_comp]

/-- A name that is no literal is called, or has steps behind it. -/
theorem value_named (depth : Nat) {name : String} (ht : t.kind = .ident name)
    (hname : NotLiteral name) (last : Pos) (rest : List Token) :
    value (depth + 1) F ⟨last, t :: rest⟩ =
      (if (⟨t.span.stop, rest⟩ : Cursor).kind? = some (.mark .openParen) then
        call (elements depth) name t.span.start
      else do return .traversal (← traversal (steps depth) name t.span) : Parser Expr)
        F ⟨last, t :: rest⟩ := by
  rcases t with ⟨kind, span⟩
  cases ht
  have hnone : literalName? name span = none := by
    rcases hname with ⟨htrue, hfalse, hnull⟩
    simp only [literalName?, htrue, hfalse, hnull, if_false]
  rw [value, peek_bind]
  simp only [List.head?_cons, hnone]
  rw [peekSecond_bind]
  rfl

theorem value_complete (h : Complete F depth) (he : IsExpr ts e) (hlen : ts.length < depth + 1)
    (last : Pos) (rest : List Token) (hrest : Follows rest) :
    value (depth + 1) F ⟨last, ts ++ rest⟩ = ⟨e, ⟨stopAfter last ts, rest⟩, []⟩ := by
  cases he with
  | @number t _ ht | @string t _ ht | @heredoc t _ ht | @trueLit t ht | @falseLit t ht
  | @nullLit t ht =>
    rcases t with ⟨kind, span⟩
    cases ht
    rw [value]
    rfl
  -- In the forms that follow the parts have fewer tokens, and are read with less depth.
  | @negate t ts e ht he =>
    have hshort : ts.length < depth := by simpa using hlen
    rcases t with ⟨kind, span⟩
    cases ht
    rw [value]
    exact negate_complete h he hshort hrest
  | @call t o c ts name es ht hname ho hes hc =>
    have hshort : ts.length + 1 < depth := by
      simp only [List.length_append, List.length_cons, List.length_nil] at hlen
      omega
    have htokens : t :: o :: ts ++ [c] ++ rest = t :: o :: ts ++ c :: rest := by simp
    have hcall : (⟨t.span.stop, o :: (ts ++ c :: rest)⟩ : Cursor).kind? =
        some (.mark .openParen) := congrArg some ho
    have hrun := value_named (F := F) depth ht hname last (o :: (ts ++ c :: rest))
    rw [if_pos hcall] at hrun
    rw [htokens]
    refine hrun.trans ((call_complete h hes hshort hc).trans ?_)
    simp
  | @traversal _ path hpath hroot =>
    rcases hpath with @⟨t, ts, name, ss, ht, hss⟩
    have hshort : ts.length < depth := by simpa using hlen
    -- Steps do not start with a parenthesis, and neither does what follows an expression.
    have hnocall : (⟨t.span.stop, ts ++ rest⟩ : Cursor).kind? ≠ some (.mark .openParen) := by
      intro hkind
      rcases Cursor.exists_cons_of_kind? hkind with ⟨u, us, hu, hopen⟩
      exact hss.not_openParen hrest hu hopen
    have hrun := value_named (F := F) depth ht hroot last (ts ++ rest)
    rw [if_neg hnocall] at hrun
    exact hrun.trans (bind_silent (traversal_complete h hss hshort hrest))
  | @tuple o c ts es ho hes hc =>
    have hshort : ts.length + 1 < depth := by
      simp only [List.length_append, List.length_cons, List.length_nil] at hlen
      omega
    have htokens : o :: ts ++ [c] ++ rest = o :: ts ++ c :: rest := by simp
    rcases o with ⟨kind, span⟩
    cases ho
    rw [htokens, value]
    refine (tuple_complete (t := ⟨.mark .openBracket, span⟩) h hes hc hshort).trans ?_
    simp
  | @object o c ts es ho hes hc =>
    have hshort : ts.length < depth := by
      simp only [List.length_append, List.length_cons, List.length_nil] at hlen
      omega
    have htokens : o :: ts ++ [c] ++ rest = o :: ts ++ c :: rest := by simp
    rcases o with ⟨kind, span⟩
    cases ho
    rw [htokens, value]
    refine (object_complete (t := ⟨.mark .openBrace, span⟩) h hes hc hshort).trans ?_
    simp
  | @parens o c as ts bs e ho has he hbs hc =>
    have hshort : ts.length < depth := by
      simp only [List.length_append, List.length_cons, List.length_nil] at hlen
      omega
    have htokens : o :: as ++ ts ++ bs ++ [c] ++ rest = o :: as ++ ts ++ bs ++ c :: rest := by simp
    rcases o with ⟨kind, span⟩
    cases ho
    rw [htokens, value]
    refine (parens_complete (t := ⟨.mark .openParen, span⟩) h has he hbs hc hshort).trans ?_
    simp

theorem step_complete (h : Complete F depth) {step : Step} (hts : IsStep ts step)
    (hlen : ts.length < depth + 1) (last : Pos) (rest : List Token) :
    steps (depth + 1) F ⟨last, ts ++ rest⟩ =
      (do return step :: (← steps depth) : Parser (List Step)) F ⟨stopAfter last ts, rest⟩ := by
  cases hts with
  | @attr d t name hd ht =>
    rcases d with ⟨kind, span⟩
    rcases t with ⟨kind', span'⟩
    cases hd
    cases ht
    rw [steps]
    rfl
  | @number d t text hd ht =>
    rcases d with ⟨kind, span⟩
    rcases t with ⟨kind', span'⟩
    cases hd
    cases ht
    rw [steps]
    rfl
  | @index o c as ts bs e ho has he hbs hc =>
    have hshort : ts.length < depth := by
      simp only [List.length_append, List.length_cons, List.length_nil] at hlen
      omega
    have htokens : o :: as ++ ts ++ bs ++ [c] ++ rest = o :: as ++ ts ++ bs ++ c :: rest := by simp
    rcases o with ⟨kind, span⟩
    cases ho
    have hrun := indexStep_complete (F := F) (t := ⟨.mark .openBracket, span⟩) h has he hbs hc hshort
      last rest
    rw [htokens, steps, peek_bind]
    simp only [List.cons_append, List.head?_cons] at hrun ⊢
    rw [bind_silent hrun]
    simp

theorem steps_complete (h : Complete F depth) {ss : List Step} (hss : IsSteps ts ss)
    (hlen : ts.length < depth + 1) (last : Pos) (rest : List Token) (hrest : Follows rest) :
    steps (depth + 1) F ⟨last, ts ++ rest⟩ = ⟨ss, ⟨stopAfter last ts, rest⟩, []⟩ := by
  cases hss with
  | none =>
    rcases rest with - | ⟨⟨kind, span⟩, rest⟩
    · rw [steps]
      rfl
    · have hnot := hrest _ _ rfl
      rw [steps, List.nil_append, peek_bind]
      cases kind with
      | mark m =>
        cases m with
        | dot => exact absurd rfl hnot.1
        | openBracket => exact absurd rfl hnot.2.1
        | _ => rfl
      | _ => rfl
  | @cons ts us step ss hstep hss =>
    have hpos := hstep.length_pos
    rw [List.length_append] at hlen
    rw [List.append_assoc, step_complete h hstep (by omega),
      bind_silent (h.steps hss (by omega) _ _ hrest)]
    simp

/-- A comma is taken with the line ends around it. -/
theorem comma_taken {f : Bool → Parser β} (has : LineEnds as) (ht : t.kind = .mark .comma)
    (last : Pos) :
    (comma >>= f) F ⟨last, as ++ t :: rest⟩ = f true F (Cursor.skipNewlines ⟨t.span.stop, rest⟩) := by
  have hahead : Cursor.skipNewlines ⟨last, as ++ t :: rest⟩ = ⟨stopAfter last as, t :: rest⟩ := by
    rw [has.skip, skipNewlines_mark ht (by decide)]
  have hkind : (⟨stopAfter last as, t :: rest⟩ : Cursor).kind? = some (.mark .comma) :=
    congrArg some ht
  rw [comma_bind, hahead, if_pos hkind]
  rfl

/-- In front of a closer there is no comma. -/
theorem comma_missing {f : Bool → Parser β} (has : LineEnds as) (ht : t.kind.isCloser = true)
    (last : Pos) :
    (comma >>= f) F ⟨last, as ++ t :: rest⟩ = f false F ⟨last, as ++ t :: rest⟩ := by
  rcases t with ⟨kind, span⟩
  cases kind with
  | mark m =>
    have hahead : Cursor.skipNewlines ⟨last, as ++ ⟨.mark m, span⟩ :: rest⟩ =
        ⟨stopAfter last as, ⟨.mark m, span⟩ :: rest⟩ := by
      rw [has.skip]
      refine skipNewlines_mark rfl ?_ _
      rintro rfl
      cases ht
    rw [comma_bind, hahead, if_neg]
    intro hkind
    cases hkind
    cases ht
  | _ => cases ht

/-- An item comes next, and then a comma or nothing. -/
theorem elements_item (h : Complete F depth) (he : IsExpr ts e) (hlen : ts.length < depth)
    (last : Pos) (hrest : Follows rest) :
    elements (depth + 1) F (Cursor.skipNewlines ⟨last, ts ++ rest⟩) =
      (do if ← comma then return e :: (← elements depth) else return [e] : Parser (List Expr)) F
        ⟨stopAfter last ts, rest⟩ := by
  have hrun := h.value he hlen last rest hrest
  rw [he.skipNewlines]
  rcases he.exists_cons with ⟨t, us, rfl, hcloser, -⟩
  rw [elements, peekKind_bind]
  simp only [List.cons_append, Cursor.kind?, List.head?_cons, Option.map_some, hcloser] at hrun ⊢
  exact bind_silent hrun

theorem elements_complete (h : Complete F depth) {es : List Expr} (hes : IsItems ts es)
    (hlen : ts.length + 1 < depth + 1) (hbs : LineEnds bs) (ho : o.kind.isCloser = true)
    (last : Pos) (rest : List Token) : ∃ next,
      elements (depth + 1) F (Cursor.skipNewlines ⟨last, ts ++ bs ++ o :: rest⟩) = ⟨es, next, []⟩ ∧
        next.skipNewlines = ⟨stopAfter last (ts ++ bs), o :: rest⟩ := by
  have hnewline : o.kind.isNewline = false := by
    rcases o with ⟨kind, span⟩
    cases kind with
    | mark m => cases m <;> first | rfl | cases ho
    | _ => cases ho
  cases hes with
  | none =>
    have hskip : Cursor.skipNewlines ⟨last, [] ++ bs ++ o :: rest⟩ =
        ⟨stopAfter last bs, o :: rest⟩ := by
      rw [List.nil_append, hbs.skip, skipNewlines_of_ne hnewline]
    refine ⟨⟨stopAfter last bs, o :: rest⟩, ?_, ?_⟩
    · rw [hskip, elements, peekKind_bind]
      simp only [Cursor.kind?, List.head?_cons, Option.map_some, ho, if_true]
      rfl
    · rw [skipNewlines_of_ne hnewline, List.nil_append]
  | @last ts e he =>
    -- A closer does not go on with the last item, and it is no comma.
    have hrest : Follows (bs ++ o :: rest) := by
      refine hbs.follows fun u us hu => ?_
      rw [← (List.cons.inj hu).1]
      refine ⟨?_, ?_, ?_⟩ <;> intro hkind <;> rw [hkind] at ho <;> cases ho
    refine ⟨⟨stopAfter last ts, bs ++ o :: rest⟩, ?_, ?_⟩
    · rw [List.append_assoc, elements_item h he (by omega) last hrest, comma_missing hbs ho]
      rfl
    · rw [hbs.skip, skipNewlines_of_ne hnewline, stopAfter_append]
  | @cons ts as cs us t e es he has ht hcs hes =>
    have hpos : 0 < ts.length := by
      rcases he.exists_cons with ⟨v, vs, rfl, -⟩
      exact Nat.succ_pos _
    simp only [List.length_append, List.length_cons] at hlen
    have hrest : Follows (as ++ t :: (cs ++ (us ++ bs ++ o :: rest))) :=
      has.follows (follows_mark ht (by decide))
    rcases h.elements hes (by omega) hbs ho (stopAfter t.span.stop cs) rest with ⟨next, hrun, hnext⟩
    have htokens : ts ++ as ++ t :: cs ++ us ++ bs ++ o :: rest =
        ts ++ (as ++ t :: (cs ++ (us ++ bs ++ o :: rest))) := by simp
    refine ⟨next, ?_, ?_⟩
    · rw [htokens, elements_item h he (by omega) last hrest, comma_taken has ht, hcs.skip]
      simp only [if_true]
      exact bind_silent hrun
    · rw [hnext]
      simp

theorem startsKey_not_newline {k : TokenKind} (h : startsKey k = true) : k.isNewline = false := by
  cases k with
  | mark m => cases m <;> first | rfl | cases h
  | _ => rfl

theorem keyOf_complete (h : Complete F depth) {key : Key} (hkey : IsKey ts key)
    (hlen : ts.length < depth) (last : Pos) (rest : List Token) (hrest : Follows rest) :
    keyOf (value depth) (steps depth) F ⟨last, ts ++ rest⟩ =
      ⟨key, ⟨stopAfter last ts, rest⟩, []⟩ := by
  cases hkey with
  | path hpath =>
    rcases hpath with @⟨t, ts, name, ss, ht, hss⟩
    have hshort : ts.length < depth := by
      simp only [List.length_cons] at hlen
      omega
    refine (keyOf_ident ht).trans ?_
    exact bind_silent (traversal_complete h hss hshort hrest)
  | @expr t ts e ht he =>
    refine (keyOf_other ht).trans ?_
    exact bind_silent (h.value he hlen last rest hrest)

/-- Behind its key, its separator and its value an entry is read. -/
theorem entry_complete (h : Complete F depth) {entry : Entry} (hts : IsEntry ts entry)
    (hlen : ts.length < depth + 1) (has : LineEnds as) (last : Pos) (hrest : Follows rest) :
    objectEntries (depth + 1) F ⟨last, as ++ ts ++ rest⟩ =
      behindValue depth entry F ⟨stopAfter last (as ++ ts), rest⟩ := by
  rcases hts with @⟨ks, vs, t, key, value, hkey, ht, hvalue⟩
  simp only [List.length_append, List.length_cons] at hlen
  have hsep : Follows (t :: (vs ++ rest)) := by
    rcases ht with ht | ht
    · exact follows_mark ht (by decide)
    · exact follows_mark ht (by decide)
  have hkeyrun := keyOf_complete (F := F) h hkey (by omega) (stopAfter last as) _ hsep
  have hvaluerun := h.value hvalue (by omega) t.span.stop rest hrest
  have htokens : as ++ (ks ++ t :: vs) ++ rest = as ++ (ks ++ t :: (vs ++ rest)) := by simp
  have hbehind : behindKey depth key F ⟨stopAfter (stopAfter last as) ks, t :: (vs ++ rest)⟩ =
      entryValue depth key F ⟨stopAfter (stopAfter last as) ks, t :: (vs ++ rest)⟩ := by
    rcases t with ⟨kind, span⟩
    rcases ht with ht | ht
    · cases ht
      rfl
    · cases ht
      rfl
  -- The reader looks at the first token of the key, and that is no line end.
  rcases hkey.exists_cons with ⟨u, us, rfl, hstart⟩
  have hnewline : u.kind.isNewline = false := startsKey_not_newline hstart
  rw [htokens, objectEntries_succ, newlines_bind, has.skip, List.cons_append,
    skipNewlines_of_ne hnewline, peekKind_bind]
  simp only [List.cons_append, Cursor.kind?, List.head?_cons, Option.map_some, hstart, if_true]
    at hkeyrun ⊢
  rw [bind_silent hkeyrun, hbehind]
  unfold entryValue
  rw [advance_cons, bind_silent hvaluerun]
  simp

theorem entries_complete (h : Complete F depth) {es : List Entry} (hes : IsEntries ts es)
    (hlen : ts.length < depth + 1) (ho : o.kind = .mark .closeBrace) (last : Pos)
    (rest : List Token) :
    objectEntries (depth + 1) F ⟨last, ts ++ o :: rest⟩ =
      ⟨(es, .closed), ⟨o.span.stop, rest⟩, []⟩ := by
  cases hes with
  | none has =>
    rw [objectEntries_succ, newlines_bind, has.skip, skipNewlines_mark ho (by decide),
      peekKind_bind]
    simp only [Cursor.kind?, List.head?_cons, Option.map_some, ho, startsKey, Bool.false_eq_true]
    exact bind_silent (close_taken ho)
  | @last as ts e has he =>
    simp only [List.length_append] at hlen
    rw [entry_complete h he (by omega) has last (follows_mark ho (by decide))]
    unfold behindValue
    rw [peekKind_bind]
    simp only [Cursor.kind?, List.head?_cons, Option.map_some, ho]
    exact bind_silent (close_taken ho)
  | @cons as ts us t e es has he ht hes =>
    simp only [List.length_append, List.length_cons] at hlen
    have hfollows : Follows (t :: (us ++ o :: rest)) := by
      rcases ht with ht | ht
      · exact follows_mark ht (by decide)
      · exact follows_mark ht (by decide)
    have htokens : as ++ ts ++ t :: us ++ o :: rest = as ++ ts ++ t :: (us ++ o :: rest) := by simp
    have hmore := h.entries hes (by omega) ho t.span.stop rest
    have hbehind : behindValue depth e F ⟨stopAfter last (as ++ ts), t :: (us ++ o :: rest)⟩ =
        entryBefore depth e F ⟨stopAfter last (as ++ ts), t :: (us ++ o :: rest)⟩ := by
      rcases t with ⟨kind, span⟩
      rcases ht with ht | ht
      · cases ht
        rfl
      · cases ht
        rfl
    rw [htokens, entry_complete h he (by omega) has last hfollows, hbehind]
    unfold entryBefore
    rw [advance_cons]
    exact bind_silent hmore

/-- At every depth what the grammar derives is read. -/
theorem complete (F : Frame) (depth : Nat) : Complete F depth := by
  induction depth with
  | zero =>
    -- No tokens are fewer than none.
    constructor
    · intro ts e _ hlen
      exact absurd hlen (Nat.not_lt_zero _)
    · intro ts ss _ hlen
      exact absurd hlen (Nat.not_lt_zero _)
    · intro ts es _ hlen
      exact absurd hlen (Nat.not_lt_zero _)
    · intro ts es _ hlen
      exact absurd hlen (Nat.not_lt_zero _)
  | succ depth ih =>
    constructor
    · intro ts e he hlen last rest hrest
      exact value_complete ih he hlen last rest hrest
    · intro ts ss hss hlen last rest hrest
      exact steps_complete ih hss hlen last rest hrest
    · intro ts es hes hlen bs hbs c hc last rest
      exact elements_complete ih hes hlen hbs hc last rest
    · intro ts es hes hlen c hc last rest
      exact entries_complete ih hes hlen hc last rest

theorem expression_complete (he : IsExpr ts e) (last : Pos) (hrest : Follows rest) :
    expression F ⟨last, ts ++ rest⟩ = ⟨e, ⟨stopAfter last ts, rest⟩, []⟩ := by
  have hlen : ts.length < 2 * (ts ++ rest).length + 2 := by
    rw [List.length_append]
    omega
  exact (complete F _).value he hlen last rest hrest

theorem entryKey_complete {key : Key} (hkey : IsKey ts key) (last : Pos) (hrest : Follows rest) :
    entryKey F ⟨last, ts ++ rest⟩ = ⟨key, ⟨stopAfter last ts, rest⟩, []⟩ := by
  have hlen : ts.length < 2 * (ts ++ rest).length + 2 := by
    rw [List.length_append]
    omega
  exact keyOf_complete (complete F _) hkey hlen last rest hrest

/-! ## Bodies -/

theorem endOfItem_complete {es : List Token} (hes : Ends es rest) :
    endOfItem F ⟨last, es ++ rest⟩ = ⟨(), ⟨stopAfter last es, rest⟩, []⟩ := by
  unfold endOfItem
  rw [peekKind_bind]
  rcases hes with ⟨t, rfl, ht⟩ | ⟨rfl, rfl | ⟨t, us, rfl, ht⟩⟩
  · simp only [List.singleton_append, Cursor.kind?, List.head?_cons, Option.map_some, ht]
    rfl
  · rfl
  · simp only [List.nil_append, Cursor.kind?, List.head?_cons, Option.map_some, ht]
    rfl

theorem labels_complete {ls : List Token} {ls' : List Label} (hls : IsLabels ls ls')
    (ho : o.kind = .mark .openBrace) (last : Pos) (rest : List Token) :
    labelsFrom last (ls ++ o :: rest) = ⟨ls', ⟨stopAfter last ls, o :: rest⟩, []⟩ := by
  induction hls generalizing last with
  | none =>
    rw [List.nil_append, labelsFrom]
    simp only [ho]
    rfl
  | @cons t ts text labels ht _ ih =>
    rw [List.cons_append, labelsFrom, ih t.span.stop]
    rcases ht with ht | ht
    · simp only [ht]
      rfl
    · simp only [ht]
      rfl

theorem attributeBody_complete {name : String} {nameSpan : Span} {q : Token} {es : List Token}
    (he : IsExpr ts e) (hes : Ends es rest) :
    attributeBody name nameSpan F ⟨last, q :: (ts ++ (es ++ rest))⟩ =
      ⟨.attr ⟨name, nameSpan, e⟩, ⟨stopAfter (stopAfter q.span.stop ts) es, rest⟩, []⟩ := by
  unfold attributeBody
  rw [advance_cons, bind_silent (expression_complete he _ hes.follows),
    bind_silent (endOfItem_complete hes)]
  rfl

theorem blockBody_complete {items : Parser (List Item)} {header : Header} {its : List Item}
    {p : Token} {es : List Token} (hp : p.kind = .mark .closeBrace) (hes : Ends es rest)
    (hitems : ∀ last rest, AtEnd rest →
      items F ⟨last, ts ++ rest⟩ = ⟨its, ⟨stopAfter last ts, rest⟩, []⟩) :
    blockBody items header F ⟨last, o :: (ts ++ p :: (es ++ rest))⟩ =
      ⟨.block header its ⟨o.span.start, p.span.stop⟩ ⟨header.kindSpan.start, p.span.stop⟩,
        ⟨stopAfter p.span.stop es, rest⟩, []⟩ := by
  have hbody := hitems o.span.stop (p :: (es ++ rest)) (.inr ⟨_, _, rfl, hp⟩)
  unfold blockBody
  rw [lookahead_bind, advance_cons, bind_silent hbody, newlines_bind, skipNewlines_mark hp (by decide),
    mark_taken hp, spanFrom_bind, spanFrom_bind]
  exact bind_silent (endOfItem_complete hes)

/-- No equals sign comes next in front of the labels of a block and its brace. -/
theorem labels_not_equals {ls : List Token} {labels : List Label} (hls : IsLabels ls labels)
    (ho : o.kind = .mark .openBrace) (last : Pos) (rest : List Token) :
    ((⟨last, ls ++ o :: rest⟩ : Cursor).kind? == some (.mark .equals)) = false := by
  cases hls with
  | none => simp [Cursor.kind?, ho]
  | cons ht =>
    rcases ht with ht | ht
    · simp [Cursor.kind?, ht]
    · simp [Cursor.kind?, ht]

/-- An item and its end, where the reader of the items of a block reads what the grammar derives. -/
theorem itemOf_complete {items : Parser (List Item)} {item : Item} {es : List Token}
    (hitem : IsItem ts item) (hes : Ends es rest) (last : Pos)
    (hitems : ∀ us its, IsBody us its → us.length < ts.length → ∀ last rest, AtEnd rest →
      items F ⟨last, us ++ rest⟩ = ⟨its, ⟨stopAfter last us, rest⟩, []⟩) :
    itemOf items F ⟨last, ts ++ (es ++ rest)⟩ =
      ⟨some item, ⟨stopAfter (stopAfter last ts) es, rest⟩, []⟩ := by
  cases hitem with
  | @attr t q ts name e ht hq he =>
    rcases t with ⟨kind, span⟩
    cases ht
    have hequals : ((⟨span.stop, q :: (ts ++ (es ++ rest))⟩ : Cursor).kind? ==
        some (.mark .equals)) = true := by simp [Cursor.kind?, hq]
    unfold itemOf
    rw [peek_bind]
    simp only [List.cons_append, List.head?_cons]
    rw [advance_cons, atMark_bind, hequals]
    exact bind_silent (attributeBody_complete he hes)
  | @block t o c ls ts name labels its ht hlabels ho hbody hc =>
    rcases t with ⟨kind, span⟩
    cases ht
    have hshort : ts.length < (⟨.ident name, span⟩ :: ls ++ o :: ts ++ [c]).length := by
      simp only [List.length_append, List.length_cons, List.length_nil]
      omega
    have htokens : ⟨.ident name, span⟩ :: ls ++ o :: ts ++ [c] ++ (es ++ rest) =
        ⟨.ident name, span⟩ :: (ls ++ o :: (ts ++ c :: (es ++ rest))) := by simp
    -- A label or the brace comes behind the name, so no equals sign does.
    have hnot := labels_not_equals hlabels ho span.stop (ts ++ c :: (es ++ rest))
    have hbrace : ((⟨stopAfter span.stop ls, o :: (ts ++ c :: (es ++ rest))⟩ : Cursor).kind? ==
        some (.mark .openBrace)) = true := by simp [Cursor.kind?, ho]
    have hlabelsrun := labels_complete hlabels ho span.stop (ts ++ c :: (es ++ rest))
    unfold itemOf
    rw [htokens, peek_bind]
    simp only [List.head?_cons]
    rw [advance_cons, atMark_bind, hnot]
    refine (bind_silent hlabelsrun).trans ?_
    rw [atMark_bind, hbrace]
    refine (bind_silent (blockBody_complete hc hes (hitems ts its hbody hshort))).trans ?_
    simp

/-- Lines are read where line ends alone are, and a line that has ended with the lines behind it. -/
theorem isLines_complete {γ : Type} {P : List Token → γ → Prop} (hP : Opens P)
    {p : Parser (List γ)} (hend : AtEnd rest)
    (hnone : ∀ as, LineEnds as → p F ⟨last, as ++ rest⟩ = ⟨[], ⟨stopAfter last as, rest⟩, []⟩)
    (hline : ∀ {as us} (es vs) {a more}, LineEnds as → P us a → Ends es (vs ++ rest) →
      IsLines P vs more → us.length < depth + 1 → vs.length < depth →
        p F ⟨last, as ++ (us ++ (es ++ (vs ++ rest)))⟩ =
          ⟨a :: more, ⟨stopAfter last (as ++ us ++ es ++ vs), rest⟩, []⟩)
    {all : List γ} (h : IsLines P ts all) (hlen : ts.length < depth + 1) :
    p F ⟨last, ts ++ rest⟩ = ⟨all, ⟨stopAfter last ts, rest⟩, []⟩ := by
  cases h with
  | none has => exact hnone _ has
  | @last as us a has ha =>
    -- Nothing is behind the last line, so it ends with the lines themselves.
    rw [List.length_append] at hlen
    have hpos : 0 < us.length := by
      rcases hP _ _ ha with ⟨t, ts, rfl, -⟩
      exact Nat.succ_pos _
    have hrun := hline [] [] has ha (.inr ⟨rfl, hend⟩)
      (.none (by simp [LineEnds])) (by omega) (by simp only [List.length_nil]; omega)
    simpa using hrun
  | @cons as us vs t a more has ha ht hvs =>
    simp only [List.length_append, List.length_cons] at hlen
    have hrun := hline [t] vs has ha (.inl ⟨t, rfl, ht⟩) hvs (by omega) (by omega)
    simpa using hrun

/-- A reader of items reads what the grammar derives in front of tokens as `R` says. -/
def ReadsLines (F : Frame) (p : Parser (List Item)) (bound : Nat) (R : List Token → Prop) : Prop :=
  ∀ {ts its}, IsBody ts its → ts.length < bound → ∀ last rest, R rest →
    p F ⟨last, ts ++ rest⟩ = ⟨its, ⟨stopAfter last ts, rest⟩, []⟩

/-- A reader that takes line ends and then an item and the lines behind it, or nothing, reads what the
grammar derives. -/
theorem lines_complete {p inner more : Parser (List Item)} {R : List Token → Prop}
    (hinner : ReadsLines F inner depth AtEnd) (hmore : ReadsLines F more depth R)
    (hR : ∀ rest, R rest → AtEnd rest)
    (hnone : ∀ last as rest, LineEnds as → R rest →
      p F ⟨last, as ++ rest⟩ = ⟨[], ⟨stopAfter last as, rest⟩, []⟩)
    (hsome : ∀ last as t us, LineEnds as → t.kind ≠ .mark .newline → t.kind ≠ .mark .closeBrace →
      p F ⟨last, as ++ t :: us⟩ = (do
        let item ← itemOf inner
        return item.toList ++ (← more) : Parser (List Item)) F ⟨stopAfter last as, t :: us⟩) :
    ReadsLines F p (depth + 1) R := by
  intro ts its hbody hlen last rest hrest
  refine isLines_complete opens_isItem (hR rest hrest) (fun as has => hnone last as rest has hrest)
    ?_ hbody hlen
  intro as us es vs item more has hitem hes hvs hus hvslen
  have hrun := itemOf_complete (F := F) hitem hes (stopAfter last as)
    fun ws its hws hlt => hinner hws (by omega)
  have hmorerun := hmore hvs hvslen (stopAfter (stopAfter (stopAfter last as) us) es) rest hrest
  -- The readers of lines differ in what they do where no item starts, and here one does.
  rcases opens_isItem _ _ hitem with ⟨t, ts, rfl, hnewline, hbrace⟩
  refine (hsome last as t _ has hnewline hbrace).trans ?_
  refine (bind_silent hrun).trans ?_
  refine (bind_silent hmorerun).trans ?_
  simp

/-- The items of a block in front of its closing brace or the end. -/
theorem items_complete (depth : Nat) : ReadsLines F (items depth) depth AtEnd := by
  induction depth with
  | zero =>
    intro ts its _ hlen
    exact absurd hlen (Nat.not_lt_zero _)
  | succ depth ih =>
    refine lines_complete ih ih (fun _ h => h) ?_ ?_
    · intro last as rest has hrest
      unfold items
      rw [newlines_bind, has.skip]
      rcases hrest with rfl | ⟨t, us, rfl, ht⟩
      · rfl
      · rw [skipNewlines_mark ht (by decide), peekKind_bind]
        simp only [Cursor.kind?, List.head?_cons, Option.map_some, ht]
        rfl
    · intro last as t us has hnewline hbrace
      have hskip : t.kind.isNewline = false := by simpa [TokenKind.isNewline] using hnewline
      rw [items, newlines_bind, has.skip, skipNewlines_of_ne hskip, peekKind_bind]
      rcases t with ⟨kind, span⟩
      cases kind with
      | mark m =>
        cases m with
        | closeBrace => exact absurd rfl hbrace
        | _ => rfl
      | _ => rfl

/-- The items of a whole text. -/
theorem topItems_complete (depth : Nat) : ReadsLines F (topItems depth) depth (· = []) := by
  induction depth with
  | zero =>
    intro ts its _ hlen
    exact absurd hlen (Nat.not_lt_zero _)
  | succ depth ih =>
    refine lines_complete (items_complete depth) ih (fun _ h => .inl h) ?_ ?_
    · rintro last as rest has rfl
      unfold topItems
      rw [newlines_bind, has.skip]
      rfl
    · intro last as t us has hnewline hbrace
      have hskip : t.kind.isNewline = false := by simpa [TokenKind.isNewline] using hnewline
      rw [topItems, newlines_bind, has.skip, skipNewlines_of_ne hskip, peekKind_bind]
      rcases t with ⟨kind, span⟩
      cases kind with
      | mark m =>
        cases m with
        | closeBrace => exact absurd rfl hbrace
        | _ => rfl
      | _ => rfl

theorem body_complete {its : List Item} (hbody : IsBody ts its) (last : Pos) :
    body F ⟨last, ts⟩ =
      ⟨⟨its, if ts = [] then F.ending else spanOf ts⟩, ⟨stopAfter last ts, []⟩, []⟩ := by
  unfold body
  rw [peek_bind]
  rcases ts with - | ⟨t, ts⟩
  · rw [hbody.eq_nil opens_isItem]
    rfl
  · have hrun := topItems_complete (F := F) ((t :: ts).length + 1) hbody (Nat.lt_succ_self _) last []
      rfl
    rw [List.append_nil] at hrun
    have hall : (do topItems ((← remaining) + 1) : Parser (List Item)) F ⟨last, t :: ts⟩ =
        ⟨its, ⟨stopAfter last (t :: ts), []⟩, []⟩ := hrun
    have hspanned : spanned (do topItems ((← remaining) + 1)) F ⟨last, t :: ts⟩ =
        ⟨(its, spanOf (t :: ts)), ⟨stopAfter last (t :: ts), []⟩, []⟩ := by
      unfold spanned
      rw [lookahead_bind]
      exact bind_silent hall
    simp only [List.head?_cons]
    exact bind_silent hspanned

/-! ## Containers -/

/-- The assignments of a whole container. -/
theorem assignments_complete (depth : Nat) {es : List Entry} (hes : IsAssignments ts es)
    (hlen : ts.length < depth) (last : Pos) :
    assignments depth F ⟨last, ts⟩ = ⟨es, ⟨stopAfter last ts, []⟩, []⟩ := by
  induction depth generalizing ts es last with
  | zero => exact absurd hlen (Nat.not_lt_zero _)
  | succ depth ih =>
    suffices hall : assignments (depth + 1) F ⟨last, ts ++ []⟩ =
        ⟨es, ⟨stopAfter last ts, []⟩, []⟩ by
      rwa [List.append_nil] at hall
    refine isLines_complete opens_isAssignment (.inl rfl) ?_ ?_ hes hlen
    · intro as has
      rw [assignments, newlines_bind, has.skip]
      rfl
    · intro as us ends vs e more has he hends hvs _ hvslen
      rcases he with @⟨ks, ws, q, key, value, hkey, hq, hvalue⟩
      rw [List.append_nil] at hends ⊢
      have hfollows : Follows (q :: (ws ++ (ends ++ vs))) := follows_mark hq (by decide)
      have hkeyrun := entryKey_complete (F := F) hkey (stopAfter last as) hfollows
      have hvaluerun := expression_complete (F := F) hvalue q.span.stop hends.follows
      have hmorerun := ih hvs hvslen (stopAfter (stopAfter q.span.stop ws) ends)
      have htokens : as ++ (ks ++ q :: ws ++ (ends ++ vs)) =
          as ++ (ks ++ q :: (ws ++ (ends ++ vs))) := by simp
      -- The reader looks at the first token of the key, and that is no line end.
      rcases hkey.exists_cons with ⟨t, ks, rfl, hstart⟩
      have hnewline : t.kind.isNewline = false := startsKey_not_newline hstart
      rw [htokens, assignments, newlines_bind, has.skip, List.cons_append,
        skipNewlines_of_ne hnewline, peekKind_bind]
      simp only [List.cons_append, Cursor.kind?, List.head?_cons, Option.map_some, hstart, if_true]
        at hkeyrun ⊢
      rw [bind_silent hkeyrun, mark_taken hq]
      simp only [if_true]
      rw [bind_silent hvaluerun, bind_silent (endOfItem_complete hends), bind_silent hmorerun]
      simp

/-- An expression that is all of a text. -/
theorem loneExpression_complete (h : IsLone ts e) (last : Pos) :
    loneExpression F ⟨last, ts⟩ = ⟨e, ⟨stopAfter last ts, []⟩, []⟩ := by
  rcases h with @⟨as, ts, bs, e, has, he, hbs⟩
  have hrest : Follows bs := by
    rw [← List.append_nil bs]
    exact hbs.follows follows_nil
  have hskip : Cursor.skipNewlines ⟨stopAfter (stopAfter last as) ts, bs⟩ =
      ⟨stopAfter (stopAfter (stopAfter last as) ts) bs, []⟩ := by
    have hbehind := hbs.skip (stopAfter (stopAfter last as) ts) []
    rw [List.append_nil] at hbehind
    exact hbehind
  unfold loneExpression
  rw [List.append_assoc, newlines_bind, has.skip, he.skipNewlines,
    bind_silent (expression_complete he _ hrest), newlines_bind, hskip]
  simp only [peek_bind, stopAfter_append]
  rfl

end Parser

end Overlay.Hcl
