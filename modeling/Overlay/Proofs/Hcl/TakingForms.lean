import Overlay.Proofs.Hcl.Taking

/-!
# Rules for the forms of an expression

Each form is taken if the expressions in it are.

* A form is taken with its span (`takes_spanned`), which starts with its first token.
* `takes_steps` and `takes_listTail` are by induction over the number of tokens: a step and an item take
  one token at least.
-/

namespace Overlay.Hcl

namespace Rule

open Overlay.Hcl.Parser (Closing)

variable {α β γ : Type} {S : Setting} {F : Frame} {back : List Token} {n d : Nat} {last : Pos}
  {t : Token} {ts us : List Token}

/-- A rule that takes the next token only, and what stands behind it. -/
theorem takes_behind {r : Rule α} {a : α} {f : α → Rule β} {q : Unit → Parser β}
    (hr : r S ⟨last, t :: ts ++ back⟩ = .taken ⟨a, ⟨t.span.stop, ts ++ back⟩, []⟩)
    (hf : Takes S F back us (f a) (q ()) ⟨t.span.stop, ts⟩) :
    Takes S F back us (r >>= f) (Parser.advance >>= q) ⟨last, t :: ts⟩ :=
  hf.congr (bind_silent hr) rfl

/-- A form, its span, which starts with the next token, and what stands behind it. -/
theorem takes_spannedAt {r : Rule α} {p : Parser α} {f : α × Span → Rule β}
    {g : α → Span → Parser β} {start : Pos} (h : Takes S F back us r p ⟨last, t :: ts⟩)
    (hstart : t.span.start = start)
    (hf : ∀ span, Takes S F back us (f ((p F ⟨last, t :: ts⟩).value, span))
      (g (p F ⟨last, t :: ts⟩).value span) (p F ⟨last, t :: ts⟩).next) :
    Takes S F back us (spanned r >>= f)
      (p >>= fun a => Parser.spanFrom start >>= fun span => g a span) ⟨last, t :: ts⟩ := by
  have hrest := hf ⟨start, (p F ⟨last, t :: ts⟩).next.last⟩
  refine ⟨(bind_taken (spanned_taken h.run)).trans ?_, hrest.left⟩
  rw [hstart]
  exact congrArg (Outcome.after _) hrest.run

/-- A form and its span. -/
theorem takes_spanned {r : Rule α} {p : Parser α} {f : α × Span → Rule β} {m : α → Span → β}
    {start : Pos} (h : Takes S F back us r p ⟨last, t :: ts⟩) (hstart : t.span.start = start)
    (hf : ∀ a span, f (a, span) = pure (m a span)) :
    Takes S F back us (spanned r >>= f)
      (p >>= fun a => Parser.spanFrom start >>= fun span => pure (m a span)) ⟨last, t :: ts⟩ := by
  refine takes_spannedAt h hstart fun span => ?_
  rw [hf]
  exact ⟨rfl, h.left⟩

theorem found_run (hF : S.Frames F back) (c : Cursor) :
    found S (c.extend back) = .taken ⟨Parser.name F c, c.extend back, []⟩ := by
  rcases c with ⟨last, - | ⟨t, ts⟩⟩
  · rcases hF.ending with ⟨rfl, -⟩ | ⟨-, brace, ends, rfl, -, -, -, hbyte⟩
    · rfl
    · have hend : S.fileEnd ≤ brace.span.start.byte := hF.fileEnd.le.trans hbyte
      show Outcome.taken ⟨if S.fileEnd ≤ brace.span.start.byte then _ else _, _, _⟩ = _
      rw [if_pos hend]
      rfl
  · show Outcome.taken ⟨if S.fileEnd ≤ t.span.start.byte then _ else _, _, _⟩ = _
    rw [hF.fileEnd]
    rfl

section

variable (hF : S.Frames F back)

include hF

theorem takes_invalidExpression :
    TakesIn S F back n invalidExpression Parser.invalidExpression := by
  intro c hn hc
  have hplace : ∀ {span : Span} {next : Cursor},
      choice [boundary,
        ahead (spanOf (satisfy fun k => k.isNewline || k == .mark .comma || k.isCloser)),
        spanOf any] S (c.extend back) = .taken ⟨span, next, []⟩ →
      invalidExpression S (c.extend back) =
        .taken ⟨.null span, next, [⟨.invalidExpression (Parser.name F c), span⟩]⟩ := by
    intro span next h
    have hreport : ∀ fault, report (choice [boundary,
        ahead (spanOf (satisfy fun k => k.isNewline || k == .mark .comma || k.isCloser)),
        spanOf any]) fault S (c.extend back) = .taken ⟨span, next, [⟨fault, span⟩]⟩ :=
      fun _ => bind_silent h
    exact (bind_silent (found_run hF c)).trans (return_taken (hreport _) Expr.null)
  rcases c with ⟨last, - | ⟨t, ts⟩⟩
  · exact ⟨hplace (choice_taken (boundary_end hF last)), List.suffix_rfl⟩
  · have hinside := boundary_inside hc last
    have hread : Parser.invalidExpression F ⟨last, t :: ts⟩ =
        ⟨.null t.span,
          if t.kind.isNewline || t.kind == .mark .comma || t.kind.isCloser then ⟨last, t :: ts⟩
          else ⟨t.span.stop, ts⟩,
          [⟨.invalidExpression (Parser.name F ⟨last, t :: ts⟩), t.span⟩]⟩ := by
      unfold Parser.invalidExpression
      dsimp only [Parser.lookahead_bind, Parser.found_bind, Parser.reportAt_bind,
        Parser.peekKind_bind, Cursor.kind?, List.head?_cons, Option.map_some]
      split <;> rfl
    -- A token that may end the expression is left standing, any other one is taken with the fault.
    split_ifs at hread with hends
    · refine .of_read hread (hplace ((choice_refused hinside).trans ?_)) List.suffix_rfl
      exact choice_taken (ahead_taken (spanOf_taken (satisfy_taken hends)))
    · refine .of_read hread (hplace ((choice_refused hinside).trans ?_)) (List.suffix_cons t ts)
      refine (choice_refused (ahead_refused (spanOf_refused (satisfy_refused ?_)))).trans ?_
      · exact Bool.eq_false_iff.2 hends
      · exact choice_taken (spanOf_taken (satisfy_taken rfl))

/-! ## Steps -/

omit hF in
/-- A rule that takes a token, and the same again behind it. -/
theorem takes_many_cons {r : Rule α} {p : Parser α} {more : Parser (List α)}
    (h : Takes S F back ts r p ⟨last, t :: ts⟩) (hts : S.Inside back ts)
    (hmore : TakesIn S F back ts.length (many r) more) :
    Takes S F back ts (many r) (p >>= fun a => more >>= fun as => pure (a :: as))
      ⟨last, t :: ts⟩ := by
  have hrest := hmore _ h.left.length_le (hts.mono h.left)
  refine ⟨?_, hrest.left.trans h.left⟩
  refine (many_taken h.run ?_ hrest.run).trans ?_
  · simp only [Cursor.extend, List.length_append, List.length_cons]
    have hlength := h.left.length_le
    omega
  · simp only [Parser.bind_run, Parser.pure_run, List.append_nil]

/-- The closer `own`, or what reports that it is missing. -/
theorem takes_markOr {own : Mark} (hown : own ≠ .closeBrace) {r : Rule Unit} {q : Parser Unit}
    (h : TakesIn S F back n r q) :
    TakesIn S F back n (choice [just own, r])
      (Parser.mark own >>= fun found => if found = true then pure () else q) := by
  intro c hn hc
  by_cases hkind : c.kind? = some (.mark own)
  · rcases c with ⟨last, rest⟩
    rcases Cursor.exists_cons_of_kind? hkind with ⟨t, ts, rfl, ht⟩
    have hread : (Parser.mark own >>= fun found => if found = true then pure () else q) F
        ⟨last, t :: ts⟩ = ⟨(), ⟨t.span.stop, ts⟩, []⟩ := by
      rw [Parser.mark_bind, if_pos hkind]
      rfl
    refine ⟨?_, ?_⟩
    · rw [hread]
      exact choice_taken (just_taken ht)
    · rw [hread]
      exact List.suffix_cons t ts
  · refine (h c hn hc).congr ?_ ?_
    · exact (choice_refused (just_extend hF hown hkind)).trans (choice_single _)
    · rw [Parser.mark_bind, if_neg hkind]
      rfl

omit hF in
theorem step_refused (value : Rule Expr) (hdot : t.kind ≠ .mark .dot)
    (hbracket : t.kind ≠ .mark .openBracket) : step value S ⟨last, t :: ts⟩ = .refused := by
  have hattr : ∀ {α : Type} {r : Rule α}, (spanned (just .dot >>= fun _ => r)) S ⟨last, t :: ts⟩ =
      .refused := spanned_refused (bind_refused (just_refused hdot))
  refine (choice_refused (bind_refused hattr)).trans ((choice_refused (bind_refused hattr)).trans ?_)
  exact choice_refused (bind_refused (spanned_refused (bind_refused (just_refused hbracket))))

theorem step_end (value : Rule Expr) (last : Pos) : step value S ⟨last, back⟩ = .refused := by
  rcases hF.ending with ⟨rfl, -⟩ | ⟨-, brace, ends, rfl, hbrace, -⟩
  · rfl
  · refine step_refused value ?_ ?_
    · rw [hbrace]
      nofun
    · rw [hbrace]
      nofun

theorem takes_index (last : Pos) (span : Span) {value : Rule Expr} {p : Parser Expr}
    (hvalue : TakesIn S F back ts.length value p) (hdepth : ts.length < S.depth)
    (hts : S.Inside back ts) :
    Takes S F back ts (step value) (Parser.indexStep p span.start)
      ⟨last, ⟨.mark .openBracket, span⟩ :: ts⟩ := by
  have hread : Parser.indexStep p span.start =
      (do
        Parser.advance
        Parser.newlines
        let key ← p
        Parser.newlines
        Parser.mark .closeBracket >>= fun found =>
          if found = true then pure ()
          else do
            Parser.report .missingIndexBracket
            Parser.move (Cursor.skipToClose .closeBracket)
        return key) >>= fun key => Parser.spanFrom span.start >>= fun s => pure (.index key s) := by
    unfold Parser.indexStep
    simp only [bind_assoc, pure_bind, Parser.ite_bind]
  rw [hread]
  refine Takes.congr ?_ (choice_single _) rfl
  refine takes_spanned ?_ rfl fun _ _ => rfl
  refine takes_behind (just_taken rfl) ?_
  have hclose : TakesIn S F back ts.length
      (discard (report lookahead .missingIndexBracket) >>= fun _ => skipToClose .closeBracket)
      (Parser.report .missingIndexBracket >>= fun _ =>
        Parser.move (Cursor.skipToClose .closeBracket)) :=
    (takes_report hF _).bind fun _ => takes_skipToClose hF _ hdepth
  refine TakesIn.bind (takes_newlines hF) (fun _ => hvalue.bind fun key =>
    (takes_newlines hF).bind fun _ => (takes_markOr hF (by decide) hclose).bind fun _ =>
      takes_pure key) ⟨span.stop, ts⟩ (Nat.le_refl _) hts

theorem takes_steps {value : Rule Expr} (hdepth : n < S.depth)
    (hvalue : ∀ i < n, ∀ {d}, 2 * i + 1 ≤ d → TakesIn S F back i value (Parser.value d))
    (hd : 2 * n + 1 ≤ d) : TakesIn S F back n (many (step value)) (Parser.steps d) := by
  -- On the tokens left, which every step shortens.
  induction n using Nat.strong_induction_on generalizing d with
  | h n ih =>
    obtain ⟨d, rfl⟩ := Nat.exists_eq_succ_of_ne_zero (Nat.ne_zero_of_lt hd)
    intro c hn hc
    -- Where no step can be read the path is over, on both sides.
    have hnone : step value S (c.extend back) = .refused → Parser.steps (d + 1) F c = ⟨[], c, []⟩ →
        Takes S F back c.rest (many (step value)) (Parser.steps (d + 1)) c :=
      fun hrefused hread => .of_read hread (many_refused hrefused) List.suffix_rfl
    rcases c with ⟨last, - | ⟨⟨kind, span⟩, ts⟩⟩
    · exact hnone (step_end hF value last) rfl
    · have hlt : ts.length < n := hn
      have hbehind := hc.mono (List.suffix_cons _ ts)
      have hmore : TakesIn S F back ts.length (many (step value)) (Parser.steps d) :=
        ih _ hlt (hlt.trans hdepth) (fun i hi => hvalue i (hi.trans hlt)) (by omega)
      cases kind with
      | mark m =>
        cases m with
        | dot =>
          rcases ts with - | ⟨⟨kind, keySpan⟩, us⟩
          · refine hnone ?_ rfl
            rcases hF.ending with ⟨rfl, -⟩ | ⟨-, ⟨kind, brace⟩, ends, rfl, hbrace, -⟩
            · rfl
            · cases hbrace
              rfl
          · have hstep : ∀ a : Step, step value S ⟨last, ⟨.mark .dot, span⟩ :: ⟨kind, keySpan⟩ :: us ++ back⟩ =
                .taken ⟨a, ⟨keySpan.stop, us ++ back⟩, []⟩ →
                Takes S F back (⟨kind, keySpan⟩ :: us) (step value) (fun _ _ => ⟨a, ⟨keySpan.stop, us⟩, []⟩)
                  ⟨last, ⟨.mark .dot, span⟩ :: ⟨kind, keySpan⟩ :: us⟩ :=
              fun a h => ⟨h, List.suffix_cons _ us⟩
            cases kind with
            | ident name =>
              have hcons := takes_many_cons (hstep (.attr name ⟨span.start, keySpan.stop⟩) rfl) hbehind hmore
              exact (hcons.mono (List.suffix_cons _ _)).congr rfl rfl
            | number text =>
              have hcons := takes_many_cons
                (hstep (.index (.number text keySpan) ⟨span.start, keySpan.stop⟩) rfl) hbehind hmore
              exact (hcons.mono (List.suffix_cons _ _)).congr rfl rfl
            | _ => exact hnone rfl rfl
        | openBracket =>
          have hindex := takes_index hF last span (hvalue ts.length hlt (d := d) (by omega))
            (hlt.trans hdepth) hbehind
          have hcons := takes_many_cons hindex hbehind hmore
          refine (hcons.mono (List.suffix_cons _ ts)).congr rfl rfl
        | _ => exact hnone rfl rfl
      | _ => exact hnone rfl rfl

/-! ## Traversals and keys -/

/-- A dot that no name follows. -/
theorem takes_dangling (fault : SyntaxFault) :
    TakesIn S F back n
      (discard (optional do
        just .dot
        report lookahead fault))
      (Parser.mark .dot >>= fun found =>
        if found = true then Parser.report fault else pure ()) := by
  intro c hn hc
  by_cases hkind : c.kind? = some (.mark .dot)
  · rcases c with ⟨last, rest⟩
    rcases Cursor.exists_cons_of_kind? hkind with ⟨t, ts, rfl, ht⟩
    have hread := Parser.mark_bind (F := F) (c := ⟨last, t :: ts⟩) .dot fun found =>
      if found = true then Parser.report fault else pure ()
    rw [if_pos hkind] at hread
    -- The dot is taken, and the fault is placed at the token behind it.
    have htaken : (just .dot >>= fun _ => report lookahead fault) S ⟨last, t :: ts ++ back⟩ =
        .taken ⟨_, (⟨t.span.stop, ts⟩ : Cursor).extend back, _⟩ :=
      (bind_silent (just_taken ht)).trans
        (report_run hF fault (c := ⟨t.span.stop, ts⟩) (hc.mono (List.suffix_cons t ts)))
    exact .of_read hread (discard_taken (optional_taken htaken)) (List.suffix_cons t ts)
  · have hread := Parser.mark_bind (F := F) (c := c) .dot fun found =>
      if found = true then Parser.report fault else pure ()
    rw [if_neg hkind] at hread
    refine .of_read hread ?_ List.suffix_rfl
    exact discard_taken (optional_refused (bind_refused (just_extend hF (by decide) hkind)))

omit hF in
theorem ident_run (name : String) (span : Span) :
    ident S ⟨last, ⟨.ident name, span⟩ :: ts⟩ = .taken ⟨(name, span), ⟨span.stop, ts⟩, []⟩ := rfl

theorem takes_traversal (last : Pos) (root : String) (rootSpan : Span) {value : Rule Expr}
    {more : Parser (List Step)} (hmore : TakesIn S F back ts.length (many (step value)) more)
    (hts : S.Inside back ts) :
    Takes S F back ts (traversal value) (Parser.traversal more root rootSpan)
      ⟨last, ⟨.ident root, rootSpan⟩ :: ts⟩ := by
  have hread : Parser.traversal more root rootSpan =
      (do
        Parser.advance
        let steps ← more
        Parser.mark .dot >>= fun found =>
          if found = true then Parser.report .invalidAttributeName else pure ()
        return ((root, rootSpan), steps)) >>= fun x => Parser.spanFrom rootSpan.start >>= fun s =>
          pure (.mk x.1.1 x.1.2 x.2 s) := by
    unfold Parser.traversal
    simp only [bind_assoc, pure_bind, Parser.ite_bind]
  rw [hread]
  refine takes_spanned ?_ rfl fun _ _ => rfl
  refine takes_behind (ident_run root rootSpan) ?_
  exact TakesIn.bind hmore (fun steps => (takes_dangling hF _).bind fun _ =>
    takes_pure ((root, rootSpan), steps)) ⟨rootSpan.stop, ts⟩ (Nat.le_refl _) hts

/-! ## Lists -/

theorem comma_taken {c : Cursor} (hc : S.Inside back c.rest)
    (hkind : c.skipNewlines.kind? = some (.mark .comma)) :
    comma S (c.extend back) =
      .taken ⟨(), c.skipNewlines.advance.skipNewlines.extend back, []⟩ := by
  have hskip := Cursor.skipNewlines_suffix c
  refine (bind_silent (takes_newlines hF c (Nat.le_refl _) hc).run).trans ?_
  show (just .comma >>= fun _ => newlines) S (c.skipNewlines.extend back) = _
  generalize c.skipNewlines = c at hkind hskip ⊢
  rcases c with ⟨last, rest⟩
  rcases Cursor.exists_cons_of_kind? hkind with ⟨t, ts, rfl, ht⟩
  have hbehind := hc.mono ((List.suffix_cons t ts).trans hskip)
  exact (bind_silent (just_taken ht)).trans
    (takes_newlines hF ⟨t.span.stop, ts⟩ (Nat.le_refl _) hbehind).run

theorem comma_refused {c : Cursor} (hc : S.Inside back c.rest)
    (hkind : c.skipNewlines.kind? ≠ some (.mark .comma)) : comma S (c.extend back) = .refused :=
  (bind_silent (takes_newlines hF c (Nat.le_refl _) hc).run).trans
    (bind_refused (just_extend hF (by decide) hkind))

/-- A list ends at the end and at any closer. -/
theorem listItem_refused (value : Rule Expr) {c : Cursor}
    (h : ∀ k, c.kind? = some k → k.isCloser = true) : listItem value S (c.extend back) = .refused := by
  rcases c with ⟨last, - | ⟨t, ts⟩⟩
  · rcases hF.ending with ⟨rfl, -⟩ | ⟨-, brace, ends, rfl, hbrace, -⟩
    · rfl
    · have hcloser : brace.kind.isCloser = true := by
        rw [hbrace]
        rfl
      exact bind_refused (absent_taken (choice_taken (satisfy_taken hcloser)))
  · exact bind_refused (absent_taken (choice_taken (satisfy_taken (h t.kind rfl))))

omit hF in
theorem listItem_run (value : Rule Expr) (h : t.kind.isCloser = false) :
    listItem value S ⟨last, t :: ts⟩ = value S ⟨last, t :: ts⟩ := by
  refine bind_silent (absent_refused ((choice_refused (satisfy_refused h)).trans ?_))
  exact choice_refused (discard_refused (ending_refused (List.cons_ne_nil _ _)))

omit hF in
theorem elements_end {c : Cursor} (h : ∀ k, c.kind? = some k → k.isCloser = true) :
    Parser.elements (d + 1) F c = ⟨[], c, []⟩ := by
  rw [Parser.elements, Parser.peekKind_bind]
  cases hkind : c.kind? with
  | none => rfl
  | some k =>
    dsimp only
    rw [if_pos (h k hkind)]
    rfl

omit hF in
/-- An item, and the items behind a comma, if there is one. -/
theorem elements_cons (h : t.kind.isCloser = false) :
    Parser.elements (d + 1) F ⟨last, t :: ts⟩ =
      (do
        let item ← Parser.value d
        let rest ← Parser.comma >>= fun found =>
          if found = true then Parser.elements d else pure []
        return item :: rest) F ⟨last, t :: ts⟩ := by
  rw [Parser.elements, Parser.peekKind_bind]
  dsimp only [Cursor.kind?, List.head?_cons, Option.map_some]
  rw [if_neg (Bool.eq_false_iff.1 h)]
  simp only [bind_assoc, pure_bind, Parser.ite_bind]

/-- The items of a list behind the first one. -/
theorem takes_listTail {value : Rule Expr}
    (hvalue : ∀ i < n, ∀ {d}, 2 * i + 1 ≤ d → TakesIn S F back i value (Parser.value d))
    (hd : 2 * n ≤ d) :
    TakesIn S F back n
      (do
        let rest ← many (do
          discard comma
          listItem value)
        discard (optional comma)
        return rest)
      (Parser.comma >>= fun found => if found = true then Parser.elements d else pure []) := by
  induction n using Nat.strong_induction_on generalizing d with
  | h n ih =>
    intro c hn hc
    have hread := Parser.comma_bind (F := F) (c := c)
      fun found => if found = true then Parser.elements d else pure []
    by_cases hkind : c.skipNewlines.kind? = some (.mark .comma)
    · rw [if_pos hkind, if_pos rfl] at hread
      have hcomma := comma_taken hF hc hkind
      have hsuffix : c.skipNewlines.advance.skipNewlines.rest <:+ c.rest :=
        (Cursor.skipNewlines_suffix _).trans
          ((Cursor.advance_suffix _).trans (Cursor.skipNewlines_suffix c))
      have hshort : c.skipNewlines.advance.skipNewlines.rest.length < c.rest.length := by
        have htaken := Cursor.advance_length_lt hkind
        have hfront := (Cursor.skipNewlines_suffix c).length_le
        have hback := (Cursor.skipNewlines_suffix c.skipNewlines.advance).length_le
        omega
      obtain ⟨d, rfl⟩ := Nat.exists_eq_succ_of_ne_zero (by omega : d ≠ 0)
      generalize c.skipNewlines.advance.skipNewlines = behind at hread hcomma hsuffix hshort
      rcases behind.kind_cases (·.isCloser = true) with hend | ⟨last, t, ts, rfl, hcloser⟩
      · -- The comma is the last one of the list.
        rw [elements_end hend] at hread
        refine .of_read hread ?_ hsuffix
        have hitem := bind_taken_refused (f := fun _ => listItem value) (discard_taken hcomma)
          (listItem_refused hF value hend)
        refine (bind_silent (many_refused hitem)).trans ?_
        exact bind_silent (discard_taken (optional_taken hcomma))
      · have hcloser := Bool.eq_false_iff.2 hcloser
        have hlt : (t :: ts).length < n := hshort.trans_le hn
        rw [elements_cons hcloser] at hread
        have hitem := hvalue (t :: ts).length hlt (d := d) (by omega) ⟨last, t :: ts⟩
          (Nat.le_refl _) (hc.mono hsuffix)
        have hrest := ih (t :: ts).length hlt (fun i hi => hvalue i (hi.trans hlt)) (d := d)
          (by omega) _ hitem.left.length_le (hc.mono (hitem.left.trans hsuffix))
        have hfirst : (discard comma >>= fun _ => listItem value) S (c.extend back) =
            .taken ⟨_, Cursor.extend back _, _⟩ :=
          (bind_silent (discard_taken hcomma)).trans ((listItem_run value hcloser).trans hitem.run)
        refine .of_read hread ?_ ((hrest.left.trans hitem.left).trans hsuffix)
        let g : List Expr → List Expr := ((Parser.value d F ⟨last, t :: ts⟩).value :: ·)
        refine (many_bind_taken (g := g) hfirst ?_ (fun as c z h => ?_) hrest.run).trans ?_
        · have hnext := hitem.left.length_le
          simp only [Cursor.extend, List.length_append]
          exact Nat.add_lt_add_right (hnext.trans_lt hshort) _
        · exact bind_pure_taken g h
        · simp only [Parser.bind_run, Parser.pure_run, List.append_nil]
          rfl
    · rw [if_neg hkind] at hread
      have hcomma := comma_refused hF hc hkind
      refine .of_read hread ?_ List.suffix_rfl
      refine (bind_silent (many_refused (bind_refused (discard_refused hcomma)))).trans ?_
      exact bind_silent (discard_taken (optional_refused hcomma))

theorem takes_elements {value : Rule Expr}
    (hvalue : ∀ i ≤ n, ∀ {d}, 2 * i + 1 ≤ d → TakesIn S F back i value (Parser.value d))
    (hd : 2 * n + 2 ≤ d) :
    TakesIn S F back n (separated (listItem value) comma) (Parser.elements d) := by
  intro c hn hc
  obtain ⟨d, rfl⟩ := Nat.exists_eq_succ_of_ne_zero (by omega : d ≠ 0)
  -- Either a closer ends the list, or there is a first item and a tail behind it.
  rcases c.kind_cases (·.isCloser = true) with hend | ⟨last, t, ts, rfl, hcloser⟩
  · refine .of_read (elements_end hend) ?_ List.suffix_rfl
    exact choice_refused (bind_refused (listItem_refused hF value hend))
  · have hcloser := Bool.eq_false_iff.2 hcloser
    have htail := takes_listTail hF (fun i hi => hvalue i hi.le) (d := d) (by omega)
    have hitems : Takes S F back (t :: ts)
        (value >>= fun first => (do
          let rest ← many (do
            discard comma
            listItem value)
          discard (optional comma)
          return rest) >>= fun rest => pure (first :: rest))
        (Parser.value d >>= fun item =>
          (Parser.comma >>= fun found => if found = true then Parser.elements d else pure []) >>=
            fun rest => pure (item :: rest)) ⟨last, t :: ts⟩ :=
      (hvalue n (Nat.le_refl n) (d := d) (by omega)).bind
        (fun item => htail.bind fun rest => takes_pure (item :: rest)) ⟨last, t :: ts⟩ hn hc
    simp only [bind_assoc, pure_bind] at hitems
    have hfirst := (bind_congr_at (listItem_run value hcloser)).trans hitems.run
    refine .of_read (elements_cons hcloser) ?_ hitems.left
    simp only [bind_assoc]
    exact choice_taken hfirst

theorem takes_commaList {value : Rule Expr}
    (hvalue : ∀ i ≤ n, ∀ {d}, 2 * i + 1 ≤ d → TakesIn S F back i value (Parser.value d))
    (hd : 2 * n + 2 ≤ d) (hdepth : n < S.depth) (own : Mark) (missing : SyntaxFault) :
    TakesIn S F back n (commaList value own missing)
      (Parser.delimited (Parser.elements d) own missing) :=
  (takes_newlines hF).bind fun _ => (takes_elements hF hvalue hd).bind fun items =>
    (takes_newlines hF).bind fun _ => (takes_close hF own missing hdepth).bind fun closing =>
      takes_pure (items, closing)

omit hF in
/-- What is reported if a construct has no closer. -/
theorem takes_unclosed (closing : Closing) (fault : SyntaxFault) (opener : Span) (a : α) :
    TakesIn S F back n
      (if closing = .unclosed then do
        emit fault opener
        return a
      else return a)
      (if closing = .unclosed then do
        Parser.reportAt opener fault
        return a
      else return a) := by
  intro c _ _
  split
  · exact ⟨rfl, List.suffix_rfl⟩
  · exact ⟨rfl, List.suffix_rfl⟩

/-! ## Forms -/

omit hF in
theorem takes_tuple (last : Pos) (span : Span) {value : Rule Expr} {items : Parser (List Expr)}
    (hitems : TakesIn S F back ts.length (commaList value .closeBracket .missingItemSeparator)
      (Parser.delimited items .closeBracket .missingItemSeparator)) (hts : S.Inside back ts) :
    Takes S F back ts (tuple value)
      (do
        Parser.advance
        let x ← Parser.delimited items .closeBracket .missingItemSeparator
        if x.2 = .unclosed then do
          Parser.reportAt span .unclosedTuple
          return Expr.tuple x.1
        else return Expr.tuple x.1) ⟨last, ⟨.mark .openBracket, span⟩ :: ts⟩ := by
  refine takes_behind (spanOf_taken (just_taken rfl)) ?_
  exact TakesIn.bind hitems (fun x => takes_unclosed x.2 _ span (Expr.tuple x.1))
    ⟨span.stop, ts⟩ (Nat.le_refl _) hts

theorem takes_path (last : Pos) (root : String) (rootSpan : Span) {value : Rule Expr}
    {more : Parser (List Step)}
    (hmore : TakesIn S F back ts.length (many (step value)) more) (hts : S.Inside back ts) :
    Takes S F back ts (path value)
      (do
        let path ← Parser.traversal more root rootSpan
        return fun _ : Span => Expr.traversal path) ⟨last, ⟨.ident root, rootSpan⟩ :: ts⟩ :=
  (takes_traversal hF last root rootSpan hmore hts).bind (Nat.le_refl _) hts fun path =>
    takes_pure fun _ => Expr.traversal path

omit hF in
theorem takes_negate (last : Pos) (span : Span) {value : Rule Expr} {operand : Parser Expr}
    (hvalue : TakesIn S F back ts.length value operand) (hts : S.Inside back ts) :
    Takes S F back ts (negate value)
      (do
        Parser.advance
        let e ← operand
        return Expr.negate e) ⟨last, ⟨.mark .minus, span⟩ :: ts⟩ := by
  refine takes_behind (just_taken rfl) ?_
  exact TakesIn.bind hvalue (fun e => takes_pure (Expr.negate e)) ⟨span.stop, ts⟩ (Nat.le_refl _) hts

omit hF in
theorem takes_call (last : Pos) (name : String) (span openerSpan : Span) {value : Rule Expr}
    {items : Parser (List Expr)}
    (hitems : TakesIn S F back ts.length (commaList value .closeParen .missingArgumentSeparator)
      (Parser.delimited items .closeParen .missingArgumentSeparator)) (hts : S.Inside back ts) :
    Takes S F back ts (call value)
      (do
        Parser.advance
        Parser.advance
        let x ← Parser.delimited items .closeParen .missingArgumentSeparator
        if x.2 = .unclosed then do
          Parser.reportAt openerSpan .unclosedCall
          return Expr.call name x.1
        else return Expr.call name x.1)
      ⟨last, ⟨.ident name, span⟩ :: ⟨.mark .openParen, openerSpan⟩ :: ts⟩ := by
  refine takes_behind (ident_run name span) (takes_behind (spanOf_taken (just_taken rfl)) ?_)
  exact TakesIn.bind hitems (fun x => takes_unclosed x.2 _ openerSpan (Expr.call name x.1))
    ⟨openerSpan.stop, ts⟩ (Nat.le_refl _) hts

omit hF in
theorem takes_object (last : Pos) (span : Span) {expr value : Rule Expr}
    {items : Parser (List Entry × Closing)}
    (hitems : TakesIn S F back ts.length (entries expr value) items) (hts : S.Inside back ts) :
    Takes S F back ts (object expr value)
      (do
        Parser.advance
        let x ← items
        if x.2 = .unclosed then do
          Parser.reportAt span .unclosedObject
          return Expr.object x.1
        else return Expr.object x.1) ⟨last, ⟨.mark .openBrace, span⟩ :: ts⟩ := by
  refine takes_behind (spanOf_taken (just_taken rfl)) ?_
  exact TakesIn.bind hitems (fun x => takes_unclosed x.2 _ span (Expr.object x.1))
    ⟨span.stop, ts⟩ (Nat.le_refl _) hts

/-- The closing parenthesis, or what reports that it is missing. -/
theorem takes_closeParens (hdepth : n < S.depth) :
    TakesIn S F back n
      (choice [
        just .closeParen,
        do
          discard (report lookahead .unbalancedParentheses)
          choice [
            discard boundary,
            ahead (satisfy fun k => k == .mark .closeBrace || k == .mark .closeBracket),
            skipToClose .closeParen]]) Parser.closeParens := by
  refine takes_markOr hF (by decide) ((takes_report hF _).bind fun _ => ?_)
  intro c hn hc
  rcases c with ⟨last, - | ⟨t, ts⟩⟩
  · exact .of_read rfl (choice_taken (discard_taken (boundary_end hF last))) List.suffix_rfl
  · have hinside := discard_refused (boundary_inside hc last)
    by_cases hstop : (t.kind == .mark .closeBrace || t.kind == .mark .closeBracket) = true
    · have hstay : ahead (satisfy fun k => k == .mark .closeBrace || k == .mark .closeBracket) S
          ⟨last, t :: ts ++ back⟩ = .taken ⟨(), ⟨last, t :: ts ++ back⟩, []⟩ :=
        ahead_taken (satisfy_taken hstop)
      refine .of_read (x := ⟨(), ⟨last, t :: ts⟩, []⟩) ?_
        ((choice_refused hinside).trans (choice_taken hstay)) List.suffix_rfl
      have hkind : t.kind = .mark .closeBrace ∨ t.kind = .mark .closeBracket := by
        simpa using hstop
      rcases t with ⟨kind, span⟩
      rcases hkind with rfl | rfl <;> rfl
    · -- Inside a group the recovery runs to the missing closer.
      have hskip := takes_skipToClose hF .closeParen hdepth ⟨last, t :: ts⟩ hn hc
      refine hskip.congr ((choice_refused hinside).trans ?_) ?_
      · refine (choice_refused (ahead_refused (satisfy_refused ?_))).trans (choice_single _)
        exact Bool.eq_false_iff.2 hstop
      · rcases t with ⟨kind, span⟩
        cases kind with
        | mark m =>
          cases m with
          | closeBrace => exact absurd rfl hstop
          | closeBracket => exact absurd rfl hstop
          | _ => rfl
        | _ => rfl

theorem takes_parens (last : Pos) (span : Span) {value : Rule Expr} {inner : Parser Expr}
    (hvalue : TakesIn S F back ts.length value inner) (hdepth : ts.length < S.depth)
    (hts : S.Inside back ts) :
    Takes S F back ts (parens value)
      (do
        Parser.advance
        Parser.newlines
        let e ← inner
        Parser.newlines
        Parser.closeParens
        return Expr.parens e) ⟨last, ⟨.mark .openParen, span⟩ :: ts⟩ := by
  refine takes_behind (just_taken rfl) ?_
  exact TakesIn.bind (takes_newlines hF) (fun _ => hvalue.bind fun e =>
    (takes_newlines hF).bind fun _ => (takes_closeParens hF hdepth).bind fun _ =>
      takes_pure (Expr.parens e)) ⟨span.stop, ts⟩ (Nat.le_refl _) hts

end

end Rule

end Overlay.Hcl
