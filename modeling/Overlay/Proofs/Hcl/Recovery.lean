import Overlay.Proofs.Hcl.Container
import Overlay.Proofs.Hcl.Moving
import Overlay.Proofs.Hcl.Tracing

/-!
# Recovery

Bodies, containers and lone expressions are read to their end, whatever stands in them.

* Items and assignments take the token that they start with, so depth for every token is enough
  (`moves_itemOf`, `moves_topItems`, `moves_assignments`), and nothing is left (`topItems_rest`,
  `assignments_rest`).
-/

namespace Overlay.Hcl

namespace Parser

variable {α β γ δ : Type} {g : Pos → Pos} {F F' : Frame} {n d d' : Nat} {c : Cursor} {last : Pos}
  {t : Token} {ts : List Token}

/-! ## Items -/

theorem labelsFrom_map (last : Pos) (ts : List Token) :
    labelsFrom (g last) (ts.map (Token.mapSpan (Span.map g))) =
      ⟨(labelsFrom last ts).value.map (Label.mapSpan (Span.map g)),
        (labelsFrom last ts).next.map g, []⟩ := by
  induction ts generalizing last with
  | nil => rfl
  | cons t ts ih =>
    rcases t with ⟨kind, span⟩
    have hrest := ih span.stop
    cases kind with
    | str text =>
      unfold labelsFrom
      exact congrArg (fun x : Parsed (List Label) =>
        (⟨⟨text, span.map g⟩ :: x.value, x.next, []⟩ : Parsed (List Label))) hrest
    | ident text =>
      unfold labelsFrom
      exact congrArg (fun x : Parsed (List Label) =>
        (⟨⟨text, span.map g⟩ :: x.value, x.next, []⟩ : Parsed (List Label))) hrest
    | _ => rfl

theorem labelsFrom_suffix (last : Pos) (ts : List Token) :
    (labelsFrom last ts).next.rest <:+ ts := by
  induction ts generalizing last with
  | nil => exact List.suffix_rfl
  | cons t ts ih =>
    unfold labelsFrom
    split
    · exact (ih _).trans (List.suffix_cons t ts)
    · exact (ih _).trans (List.suffix_cons t ts)
    · exact List.suffix_rfl

theorem labelsFrom_faults (last : Pos) (ts : List Token) : (labelsFrom last ts).faults = [] := by
  unfold labelsFrom
  split
  · rfl
  · split <;> rfl

theorem moves_labels :
    MovesIn g F F' n (List.map (Label.mapSpan (Span.map g))) labels labels := by
  intro c hc
  have hfaults : (labels F c).faults = [] := labelsFrom_faults c.last c.rest
  refine ⟨?_, (labelsFrom_suffix c.last c.rest).length_le.trans hc, ?_⟩
  · rw [hfaults]
    exact labelsFrom_map c.last c.rest
  · rw [hfaults]
    exact fun _ h => absurd h List.not_mem_nil

section

variable (hF : F.Moves g F')

include hF

theorem moves_attributeBody {name : String} {span : Span} :
    MovesIn g F F' n (Item.mapSpans (Span.map g)) (attributeBody name span)
      (attributeBody name (span.map g)) :=
  moves_advance.bind fun _ => (moves_expression hF).bind fun e => (moves_endOfItem hF).bind fun _ =>
    moves_pure _ (Item.attr ⟨name, span, e⟩)

theorem moves_blockBody {items items' : Parser (List Item)} {h : Header}
    (hitems : MovesIn g F F' n (List.map (Item.mapSpans (Span.map g))) items items') :
    MovesIn g F F' n (Item.mapSpans (Span.map g)) (blockBody items h)
      (blockBody items' (h.mapSpans (Span.map g))) := by
  refine (moves_lookahead hF).bind fun opener => moves_advance.bind fun _ => hitems.bind fun inner =>
    moves_newlines.bind fun _ => moves_mark _ fun closed => (moves_spanFrom _).bind fun bodySpan =>
      (moves_spanFrom _).bind fun span => ?_
  have hend : MovesIn g F F' n (Item.mapSpans (Span.map g))
      (endOfItem >>= fun _ => pure (.block h inner bodySpan span))
      (endOfItem >>= fun _ => pure (.block (h.mapSpans (Span.map g))
        (inner.map (Item.mapSpans (Span.map g))) (bodySpan.map g) (span.map g))) := by
    rw [← Item.each_eq_map]
    exact (moves_endOfItem hF).bind fun _ => moves_pure _ (Item.block h inner bodySpan span)
  cases closed with
  | true => exact hend
  | false => exact (moves_reportAt opener rfl).bind fun _ => hend

theorem moves_skipItem (fault : SyntaxFault) (hfault : fault.isExpected = true) :
    MovesIn g F F' n (Option.map (Item.mapSpans (Span.map g))) (skipItem fault) (skipItem fault) :=
  (moves_report hF hfault).bind fun _ => moves_recoverLine.bind fun _ => moves_pure _ none

/-- A malformed item is skipped through its first token. -/
theorem moves_skipItem_first (fault : SyntaxFault) (hfault : fault.isExpected = true) :
    Moves g F F' ts.length (Option.map (Item.mapSpans (Span.map g))) (skipItem fault)
      (skipItem fault) ⟨last, t :: ts⟩ := by
  have hskip := moves_skipItem hF fault hfault ⟨last, t :: ts⟩ (Nat.le_refl _)
  exact ⟨hskip.run, Cursor.recoverLine_length ⟨last, t :: ts⟩, hskip.expected⟩

/-- An item takes the token that it starts with. -/
theorem moves_itemOf {items items' : Parser (List Item)}
    (hitems : MovesIn g F F' ts.length (List.map (Item.mapSpans (Span.map g))) items items') :
    Moves g F F' ts.length (Option.map (Item.mapSpans (Span.map g))) (itemOf items)
      (itemOf items') ⟨last, t :: ts⟩ := by
  rcases t with ⟨kind, span⟩
  unfold itemOf
  refine moves_peek ?_
  cases kind with
  | ident name =>
    refine moves_behind (moves_atMark _ fun found => ?_)
    cases found with
    | true => exact (moves_attributeBody hF).bind fun x => moves_pure _ (some x)
    | false =>
      refine moves_labels.bind fun labels => moves_atMark _ fun found => ?_
      cases found with
      | true =>
        exact (moves_blockBody hF (h := ⟨name, span, labels⟩) hitems).bind fun x =>
          moves_pure _ (some x)
      | false =>
        -- The fault reported hangs on whether there are labels, and a shift keeps their number.
        have hempty : (labels.map (Label.mapSpan (Span.map g))).isEmpty = labels.isEmpty :=
          List.isEmpty_map
        simp only [hempty]
        cases labels.isEmpty with
        | true => exact moves_skipItem hF .invalidDefinition rfl
        | false => exact moves_skipItem hF .invalidBlock rfl
  | _ => exact moves_skipItem_first hF .definitionRequired rfl

/-- A token that is reported and taken. -/
theorem moves_reportBehind {γ δ : Type} {m : γ → δ} {fault : SyntaxFault}
    (hfault : fault.isExpected = true) {p : Parser γ} {q : Parser δ}
    (hp : MovesIn g F F' ts.length m p q) :
    Moves g F F' ts.length m (report fault >>= fun _ => advance >>= fun _ => p)
      (report fault >>= fun _ => advance >>= fun _ => q) ⟨last, t :: ts⟩ :=
  (moves_report hF hfault ⟨last, t :: ts⟩ (Nat.le_refl _)).bindAt (moves_behind hp)

/-- Items, the first of which takes a token. -/
theorem moves_cons {items items' more more' : Parser (List Item)}
    (hitems : MovesIn g F F' ts.length (List.map (Item.mapSpans (Span.map g))) items items')
    (hmore : MovesIn g F F' ts.length (List.map (Item.mapSpans (Span.map g))) more more') :
    Moves g F F' ts.length (List.map (Item.mapSpans (Span.map g)))
      (do
        let item ← itemOf items
        return item.toList ++ (← more))
      (do
        let item ← itemOf items'
        return item.toList ++ (← more')) ⟨last, t :: ts⟩ := by
  refine (moves_itemOf hF hitems).bind fun item => hmore.bind fun rest => ?_
  have happend : (item.map (Item.mapSpans (Span.map g))).toList ++
      rest.map (Item.mapSpans (Span.map g)) =
        (item.toList ++ rest).map (Item.mapSpans (Span.map g)) := by
    cases item <;> rfl
  rw [happend]
  exact moves_pure _ (item.toList ++ rest)

/-- The items of a block are read alike with any two depths above the number of tokens. -/
theorem moves_items (hd : n + 1 ≤ d) (hd' : n + 1 ≤ d') :
    MovesIn g F F' n (List.map (Item.mapSpans (Span.map g))) (items d) (items d') := by
  induction n using Nat.strong_induction_on generalizing d d' with
  | h n ih =>
    refine movesIn_depths (fun d d' hd hd' => ?_) hd hd'
    unfold items
    have hnone : MovesIn g F F' n (List.map (Item.mapSpans (Span.map g))) (pure []) (pure []) :=
      moves_pure _ []
    refine moves_behindNewlines fun last rest hrest => ?_
    rcases rest with - | ⟨⟨kind, span⟩, ts⟩
    · exact moves_peekKind_bind (hnone _ hrest)
    · have hlt : ts.length < n := hrest
      have hmore := ih _ hlt (Nat.lt_of_lt_of_le hlt hd) (Nat.lt_of_lt_of_le hlt hd')
      have hcons := (@moves_cons g F F' last ⟨kind, span⟩ ts hF _ _ _ _ hmore hmore).mono hlt.le
      refine moves_peekKind_bind ?_
      cases kind with
      | mark mk =>
        cases mk with
        | closeBrace => exact hnone _ hrest
        | _ => exact hcons
      | _ => exact hcons

/-- The items of a whole text are read alike with any two depths above the number of tokens. -/
theorem moves_topItems (hd : n + 1 ≤ d) (hd' : n + 1 ≤ d') :
    MovesIn g F F' n (List.map (Item.mapSpans (Span.map g))) (topItems d) (topItems d') := by
  induction n using Nat.strong_induction_on generalizing d d' with
  | h n ih =>
    refine movesIn_depths (fun d d' hd hd' => ?_) hd hd'
    unfold topItems
    have hnone : MovesIn g F F' n (List.map (Item.mapSpans (Span.map g))) (pure []) (pure []) :=
      moves_pure _ []
    refine moves_behindNewlines fun last rest hrest => ?_
    rcases rest with - | ⟨⟨kind, span⟩, ts⟩
    · exact moves_peekKind_bind (hnone _ hrest)
    · have hlt : ts.length < n := hrest
      have hmore := ih _ hlt (Nat.lt_of_lt_of_le hlt hd) (Nat.lt_of_lt_of_le hlt hd')
      have hinner := moves_items hF (Nat.lt_of_lt_of_le hlt hd) (Nat.lt_of_lt_of_le hlt hd')
      have hcons := (@moves_cons g F F' last ⟨kind, span⟩ ts hF _ _ _ _ hinner hmore).mono hlt.le
      refine moves_peekKind_bind ?_
      cases kind with
      | mark mk =>
        cases mk with
        | closeBrace =>
          exact (moves_reportBehind hF rfl hmore).mono hlt.le
        | _ => exact hcons
      | _ => exact hcons

/-! ## Assignments -/

/-- The assignments of a container are read alike with any two depths above the number of tokens. -/
theorem moves_assignments (hd : n + 1 ≤ d) (hd' : n + 1 ≤ d') :
    MovesIn g F F' n (mapEntries (Span.map g)) (assignments d) (assignments d') := by
  -- On the tokens left: a recovered line may drop several at once.
  induction n using Nat.strong_induction_on generalizing d d' with
  | h n ih =>
    refine movesIn_depths (fun d d' hd hd' => ?_) hd hd'
    unfold assignments
    refine moves_behindNewlines fun last rest hrest => ?_
    rcases rest with - | ⟨⟨kind, span⟩, ts⟩
    · exact moves_peekKind_bind (moves_pure _ [] _ hrest)
    · have hmore : ∀ i < n, MovesIn g F F' i (mapEntries (Span.map g)) (assignments d)
          (assignments d') :=
        fun i hi => ih i hi (Nat.lt_of_lt_of_le hi hd) (Nat.lt_of_lt_of_le hi hd')
      have hlt : ts.length < n := hrest
      -- Skipping to the end of a faulty line takes at least its first token.
      have hline : MovesIn g F F' n (mapEntries (Span.map g))
          (move Cursor.recoverLine >>= fun _ => assignments d)
          (move Cursor.recoverLine >>= fun _ => assignments d') :=
        moves_behindLine (hmore (n - 1) (by omega))
      refine moves_peekKind_bind ?_
      dsimp only [Cursor.kind?, List.head?_cons, Option.map_some]
      split
      · refine (moves_entryKey hF _ hrest).bind fun key => moves_markBehind _ (fun i hi => ?_) ?_
        · exact (moves_expression hF).bind fun e => (moves_endOfItem hF).bind fun _ =>
            (hmore i hi).bind fun rest => moves_pure _ (.mk key e :: rest)
        · exact (moves_report hF rfl).bind fun _ => hline
      · split
        · exact (moves_reportBehind hF rfl (hmore _ hlt)).mono hlt.le
        · exact ((moves_report hF rfl).bind fun _ => hline) _ hrest

end

/-! ## Nothing is left -/

/-- Nothing is left behind the items of a whole text. -/
theorem topItems_rest (hd : c.rest.length < d) : (topItems d F c).next.rest = [] := by
  induction d generalizing c with
  | zero => exact absurd hd (Nat.not_lt_zero _)
  | succ d ih =>
    have hskip := (Cursor.skipNewlines_suffix c).length_le
    unfold topItems
    rw [newlines_bind, peekKind_bind]
    generalize c.skipNewlines = behind at hskip ⊢
    rcases behind with ⟨last, - | ⟨⟨kind, span⟩, ts⟩⟩
    · rfl
    · have hlt : ts.length < d := by
        rw [List.length_cons] at hskip
        omega
      have hitems : MovesIn id F F ts.length (List.map (Item.mapSpans (Span.map id))) (items d)
          (items d) := moves_items (Frame.Moves.refl F) hlt hlt
      have hitem := (@moves_itemOf id F F last ⟨kind, span⟩ ts (Frame.Moves.refl F) _ _ hitems).left
      cases kind with
      | mark mk =>
        cases mk with
        | closeBrace => exact ih hlt
        | _ => exact ih (hitem.trans_lt hlt)
      | _ => exact ih (hitem.trans_lt hlt)

/-- Nothing is left behind the assignments of a container. -/
theorem assignments_rest (hd : c.rest.length < d) : (assignments d F c).next.rest = [] := by
  -- On the depth: every round, well formed or not, takes at least one token off the cursor.
  induction d generalizing c with
  | zero => exact absurd hd (Nat.not_lt_zero _)
  | succ d ih =>
    have hF := Frame.Moves.refl F
    have hskip := (Cursor.skipNewlines_suffix c).length_le
    unfold assignments
    rw [newlines_bind, peekKind_bind]
    generalize c.skipNewlines = behind at hskip ⊢
    rcases behind with ⟨last, - | ⟨t, ts⟩⟩
    · rfl
    · have hlt : ts.length < d := by
        rw [List.length_cons] at hskip
        omega
      have hline : ∀ c : Cursor, c.rest.length ≤ ts.length + 1 →
          (assignments d F c.recoverLine).next.rest = [] :=
        fun c hc => ih ((Cursor.recoverLine_length c).trans_lt (by omega))
      dsimp only [Cursor.kind?, List.head?_cons, Option.map_some]
      split
      · have hkey := (moves_entryKey hF ⟨last, t :: ts⟩ (Nat.le_refl _)).left
        rw [bind_run, mark_bind]
        generalize (entryKey F ⟨last, t :: ts⟩).next = behind at hkey ⊢
        by_cases hequals : behind.kind? = some (.mark .equals)
        · -- Key, value and line end only ever shorten what is left, the equals sign strictly.
          rw [if_pos hequals]
          have htaken := Cursor.advance_length_lt hequals
          have hvalue := (moves_expression hF behind.advance (Nat.le_refl _)).left
          have hend := (moves_endOfItem hF (expression F behind.advance).next (Nat.le_refl _)).left
          refine ih (hend.trans_lt (hvalue.trans_lt (htaken.trans_le ?_)))
          exact hkey.trans hlt
        · rw [if_neg hequals]
          exact hline _ hkey
      · split
        · exact ih hlt
        · exact hline _ (Nat.le_refl _)

theorem loneExpression_rest (F : Frame) (c : Cursor) : (loneExpression F c).next.rest = [] := by
  have hall : ∀ c : Cursor, (Cursor.skipWhile (fun _ => true) c.last c.rest).rest = [] := by
    intro c
    have hhead := Cursor.skipWhile_head (fun _ => true) c.last c.rest
    cases h : (Cursor.skipWhile (fun _ => true) c.last c.rest).rest with
    | nil => rfl
    | cons t ts =>
      rw [h] at hhead
      cases hhead t rfl
  unfold loneExpression
  rw [newlines_bind, bind_run, newlines_bind, peek_bind]
  generalize (expression F c.skipNewlines).next.skipNewlines = behind
  rcases behind with ⟨last, - | ⟨t, ts⟩⟩
  · rfl
  · exact hall ⟨last, t :: ts⟩

/-! ## No depth is used up -/

theorem topItems_expected (hd : c.rest.length < d) :
    ∀ f ∈ (topItems d F c).faults, f.item.isExpected = true :=
  (moves_topItems (Frame.Moves.refl F) hd hd c (Nat.le_refl _)).expected

theorem assignments_expected (hd : c.rest.length < d) :
    ∀ f ∈ (assignments d F c).faults, f.item.isExpected = true :=
  (moves_assignments (Frame.Moves.refl F) hd hd c (Nat.le_refl _)).expected

theorem body_expected (F : Frame) (c : Cursor) :
    ∀ f ∈ (body F c).faults, f.item.isExpected = true := by
  rw [body_run.2]
  exact topItems_expected (Nat.lt_succ_self _)

theorem loneExpression_expected (F : Frame) (c : Cursor) :
    ∀ f ∈ (loneExpression F c).faults, f.item.isExpected = true := by
  have hvalue := (moves_expression (Frame.Moves.refl F) c.skipNewlines (Nat.le_refl _)).expected
  unfold loneExpression
  rw [newlines_bind, bind_run, newlines_bind, peek_bind]
  refine List.forall_mem_append.2 ⟨hvalue, ?_⟩
  generalize (expression F c.skipNewlines).next.skipNewlines = behind
  rcases behind with ⟨last, - | ⟨t, ts⟩⟩
  · exact fun _ h => absurd h List.not_mem_nil
  · exact List.forall_mem_singleton.2 rfl

end Parser

/-! ## Wrapped texts -/

theorem SyntaxFault.summary_ne {fault : SyntaxFault} (h : fault.isExpected = true) :
    fault.summary ≠ "Invalid syntax" := by
  cases fault with
  | unexpected found => cases h
  | _ => simp [summary]

theorem LexicalFault.summary_ne (fault : LexicalFault) : fault.summary ≠ "Invalid syntax" := by
  cases fault <;> simp [summary]

namespace Wrapped

/-- A wrapped text is cut behind its front. -/
theorem splitContainer_front (us : List Token) :
    ∃ ts, splitContainer (frontTokens ++ us) =
      (frontTokens ++ ts, (splitContainer (frontTokens ++ us)).2) := by
  rcases splitContainer_parts (frontTokens ++ us) with ⟨hparts, hends⟩
  generalize hcut : splitContainer (frontTokens ++ us) = cut at hparts hends ⊢
  rcases cut with ⟨front, back⟩
  dsimp only at hparts hends ⊢
  rcases List.append_eq_append_iff.1 hparts with ⟨cs, hfront, rfl⟩ | ⟨ts, rfl, -⟩
  · cases cs with
    | nil =>
      rw [List.append_nil] at hfront
      exact ⟨[], by rw [List.append_nil, hfront]⟩
    | cons t cs =>
      -- The end starts with a closing brace, and there is none in the front.
      have hmem : t ∈ frontTokens := by
        rw [hfront]
        exact List.mem_append_right _ List.mem_cons_self
      rcases hends with hnil | ⟨brace, ends, hcons, hbrace, -⟩
      · cases hnil
      · cases hcons
        have hnone : ∀ t ∈ frontTokens, t.kind ≠ .mark .closeBrace := by decide
        exact absurd hbrace (hnone t hmem)
  · exact ⟨ts, rfl⟩

/-- A wrapped text is read as a container. Its assignments are read up to the container's end. -/
theorem exists_container (w : Wrapped) :
    ∃ c ts back F, (Tokens.ofText w.text).tokens = frontTokens ++ ts ++ back ∧ EndsContainer back ∧
      (Container.ofTokens w.text (Tokens.ofText w.text).tokens).1 = some c ∧
      c.entries = (Parser.assignments (ts.length + 2) F ⟨shift .start, ts⟩).value ∧
      (Container.ofTokens w.text (Tokens.ofText w.text).tokens).2 =
        (Parser.assignments (ts.length + 2) F ⟨shift .start, ts⟩).faults := by
  have htokens : ∃ us, (Tokens.ofText w.text).tokens = frontTokens ++ us := by
    rw [ofText_text]
    exact ⟨_, rfl⟩
  rcases htokens with ⟨us, htokens⟩
  rcases splitContainer_front us with ⟨ts, hcut⟩
  rw [← htokens] at hcut
  rcases splitContainer_parts (Tokens.ofText w.text).tokens with ⟨hparts, hends⟩
  rcases Container.ofTokens_front w.text hcut with ⟨c, hc, hentries⟩
  rw [hcut] at hparts
  exact ⟨c, ts, _, _, hparts.symm, hends, congrArg Prod.fst hc, hentries, congrArg Prod.snd hc⟩

end Wrapped

/-! ## Whole texts -/

/-- The diagnostics of a text never say that its syntax is invalid, if its reader has enough depth. -/
theorem summary_ne_of_mem {lexical : List (Located LexicalFault)}
    {faults : List (Located SyntaxFault)} {filename : String}
    (h : ∀ f ∈ faults, f.item.isExpected = true) :
    ∀ d ∈ lexical.map (Located.lexicalDiagnostic filename) ++
      faults.map (Located.syntaxDiagnostic filename), d.summary ≠ "Invalid syntax" := by
  intro d hd
  rcases List.mem_append.1 hd with hlexical | hsyntactic
  · rcases List.mem_map.1 hlexical with ⟨f, -, rfl⟩
    exact f.item.summary_ne
  · rcases List.mem_map.1 hsyntactic with ⟨f, hf, rfl⟩
    exact SyntaxFault.summary_ne (h f hf)

end Overlay.Hcl
