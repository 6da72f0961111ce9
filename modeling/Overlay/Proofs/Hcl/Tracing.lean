import Mathlib.Data.List.TakeWhile
import Overlay.Hcl.Container
import Overlay.Proofs.Hcl.Cursor
import Overlay.Proofs.Hcl.Parser

/-!
# Where faults are reported

A reader reports its faults at tokens that it meets, or at the end.

* `Parser.Stays` says of a reader that its faults stand where `S` says, if the tokens in front of it
  and the end of its frame do, and that it leaves no other tokens behind.
* It is closed under the steps a reader is made of, so that each form keeps it if its parts do; an
  induction over the depth closes the circle (`traced`).
-/

namespace Overlay.Hcl

variable {α β : Type}

namespace Parser

/-- In front of tokens with spans as `S` says the reader reports at such spans only, and the tokens it
leaves have such spans, too. -/
def Stays (S : Span → Prop) (F : Frame) (p : Parser α) : Prop :=
  ∀ c : Cursor, (∀ t ∈ c.rest, S t.span) →
    (∀ f ∈ (p F c).faults, S f.span) ∧ ∀ t ∈ (p F c).next.rest, S t.span

section

variable {S : Span → Prop} {F : Frame} {depth : Nat}

/-! ## Steps -/

/-- What reports nothing and stays in place. -/
theorem stays_still {p : Parser α} (hfaults : ∀ c, (p F c).faults = [])
    (hnext : ∀ c, (p F c).next = c) : Stays S F p := by
  intro c hc
  rw [hfaults c, hnext c]
  exact ⟨fun _ h => absurd h List.not_mem_nil, hc⟩

theorem stays_pure (a : α) : Stays S F (pure a : Parser α) :=
  stays_still (fun _ => rfl) fun _ => rfl

theorem stays_bind {p : Parser α} {f : α → Parser β} (hp : Stays S F p)
    (hf : ∀ a, Stays S F (f a)) : Stays S F (p >>= f) := by
  intro c hc
  rcases hp c hc with ⟨hfaults, hnext⟩
  rcases hf (p F c).value (p F c).next hnext with ⟨hfaults', hnext'⟩
  rw [bind_run]
  exact ⟨List.forall_mem_append.2 ⟨hfaults, hfaults'⟩, hnext'⟩

theorem stays_move {g : Cursor → Cursor} (hg : ∀ c, (g c).rest <:+ c.rest) :
    Stays S F (move g) :=
  fun c hc => ⟨fun _ h => absurd h List.not_mem_nil, fun t ht => hc t ((hg c).subset ht)⟩

theorem stays_advance : Stays S F advance := stays_move Cursor.advance_suffix

theorem stays_newlines : Stays S F newlines := stays_move Cursor.skipNewlines_suffix

theorem stays_recoverLine : Stays S F (move Cursor.recoverLine) :=
  stays_move Cursor.recoverLine_suffix

theorem stays_skipToClose (own : Mark) : Stays S F (move (Cursor.skipToClose own)) :=
  stays_move (Cursor.skipToClose_suffix own)

theorem stays_peekKind : Stays S F peekKind := stays_still (fun _ => rfl) fun _ => rfl

theorem stays_peekSecond : Stays S F peekSecond := stays_still (fun _ => rfl) fun _ => rfl

theorem stays_found : Stays S F found := stays_still (fun _ => rfl) fun _ => rfl

theorem stays_remaining : Stays S F remaining := stays_still (fun _ => rfl) fun _ => rfl

theorem stays_spanFrom (start : Pos) : Stays S F (spanFrom start) :=
  stays_still (fun _ => rfl) fun _ => rfl

/-- The next token has a span as `S` says. -/
theorem stays_peek {f : Option Token → Parser β}
    (hf : ∀ o : Option Token, (∀ t ∈ o, S t.span) → Stays S F (f o)) : Stays S F (peek >>= f) := by
  intro c hc
  rw [peek_bind]
  refine hf _ (fun t ht => hc t ?_) c hc
  exact List.mem_of_mem_head? ht

theorem stays_reportAt {span : Span} {fault : SyntaxFault} (hspan : S span) :
    Stays S F (reportAt span fault) := by
  intro c hc
  exact ⟨fun f hf => (List.mem_singleton.1 hf) ▸ hspan, hc⟩

theorem stays_atMark (m : Mark) : Stays S F (atMark m) :=
  stays_bind stays_peekKind fun _ => stays_pure _

theorem stays_mark (m : Mark) : Stays S F (mark m) := by
  refine stays_bind (stays_atMark m) fun found => ?_
  cases found with
  | true => exact stays_bind stays_advance fun _ => stays_pure _
  | false => exact stays_pure _

theorem stays_comma : Stays S F comma := by
  intro c hc
  have hsuffix : (comma F c).next.rest <:+ c.rest := Cursor.comma_suffix F c
  have hfaults : (comma F c).faults = [] := by
    unfold comma
    dsimp only
    split <;> rfl
  rw [hfaults]
  exact ⟨fun _ h => absurd h List.not_mem_nil, fun t ht => hc t (hsuffix.subset ht)⟩

/-! ## Reports -/

section

variable (hend : S F.ending)

include hend

theorem stays_lookahead {f : Span → Parser β} (hf : ∀ span, S span → Stays S F (f span)) :
    Stays S F (lookahead >>= f) := by
  intro c hc
  rw [lookahead_bind]
  refine hf _ ?_ c hc
  rcases c with ⟨last, rest⟩
  cases rest with
  | nil => exact hend
  | cons t ts => exact hc t List.mem_cons_self

theorem stays_report (fault : SyntaxFault) : Stays S F (report fault) :=
  stays_lookahead hend fun _ hspan => stays_reportAt hspan

theorem stays_exhausted (a : α) : Stays S F (exhausted a) :=
  stays_bind stays_found fun _ => stays_bind (stays_report hend _) fun _ => stays_pure a

theorem stays_invalidExpression : Stays S F invalidExpression := by
  refine stays_lookahead hend fun span hspan => stays_bind stays_found fun text => ?_
  refine stays_bind (stays_reportAt hspan) fun _ => stays_bind stays_peekKind fun k => ?_
  cases k with
  | none => exact stays_pure _
  | some k =>
    dsimp only
    split
    · exact stays_pure _
    · exact stays_bind stays_advance fun _ => stays_pure _

theorem stays_close (own : Mark) (fault : SyntaxFault) : Stays S F (close own fault) := by
  refine stays_bind stays_peekKind fun k => ?_
  cases k with
  | none => exact stays_pure _
  | some k =>
    dsimp only
    split
    · exact stays_bind stays_advance fun _ => stays_pure _
    · split
      · exact stays_pure _
      · exact stays_bind (stays_report hend fault) fun _ =>
          stays_bind (stays_skipToClose own) fun _ => stays_pure _

theorem stays_endOfItem : Stays S F endOfItem := by
  refine stays_bind stays_peekKind fun k => ?_
  have hreport : Stays S F (do
      report .missingNewline
      move Cursor.recoverLine) :=
    stays_bind (stays_report hend _) fun _ => stays_recoverLine
  rcases k with - | (_ | _ | _ | _ | m | _)
  · exact stays_pure _
  · exact hreport
  · exact hreport
  · exact hreport
  · exact hreport
  · cases m with
    | closeBrace => exact stays_pure _
    | newline => exact stays_advance
    | _ => exact hreport
  · exact hreport

/-! ## Forms -/

theorem stays_delimited {items : Parser α} (hitems : Stays S F items) (own : Mark)
    (fault : SyntaxFault) : Stays S F (delimited items own fault) :=
  stays_bind stays_newlines fun _ => stays_bind hitems fun _ => stays_bind stays_newlines fun _ =>
    stays_bind (stays_close hend own fault) fun _ => stays_pure _

end

/-- A construct that starts at `opener` and may be unclosed. -/
theorem stays_unclosed {closing : Closing} {opener : Span} {fault : SyntaxFault} {start : Pos}
    {mk : Span → Expr} (hopener : S opener) :
    Stays S F (do
      if closing = .unclosed then reportAt opener fault
      return mk (← spanFrom start) : Parser Expr) := by
  have hspan : Stays S F (do return mk (← spanFrom start) : Parser Expr) :=
    stays_bind (stays_spanFrom start) fun _ => stays_pure _
  by_cases hclosing : closing = .unclosed
  · simp only [hclosing, if_true]
    exact stays_bind (stays_reportAt hopener) fun _ => hspan
  · simp only [hclosing, if_false]
    exact hspan

theorem stays_tuple (hend : S F.ending) {items : Parser (List Expr)} (hitems : Stays S F items)
    {opener : Span} (hopener : S opener) : Stays S F (tuple items opener) :=
  stays_bind stays_advance fun _ => stays_bind (stays_delimited hend hitems _ _) fun _ =>
    stays_unclosed hopener

theorem stays_call (hend : S F.ending) {items : Parser (List Expr)} (hitems : Stays S F items)
    (name : String) (start : Pos) : Stays S F (call items name start) :=
  stays_bind stays_advance fun _ => stays_lookahead hend fun _ hopener =>
    stays_bind stays_advance fun _ => stays_bind (stays_delimited hend hitems _ _) fun _ =>
      stays_unclosed hopener

theorem stays_object {entries : Parser (List Entry × Closing)} (hentries : Stays S F entries)
    {opener : Span} (hopener : S opener) : Stays S F (object entries opener) :=
  stays_bind stays_advance fun _ => stays_bind hentries fun _ => stays_unclosed hopener

/-- At this depth the readers of the parts of expressions report at tokens. -/
structure Traced (S : Span → Prop) (F : Frame) (depth : Nat) : Prop where
  value : Stays S F (value depth)
  steps : Stays S F (steps depth)
  elements : Stays S F (elements depth)
  entries : Stays S F (objectEntries depth)

theorem stays_elements (h : Traced S F depth) : Stays S F (elements (depth + 1)) := by
  unfold elements
  refine stays_bind stays_peekKind fun k => ?_
  cases k with
  | none => exact stays_pure _
  | some k =>
    dsimp only
    split
    · exact stays_pure _
    · refine stays_bind h.value fun item => stays_bind stays_comma fun found => ?_
      cases found with
      | true => exact stays_bind h.elements fun _ => stays_pure _
      | false => exact stays_pure _

section

variable (hend : S F.ending)

include hend

theorem stays_closeParens : Stays S F closeParens := by
  refine stays_bind (stays_mark _) fun found => ?_
  cases found with
  | true => exact stays_pure _
  | false =>
    refine stays_bind (stays_report hend _) fun _ => stays_bind stays_peekKind fun k => ?_
    rcases k with - | (_ | _ | _ | _ | m | _)
    · exact stays_pure _
    · exact stays_skipToClose _
    · exact stays_skipToClose _
    · exact stays_skipToClose _
    · exact stays_skipToClose _
    · cases m with
      | closeBrace => exact stays_pure _
      | closeBracket => exact stays_pure _
      | _ => exact stays_skipToClose _
    · exact stays_skipToClose _

theorem stays_parens {inner : Parser Expr} (hinner : Stays S F inner) (start : Pos) :
    Stays S F (parens inner start) :=
  stays_bind stays_advance fun _ => stays_bind stays_newlines fun _ => stays_bind hinner fun _ =>
    stays_bind stays_newlines fun _ => stays_bind (stays_closeParens hend) fun _ =>
      stays_bind (stays_spanFrom _) fun _ => stays_pure _

theorem stays_traversal {more : Parser (List Step)} (hmore : Stays S F more) (root : String)
    (rootSpan : Span) : Stays S F (traversal more root rootSpan) := by
  refine stays_bind stays_advance fun _ => stays_bind hmore fun _ =>
    stays_bind (stays_mark _) fun found => ?_
  cases found with
  | true =>
    exact stays_bind (stays_report hend _) fun _ => stays_bind (stays_spanFrom _) fun _ =>
      stays_pure _
  | false => exact stays_bind (stays_spanFrom _) fun _ => stays_pure _

theorem stays_indexStep {key : Parser Expr} (hkey : Stays S F key) (start : Pos) :
    Stays S F (indexStep key start) := by
  refine stays_bind stays_advance fun _ => stays_bind stays_newlines fun _ => stays_bind hkey fun _ =>
    stays_bind stays_newlines fun _ => stays_bind (stays_mark _) fun found => ?_
  cases found with
  | true => exact stays_bind (stays_spanFrom _) fun _ => stays_pure _
  | false =>
    exact stays_bind (stays_report hend _) fun _ => stays_bind (stays_skipToClose _) fun _ =>
      stays_bind (stays_spanFrom _) fun _ => stays_pure _

theorem stays_dotStep? (start : Pos) : Stays S F (dotStep? start) := by
  refine stays_bind stays_peekSecond fun k => ?_
  rcases k with - | (name | text | _ | _ | _ | _)
  · exact stays_pure _
  · exact stays_bind stays_advance fun _ => stays_bind stays_advance fun _ =>
      stays_bind (stays_spanFrom _) fun _ => stays_pure _
  · exact stays_bind stays_advance fun _ => stays_lookahead hend fun _ _ =>
      stays_bind stays_advance fun _ => stays_bind (stays_spanFrom _) fun _ => stays_pure _
  · exact stays_pure _
  · exact stays_pure _
  · exact stays_pure _
  · exact stays_pure _

theorem stays_keyOf {inner : Parser Expr} {more : Parser (List Step)} (hinner : Stays S F inner)
    (hmore : Stays S F more) : Stays S F (keyOf inner more) := by
  have hexpr : Stays S F (do return .expr (← inner) : Parser Key) :=
    stays_bind hinner fun _ => stays_pure _
  refine stays_peek fun o _ => ?_
  rcases o with - | ⟨⟨name⟩ | _ | _ | _ | _ | _, span⟩
  · exact hexpr
  · exact stays_bind (stays_traversal hend hmore name span) fun _ => stays_pure _
  · exact hexpr
  · exact hexpr
  · exact hexpr
  · exact hexpr
  · exact hexpr

/-! ## Expressions -/

theorem stays_value (h : Traced S F depth) : Stays S F (value (depth + 1)) := by
  unfold value
  -- A fault is placed at the token looked at, at the end of the text, or inside a part.
  refine stays_peek fun o ho => ?_
  rcases o with - | ⟨kind, span⟩
  · exact stays_invalidExpression hend
  · have hspan : S span := ho _ rfl
    cases kind with
    | number text => exact stays_bind stays_advance fun _ => stays_pure _
    | str text => exact stays_bind stays_advance fun _ => stays_pure _
    | heredoc text => exact stays_bind stays_advance fun _ => stays_pure _
    | stray c => exact stays_invalidExpression hend
    | ident name =>
      dsimp only
      cases literalName? name span with
      | some e => exact stays_bind stays_advance fun _ => stays_pure _
      | none =>
        refine stays_bind stays_peekSecond fun k => ?_
        split
        · exact stays_call hend h.elements _ _
        · exact stays_bind (stays_traversal hend h.steps _ _) fun _ => stays_pure _
    | mark m =>
      cases m with
      | minus =>
        exact stays_bind stays_advance fun _ => stays_bind h.value fun _ =>
          stays_bind (stays_spanFrom _) fun _ => stays_pure _
      | openBracket => exact stays_tuple hend h.elements hspan
      | openBrace => exact stays_object h.entries hspan
      | openParen => exact stays_parens hend h.value _
      | _ => exact stays_invalidExpression hend

theorem stays_steps (h : Traced S F depth) : Stays S F (steps (depth + 1)) := by
  have hmore : ∀ step : Step, Stays S F
      (do return step :: (← steps depth) : Parser (List Step)) :=
    fun step => stays_bind h.steps fun _ => stays_pure _
  unfold steps
  refine stays_peek fun o _ => ?_
  rcases o with - | ⟨kind, span⟩
  · exact stays_pure _
  · cases kind with
    | mark m =>
      cases m with
      | dot =>
        refine stays_bind (stays_dotStep? hend _) fun step => ?_
        cases step with
        | none => exact stays_pure _
        | some step => exact hmore step
      | openBracket => exact stays_bind (stays_indexStep hend h.value _) fun step => hmore step
      | _ => exact stays_pure _
    | _ => exact stays_pure _

theorem stays_behindValue (h : Traced S F depth) (entry : Entry) :
    Stays S F (behindValue depth entry) := by
  have hlast : Stays S F (lastEntry entry) :=
    stays_bind (stays_close hend _ _) fun _ => stays_pure _
  have hmore : Stays S F (entryBefore depth entry) :=
    stays_bind stays_advance fun _ => stays_bind h.entries fun _ => stays_pure _
  refine stays_bind stays_peekKind fun k => ?_
  rcases k with - | (_ | _ | _ | _ | m | _)
  · exact hlast
  · exact hlast
  · exact hlast
  · exact hlast
  · exact hlast
  · cases m with
    | comma => exact hmore
    | newline => exact hmore
    | _ => exact hlast
  · exact hlast

theorem stays_behindKey (h : Traced S F depth) (key : Key) : Stays S F (behindKey depth key) := by
  have hmissing : Stays S F noSeparator :=
    stays_bind (stays_report hend _) fun _ => stays_bind (stays_skipToClose _) fun _ => stays_pure _
  have hvalue : Stays S F (entryValue depth key) :=
    stays_bind stays_advance fun _ => stays_bind h.value fun _ => stays_behindValue hend h _
  refine stays_bind stays_peekKind fun k => ?_
  rcases k with - | (_ | _ | _ | _ | m | _)
  · exact hmissing
  · exact hmissing
  · exact hmissing
  · exact hmissing
  · exact hmissing
  · cases m with
    | equals => exact hvalue
    | colon => exact hvalue
    | _ => exact hmissing
  · exact hmissing

theorem stays_objectEntries (h : Traced S F depth) : Stays S F (objectEntries (depth + 1)) := by
  rw [objectEntries_succ]
  refine stays_bind stays_newlines fun _ => stays_bind stays_peekKind fun k => ?_
  cases k with
  | none => exact stays_pure _
  | some k =>
    dsimp only
    split
    · exact stays_bind (stays_keyOf hend h.value h.steps) fun key => stays_behindKey hend h key
    · exact stays_bind (stays_close hend _ _) fun _ => stays_pure _

/-- At every depth expressions are read with reports at tokens. -/
theorem traced (depth : Nat) : Traced S F depth := by
  induction depth with
  | zero =>
    -- Also a reader without depth reports at the next token, or at the end.
    constructor
    · unfold value
      exact stays_lookahead hend fun _ _ => stays_exhausted hend _
    · unfold steps
      exact stays_exhausted hend _
    · unfold elements
      exact stays_exhausted hend _
    · unfold objectEntries
      exact stays_exhausted hend _
  | succ depth ih =>
    exact ⟨stays_value hend ih, stays_steps hend ih, stays_elements ih,
      stays_objectEntries hend ih⟩

theorem stays_expression : Stays S F expression :=
  stays_bind (stays_bind stays_remaining fun _ => stays_pure _) fun depth =>
    (traced hend depth).value

theorem stays_entryKey : Stays S F entryKey :=
  stays_bind (stays_bind stays_remaining fun _ => stays_pure _) fun depth =>
    stays_keyOf hend (traced hend depth).value (traced hend depth).steps

/-! ## Containers -/

theorem stays_assignments (depth : Nat) : Stays S F (assignments depth) := by
  induction depth with
  | zero =>
    unfold assignments
    exact stays_exhausted hend _
  | succ depth ih =>
    unfold assignments
    refine stays_bind stays_newlines fun _ => stays_bind stays_peekKind fun k => ?_
    cases k with
    | none => exact stays_pure _
    | some k =>
      dsimp only
      split
      · refine stays_bind (stays_entryKey hend) fun key => stays_bind (stays_mark _) fun found => ?_
        cases found with
        | true =>
          exact stays_bind (stays_expression hend) fun _ => stays_bind (stays_endOfItem hend)
            fun _ => stays_bind ih fun _ => stays_pure _
        | false =>
          exact stays_bind (stays_report hend _) fun _ => stays_bind stays_recoverLine fun _ => ih
      · split
        · exact stays_bind (stays_report hend _) fun _ => stays_bind stays_advance fun _ => ih
        · exact stays_bind (stays_report hend _) fun _ => stays_bind stays_recoverLine fun _ => ih

theorem stays_containerHeader : Stays S F containerHeader := by
  refine stays_bind stays_newlines fun _ => stays_peek fun o _ => ?_
  rcases o with - | ⟨kind, span⟩
  · exact stays_pure _
  · cases kind with
    | ident name =>
      dsimp only
      split
      · refine stays_bind stays_advance fun _ => stays_bind (stays_mark _) fun found => ?_
        cases found with
        | false => exact stays_pure _
        | true =>
          refine stays_lookahead hend fun opener _ => stays_bind (stays_mark _) fun found => ?_
          cases found with
          | false => exact stays_pure _
          | true => exact stays_pure _
      · exact stays_pure _
    | _ => exact stays_pure _

end

end

end Parser

/-- What a container ends with: nothing, or a closing brace and line ends. -/
def EndsContainer (back : List Token) : Prop :=
  back = [] ∨ ∃ brace ends, back = brace :: ends ∧ brace.kind = .mark .closeBrace ∧
    ∀ t ∈ ends, t.kind.isNewline = true

/-- A text is cut into what is read of a container and what it ends with. -/
theorem splitContainer_parts (tokens : List Token) :
    (splitContainer tokens).1 ++ (splitContainer tokens).2 = tokens ∧
      EndsContainer (splitContainer tokens).2 := by
  unfold splitContainer
  dsimp only
  -- The end of a container is searched from behind, so the parts are those of the reverse.
  have hparts := List.takeWhile_append_dropWhile
    (p := fun t : Token => t.kind.isNewline) (l := tokens.reverse)
  split
  · next brace front hdrop =>
    split
    · next hbrace =>
      rw [hdrop] at hparts
      refine ⟨?_, .inr ⟨brace, _, rfl, hbrace, fun t ht => ?_⟩⟩
      · have hall := congrArg List.reverse hparts
        rwa [List.reverse_reverse, List.reverse_append, List.reverse_cons, List.append_assoc,
          List.singleton_append] at hall
      · exact List.mem_takeWhile_imp (p := fun t : Token => t.kind.isNewline) (List.mem_reverse.1 ht)
    · exact ⟨List.append_nil tokens, .inl rfl⟩
  · exact ⟨List.append_nil tokens, .inl rfl⟩

/-- The tokens of a container are tokens of its text, on both sides of the cut. -/
theorem splitContainer_mem (tokens : List Token) :
    (∀ t ∈ (splitContainer tokens).1, t ∈ tokens) ∧ ∀ t ∈ (splitContainer tokens).2, t ∈ tokens := by
  have hparts := (splitContainer_parts tokens).1
  constructor
  · intro t ht
    rw [← hparts]
    exact List.mem_append_left _ ht
  · intro t ht
    rw [← hparts]
    exact List.mem_append_right _ ht

/-- The faults of a container stand at its tokens, or at the end of its text. -/
theorem Container.ofTokens_faults {S : Span → Prop} {text : String} {tokens : List Token}
    (htokens : ∀ t ∈ tokens, S t.span) (hend : S (.point (.endOf text))) :
    ∀ f ∈ (Container.ofTokens text tokens).2, S f.span := by
  have hmem := splitContainer_mem tokens
  unfold Container.ofTokens
  generalize splitContainer tokens = parts at hmem ⊢
  rcases parts with ⟨front, back⟩
  rcases hmem with ⟨hfront, hback⟩
  dsimp only at hfront hback ⊢
  have hframe : S (Frame.ofContainer text front back).ending := by
    unfold Frame.ofContainer
    split
    · exact hend
    · exact htokens _ (hback _ List.mem_cons_self)
    · exact htokens _ (hback _ List.mem_cons_self)
  have hstart : ∀ t ∈ (Cursor.ofTokens .start front).rest, S t.span :=
    fun t ht => htokens t (hfront t ht)
  have hheader := (Parser.stays_containerHeader hframe _ hstart).2
  split
  · have hreport : Parser.Stays S (Frame.ofContainer text front back)
        (do Parser.report (.unexpected (← Parser.found)) : Parser Unit) :=
      Parser.stays_bind Parser.stays_found fun _ => Parser.stays_report hframe _
    exact (hreport _ hheader).1
  · exact (Parser.stays_assignments hframe _ _ hheader).1

end Overlay.Hcl
