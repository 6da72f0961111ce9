import Overlay.Proofs.Hcl.Agreement
import Overlay.Proofs.Hcl.Cursor
import Overlay.Hcl.Container

/-!
# Attributes and assignments

The items of a body and the assignments of a container, read side by side.

* An attribute and an assignment with a bare key are read in the same steps (`topItems_attribute`,
  `assignments_bare`).
* Behind every line end and closing brace of a text made of items there is such an item or nothing,
  also where reading starts again behind a fault, so both readings report the same (`items_agree`).
-/

namespace Overlay.Hcl

namespace Parser

variable {F : Frame} {last : Pos} {name : String} {span separator : Span} {ts : List Token}

/-- What comes behind the equals sign of an attribute or an assignment. -/
def definition : Parser Expr := do
  let expr ← expression
  endOfItem
  return expr

/-- What a name and an equals sign in front of `ts` look like. -/
def attributeTokens (name : String) (span separator : Span) (ts : List Token) : List Token :=
  ⟨.ident name, span⟩ :: ⟨.mark .equals, separator⟩ :: ts

theorem itemOf_attribute (items : Parser (List Item)) :
    itemOf items F ⟨last, attributeTokens name span separator ts⟩ =
      ((do return some (.attr ⟨name, span, ← definition⟩) : Parser (Option Item))) F
        ⟨separator.stop, ts⟩ := by
  unfold itemOf attributeTokens
  simp only [peek_bind, List.head?_cons, advance_bind, atMark_bind]
  rfl

/-- An attribute at the front of a text, and the items behind it. -/
theorem topItems_attribute {c : Cursor} {depth : Nat}
    (h : c.skipNewlines = ⟨last, attributeTokens name span separator ts⟩) :
    topItems (depth + 1) F c =
      ((do
        let expr ← definition
        return .attr ⟨name, span, expr⟩ :: (← topItems depth)) : Parser (List Item)) F
          ⟨separator.stop, ts⟩ := by
  rw [topItems]
  simp only [newlines_bind, peekKind_bind, h]
  show (itemOf (items depth) >>= _) F ⟨last, attributeTokens name span separator ts⟩ = _
  rw [bind_run, itemOf_attribute]
  simp only [bind_run, pure_run, List.append_nil]
  rfl

theorem topItems_nil {c : Cursor} {depth : Nat} (h : c.skipNewlines.kind? = none) :
    topItems (depth + 1) F c = ⟨[], c.skipNewlines, []⟩ := by
  rw [topItems]
  simp only [newlines_bind, peekKind_bind, h]
  rfl

/-- An item at the front of a text. -/
theorem topItems_item {c : Cursor} {depth : Nat} {k : TokenKind}
    (h : c.skipNewlines.kind? = some k) (hk : k ≠ .mark .closeBrace) :
    topItems (depth + 1) F c =
      ((do
        let item ← itemOf (items depth)
        return item.toList ++ (← topItems depth)) : Parser (List Item)) F c.skipNewlines := by
  rw [topItems]
  simp only [newlines_bind, peekKind_bind, h]

/-- A closing brace at the front of a text. -/
theorem topItems_closeBrace {c : Cursor} {depth : Nat}
    (h : c.skipNewlines.kind? = some (.mark .closeBrace)) :
    topItems (depth + 1) F c =
      ((do
        report .unexpectedClosingBrace
        advance
        topItems depth) : Parser (List Item)) F c.skipNewlines := by
  rw [topItems]
  simp only [newlines_bind, peekKind_bind, h]

theorem entryKey_bare :
    entryKey F ⟨last, attributeTokens name span separator ts⟩ =
      ⟨.path (.mk name span [] ⟨span.start, span.stop⟩),
        ⟨span.stop, ⟨.mark .equals, separator⟩ :: ts⟩, []⟩ := by
  rfl

/-- An assignment to a bare key at the front of a container, and those behind it. -/
theorem assignments_bare {c : Cursor} {depth : Nat}
    (h : c.skipNewlines = ⟨last, attributeTokens name span separator ts⟩) :
    assignments (depth + 1) F c =
      ((do
        let expr ← definition
        return .mk (.path (.mk name span [] span)) expr :: (← assignments depth)) :
          Parser (List Entry)) F ⟨separator.stop, ts⟩ := by
  rw [assignments]
  simp only [newlines_bind, peekKind_bind, h]
  show (entryKey >>= _) F ⟨last, attributeTokens name span separator ts⟩ = _
  rw [bind_run, entryKey_bare]
  simp only [mark_bind, Cursor.kind?, List.head?_cons, Option.map_some, if_true, List.nil_append]
  simp only [definition, bind_run, pure_run, List.append_nil, List.append_assoc]
  rfl

theorem assignments_nil {c : Cursor} {depth : Nat} (h : c.skipNewlines.kind? = none) :
    assignments (depth + 1) F c = ⟨[], c.skipNewlines, []⟩ := by
  rw [assignments]
  simp only [newlines_bind, peekKind_bind, h]
  rfl

/-- A closing brace at the front of a container. -/
theorem assignments_closeBrace {c : Cursor} {depth : Nat}
    (h : c.skipNewlines.kind? = some (.mark .closeBrace)) :
    assignments (depth + 1) F c =
      ((do
        report .unexpectedClosingBrace
        advance
        assignments depth) : Parser (List Entry)) F c.skipNewlines := by
  rw [assignments]
  simp only [newlines_bind, peekKind_bind, h]
  rfl

end Parser

namespace Sides

variable {S : Sides} {ok : Prop} {n : Nat} {s : Pos} {c c' : Cursor}

theorem endOfItem_agrees (h : S.Aligned n s c c') :
    S.Agrees ok (fun _ _ _ c c' => S.Aligned n s c c') (Parser.endOfItem S.plain c)
      (Parser.endOfItem S.container c') := by
  unfold Parser.endOfItem
  simp only [Parser.peekKind_bind]
  have hreport : S.Agrees ok (fun _ _ _ c c' => S.Aligned n s c c')
      ((do
        Parser.report .missingNewline
        Parser.move Cursor.recoverLine : Parser Unit) S.plain c)
      ((do
        Parser.report .missingNewline
        Parser.move Cursor.recoverLine : Parser Unit) S.container c') :=
    .reported rfl h.ahead h.recoverLine
  cases hc : c.kind? with
  | none =>
    -- The line end that comes with the container ends the last item as the end of the content does.
    rcases h.kind_none hc with hc' | hc'
    · rw [hc']
      exact .pure h
    · rw [hc']
      exact .pure (h.advance_lineEnd hc).1
  | some k =>
    rcases h.kind_some hc with ⟨k', hc', hk⟩
    rw [hc']
    rcases hk with rfl | ⟨a, b, rfl, rfl⟩
    · cases k with
      | mark m =>
        cases m with
        | closeBrace => exact .pure h
        | newline => exact .pure h.advance
        | _ => exact hreport
      | _ => exact hreport
    · exact hreport

theorem definition_agrees (h : S.Aligned n s c c') :
    S.Agrees ok (S.Leaves Expr.mapSpans n s) (Parser.definition S.plain c)
      (Parser.definition S.container c') := by
  refine .bind (expression_agrees h) ?_
  rintro ok e e' c c' _ ⟨h, he⟩
  refine .bind (endOfItem_agrees h) ?_
  intro ok' _ _ c c' hok h
  exact .pure ⟨h, fun hclean => (he ⟨hclean.1, hok hclean.2⟩).1⟩

theorem Aligned.attribute {last last' : Pos} {name : String} {span separator : Span}
    {ts rest' : List Token}
    (h : S.Aligned n s ⟨last, Parser.attributeTokens name span separator ts⟩ ⟨last', rest'⟩) :
    ∃ m span' separator' ts', n = m + 2 ∧
      rest' = Parser.attributeTokens name span' separator' ts' ∧ S.wrapped.WrapsSpan span span' ∧
        S.Aligned m s ⟨separator.stop, ts⟩ ⟨separator'.stop, ts'⟩ := by
  rcases h.within.exists_succ with ⟨m, rfl⟩
  have hspan := h.within.le_start
  -- Names and marks are the same on both sides, so both have the name and the equals sign.
  cases hrest : h.rest with
  | @cons _ t' _ us' token =>
    rcases t' with ⟨k', span'⟩
    have hname := (token.kind.ident_iff name).1 rfl
    cases hname
    have htail := h.tail.1
    rcases htail.within.exists_succ with ⟨m, rfl⟩
    cases hrest : htail.rest with
    | @cons _ u' _ vs' separator =>
      rcases u' with ⟨k', separator'⟩
      have hmark := (separator.kind.mark_iff .equals).1 rfl
      cases hmark
      exact ⟨m, span', separator', vs', rfl, rfl, token.span,
        htail.tail.1.of_le (Pos.le_trans hspan htail.within.le_start)⟩

end Sides

/-! ## Texts made of items -/

/-- What can stand at the start of a line: nothing, its end, a closing brace, or a name and an
equals sign. -/
def StartsItem : List Token → Prop
  | [] => True
  | t :: ts => t.kind = .mark .newline ∨ t.kind = .mark .closeBrace ∨
      ∃ name, t.kind = .ident name ∧ ts.head?.map Token.kind = some (.mark .equals)

/-- Behind every line end and every closing brace an item starts. -/
def Itemized (ts : List Token) : Prop :=
  ∀ t rest, t :: rest <:+ ts → t.kind = .mark .newline ∨ t.kind = .mark .closeBrace →
    StartsItem rest

section

variable {ts : List Token} {c : Cursor}

/-- Behind the line ends at the start of an item there is the item itself. -/
theorem startsItem_skipNewlines (hts : Itemized ts) (hc : c.rest <:+ ts) (h : StartsItem c.rest) :
    StartsItem c.skipNewlines.rest := by
  rcases c with ⟨last, rest⟩
  unfold Cursor.skipNewlines
  dsimp only at hc h ⊢
  induction rest generalizing last with
  | nil => exact h
  | cons t rest ih =>
    unfold Cursor.skipWhile
    split
    · next hnewline =>
      have hkind : t.kind = .mark .newline := by simpa [TokenKind.isNewline] using hnewline
      exact ih _ ((List.suffix_cons t rest).trans hc) (hts t rest hc (.inl hkind))
    · exact h

/-- An item starts behind the end of one. -/
theorem startsItem_endOfItem (hts : Itemized ts) (hc : c.rest <:+ ts) (F : Frame) :
    StartsItem (Parser.endOfItem F c).next.rest := by
  -- A line that is given up is left behind its line end, where an item starts.
  have hline : StartsItem c.recoverLine.rest := by
    have hsuffix := Cursor.skipWhile_suffix (fun k => !k.isNewline) c.last c.rest
    have hhead := Cursor.skipWhile_head (fun k => !k.isNewline) c.last c.rest
    unfold Cursor.recoverLine Cursor.advance
    split
    · next hrest =>
      rw [hrest]
      trivial
    · next t rest hrest =>
      rw [hrest] at hsuffix hhead
      have hkind : t.kind = .mark .newline := by
        simpa [TokenKind.isNewline] using hhead t rfl
      exact hts t rest (hsuffix.trans hc) (.inl hkind)
  unfold Parser.endOfItem
  simp only [Parser.peekKind_bind]
  rcases c with ⟨last, rest⟩
  cases rest with
  | nil => trivial
  | cons t rest =>
    rcases t with ⟨k, span⟩
    cases k with
    | mark m =>
      cases m with
      | newline => exact hts _ rest hc (.inl rfl)
      | closeBrace => exact .inr (.inl rfl)
      | _ => exact hline
    | _ => exact hline

end

namespace Sides

variable {S : Sides} {n : Nat} {s : Pos} {c c' : Cursor}

theorem startsItem_definition (hS : Itemized S.tokens) (h : S.Aligned n s c c') :
    StartsItem (Parser.definition S.plain c).next.rest := by
  obtain ⟨-, hexpr, -⟩ : S.Agrees True (S.Reads Expr.mapSpans n s) _ _ := expression_agrees h
  exact startsItem_endOfItem hS hexpr.within.suffix S.plain

/-- A text made of items reports the same as a body and as the content of a container. -/
theorem items_agree (hS : Itemized S.tokens) {d d' : Nat} (hd : n + 1 ≤ d) (hd' : n + 1 ≤ d')
    (h : S.Aligned n s c c') (hc : StartsItem c.rest) :
    List.Forall₂ S.wrapped.WrapsItem (Parser.topItems d S.plain c).faults
      (Parser.assignments d' S.container c').faults := by
  induction n using Nat.strongRecOn generalizing d d' c c' with
  | ind n ih =>
    obtain ⟨d, rfl⟩ : ∃ e, d = e + 1 := ⟨d - 1, by omega⟩
    obtain ⟨d', rfl⟩ : ∃ e, d' = e + 1 := ⟨d' - 1, by omega⟩
    have hstart := startsItem_skipNewlines hS h.within.suffix hc
    have hend := h.settled_skipNewlines
    have h := h.skipNewlines
    cases hkind : c.skipNewlines.kind? with
    | none =>
      rw [Parser.topItems_nil hkind, Parser.assignments_nil (hend.kind_none hkind)]
      exact .nil
    | some k =>
      have hnewline := Cursor.skipWhile_head TokenKind.isNewline c.last c.rest
      rcases hskip : c.skipNewlines with ⟨last, rest⟩
      rcases hskip' : c'.skipNewlines with ⟨last', rest'⟩
      rw [hskip, hskip'] at h
      rw [hskip] at hstart hkind
      rcases Cursor.exists_cons_of_kind? hkind with ⟨t, ts, rfl, rfl⟩
      rcases hstart with hline | hbrace | ⟨name, hname, hequals⟩
      · have hno : t.kind.isNewline = false := hnewline t (by
          have hrest : c.skipNewlines.rest = t :: ts := by rw [hskip]
          exact congrArg List.head? hrest)
        rw [hline] at hno
        cases hno
      · -- A closing brace is reported on both sides.
        rw [hbrace] at hkind
        have hkind' := (h.mark_iff (by decide)).1 hkind
        rw [← hskip] at hkind
        rw [← hskip'] at hkind'
        rw [Parser.topItems_closeBrace hkind, Parser.assignments_closeBrace hkind', hskip, hskip']
        rw [hskip] at hkind
        rcases h.within.exists_succ with ⟨m, rfl⟩
        have hrest := hS t ts h.within.suffix (.inr hbrace)
        exact .cons ⟨rfl, h.ahead⟩
          (ih m (Nat.lt_succ_self m) (by omega) (by omega) (h.advance_lt hkind) hrest)
      · -- A definition is read on both sides, and the next item starts behind its end.
        obtain ⟨u, us, rfl, hu⟩ : ∃ u us, ts = u :: us ∧ u.kind = .mark .equals := by
          cases ts with
          | nil => cases hequals
          | cons u us => exact ⟨u, us, rfl, Option.some.inj hequals⟩
        rcases t with ⟨_, span⟩
        rcases u with ⟨_, separator⟩
        cases hname
        cases hu
        rcases h.attribute with ⟨m, span', separator', ts', rfl, rfl, -, hrest⟩
        rw [Parser.topItems_attribute hskip, Parser.assignments_bare hskip']
        obtain ⟨hfaults, hnext, -⟩ : S.Agrees True (S.Leaves Expr.mapSpans m s) _ _ :=
          definition_agrees hrest
        simp only [Parser.bind_run, Parser.pure_run, List.append_nil]
        refine List.rel_append hfaults ?_
        exact ih m (by omega) (by omega) (by omega) hnext (startsItem_definition hS hrest)

end Sides

end Overlay.Hcl
