import Overlay.Proofs.Hcl.Recovery
import Overlay.Proofs.Hcl.TakingExpressions

/-!
# Rules for items

An item is taken wherever no closing brace stands, well-formed or not.

* The rules try an attribute, a block and the malformed items at one place, one after the other. The reader
  decides behind the name (`itemOf_labels`).
* `ReadsItem` says that a rule takes items in front of a number of tokens. It goes from the items in a block
  to the block (`reads_itemOf`), and so holds of the recursive rule (`reads_item`).
* Lines of items are taken to where no item starts (`lines_cons`, `lines_end`), by one induction for
  all kinds of lines (`takes_lines`).
-/

namespace Overlay.Hcl

namespace Parser

variable {α β : Type}

/-- The items of a block, and the line ends behind the last one. -/
def behindLines (items : Parser (List α)) : Parser (List α) := do
  let xs ← items
  newlines
  return xs

theorem behindLines_run (items : Parser (List α)) (F : Frame) (c : Cursor) :
    behindLines items F c =
      ⟨(items F c).value, (items F c).next.skipNewlines, (items F c).faults⟩ :=
  congrArg (Parsed.mk _ _) (List.append_nil _)

end Parser

namespace Rule

open Overlay.Hcl.Parser (Closing)

variable {α β γ : Type} {S : Setting} {F : Frame} {back : List Token} {n d : Nat} {last : Pos}
  {t : Token} {ts us : List Token}

section

variable (hF : S.Frames F back)

include hF

/-! ## Items -/

theorem takes_labels : TakesIn S F back n (many label) Parser.labels := by
  intro c hn hc
  rcases c with ⟨last, ts⟩
  induction ts generalizing last with
  | nil => exact ⟨many_refused (bind_refused (spanned_refused (select_end hF rfl))), List.suffix_rfl⟩
  | cons t ts ih =>
    have hbehind := hc.mono (List.suffix_cons t ts)
    have hrest := ih t.span.stop (Nat.le_of_succ_le hn) hbehind
    rcases t with ⟨kind, span⟩
    have hlabel : ∀ text, label S ⟨last, ⟨kind, span⟩ :: ts ++ back⟩ =
        .taken ⟨⟨text, span⟩, ⟨span.stop, ts ++ back⟩, []⟩ →
        many label S ⟨last, ⟨kind, span⟩ :: ts ++ back⟩ =
          .taken ⟨⟨text, span⟩ :: (Parser.labels F ⟨span.stop, ts⟩).value,
            (Parser.labels F ⟨span.stop, ts⟩).next.extend back,
            (Parser.labels F ⟨span.stop, ts⟩).faults⟩ :=
      fun text h => many_taken h (Nat.lt_succ_self _) hrest.run
    have hfaults : (Parser.labels F ⟨span.stop, ts⟩).faults = [] := Parser.labelsFrom_faults _ _
    rw [hfaults] at hlabel
    cases kind with
    | str text => exact ⟨hlabel text rfl, hrest.left.trans (List.suffix_cons _ ts)⟩
    | ident text => exact ⟨hlabel text rfl, hrest.left.trans (List.suffix_cons _ ts)⟩
    | _ => exact ⟨many_refused rfl, List.suffix_rfl⟩

/-- No item comes next. -/
theorem lines_end {item : Rule (Option α)} {p : Parser (List α)} {c : Cursor}
    (hc : S.Inside back c.rest) (hitem : item S (c.skipNewlines.extend back) = .refused)
    (hread : p F c = ⟨[], c.skipNewlines, []⟩) :
    Takes S F back c.rest (lines item) (Parser.behindLines p) c := by
  have hnewlines := (takes_newlines hF c (Nat.le_refl _) hc).run
  have hbehind : Parser.behindLines p F c = ⟨[], c.skipNewlines, []⟩ := by
    rw [Parser.behindLines_run, hread]
    exact congrArg (fun c => Parsed.mk [] c []) (Cursor.skipNewlines_idem c)
  refine .of_read hbehind ?_ (Cursor.skipNewlines_suffix c)
  have hrefused : (newlines >>= fun _ => item) S (c.extend back) = .refused :=
    (bind_silent hnewlines).trans hitem
  exact (bind_silent (many_refused hrefused)).trans (bind_silent hnewlines)

/-- An item and the items behind it. -/
theorem lines_cons {item : Rule (Option α)} {p more : Parser (List α)} {q : Parser (Option α)}
    {c : Cursor} (hc : S.Inside back c.rest) (hskip : c.skipNewlines = ⟨last, t :: ts⟩)
    (hitem : Takes S F back ts item q ⟨last, t :: ts⟩)
    (hmore : TakesIn S F back ts.length (lines item) (Parser.behindLines more))
    (hread : p F c = (q >>= fun x => more >>= fun xs => pure (x.toList ++ xs)) F ⟨last, t :: ts⟩) :
    Takes S F back c.rest (lines item) (Parser.behindLines p) c := by
  have hsuffix : t :: ts <:+ c.rest := by
    have hfront := Cursor.skipNewlines_suffix c
    rwa [hskip] at hfront
  have hts := (List.suffix_cons t ts).trans hsuffix
  rcases hitem with ⟨hitem, hleft⟩
  rw [Parser.bind_run] at hread
  generalize q F ⟨last, t :: ts⟩ = x at hread hitem hleft
  have hrest := hmore x.next hleft.length_le (hc.mono (hleft.trans hts))
  rw [← hskip] at hitem
  have htaken : (newlines >>= fun _ => item) S (c.extend back) =
      .taken ⟨x.value, x.next.extend back, x.faults⟩ :=
    (bind_silent (takes_newlines hF c (Nat.le_refl _) hc).run).trans hitem
  have hbehind : Parser.behindLines p F c =
      ⟨x.value.toList ++ (Parser.behindLines more F x.next).value,
        (Parser.behindLines more F x.next).next,
        x.faults ++ (Parser.behindLines more F x.next).faults⟩ := by
    rw [Parser.behindLines_run, Parser.behindLines_run, hread]
    exact congrArg (fun fs => Parsed.mk _ _ (x.faults ++ fs)) (List.append_nil _)
  refine .of_read hbehind ?_ (hrest.left.trans (hleft.trans hts))
  -- The item is put in front of whatever the later lines give.
  let g : List α → List α := (x.value.toList ++ ·)
  refine many_bind_taken (g := g) htaken ?_ (fun xs c z h => ?_) hrest.run
  · have hlt : x.next.rest.length < c.rest.length :=
      (Nat.lt_succ_of_le hleft.length_le).trans_le hsuffix.length_le
    simp only [Cursor.extend, List.length_append]
    exact Nat.add_lt_add_right hlt _
  · have hreduce : (x.value :: xs).reduceOption = g xs.reduceOption := by
      show _ = x.value.toList ++ xs.reduceOption
      cases x.value <;> simp
    rw [hreduce]
    exact bind_pure_taken g h

omit hF in
/-- What comes behind line ends: no item, or one that is taken, in front of more lines. -/
inductive LineStep (S : Setting) (F : Frame) (back : List Token) (item : Rule (Option α))
    (p more : Parser (List α)) (c : Cursor) : Prop
  | stop (hitem : item S (c.skipNewlines.extend back) = .refused)
      (hread : p F c = ⟨[], c.skipNewlines, []⟩)
  | line {last : Pos} {t : Token} {ts : List Token} {q : Parser (Option α)}
      (hskip : c.skipNewlines = ⟨last, t :: ts⟩) (hitem : Takes S F back ts item q ⟨last, t :: ts⟩)
      (hread : p F c =
        (q >>= fun x => more >>= fun xs => pure (x.toList ++ xs)) F ⟨last, t :: ts⟩)

/-- Lines are taken one at a time, with a depth above the number of tokens. -/
theorem takes_lines {item : Rule (Option α)} {reader : Nat → Parser (List α)}
    (hstep : ∀ d c, c.rest.length ≤ n → c.rest.length ≤ d → S.Inside back c.rest →
      LineStep S F back item (reader (d + 1)) (reader d) c)
    (hd : n < d) : TakesIn S F back n (lines item) (Parser.behindLines (reader d)) := by
  induction n using Nat.strong_induction_on generalizing d with
  | h n ih =>
    obtain ⟨d, rfl⟩ := Nat.exists_eq_succ_of_ne_zero (Nat.ne_zero_of_lt hd)
    intro c hn hc
    cases hstep d c hn (hn.trans (Nat.le_of_lt_succ hd)) hc with
    | stop hitem hread => exact lines_end hF hc hitem hread
    | @line last t ts q hskip hitem hread =>
      have hsuffix := Cursor.skipNewlines_suffix c
      rw [hskip] at hsuffix
      have hlt : ts.length < n := hsuffix.length_le.trans hn
      have hmore := ih ts.length hlt (d := d) (fun d c hc => hstep d c (hc.trans hlt.le)) (by omega)
      exact lines_cons hF hc hskip hitem hmore hread

/-- A malformed item: what stands in front of the place of its fault, and the rest of its line. -/
theorem malformed_taken {front : Rule Unit} {place : Rule Span} {c : Cursor} {behind : Cursor}
    (hfront : front S c = .taken ⟨(), behind.extend back, []⟩)
    (hplace : place S (behind.extend back) = .taken ⟨Parser.ahead F behind, behind.extend back, []⟩)
    (hbehind : S.Inside back behind.rest) (fault : SyntaxFault) :
    (malformed front place fault : Rule (Option α)) S c =
      .taken ⟨none, behind.recoverLine.extend back, [⟨fault, Parser.ahead F behind⟩]⟩ := by
  have hreport : report place fault S (behind.extend back) =
      .taken ⟨Parser.ahead F behind, behind.extend back, [⟨fault, Parser.ahead F behind⟩]⟩ :=
    bind_silent hplace
  have hline := (takes_recoverLine hF behind (Nat.le_refl _) hbehind).run
  refine (bind_silent hfront).trans ((bind_taken (discard_taken hreport)).trans ?_)
  exact congrArg (Outcome.after [⟨fault, Parser.ahead F behind⟩]) (return_taken hline fun _ => none)

/-- A malformed item that is reported at the next token. -/
theorem malformed_ahead {front : Rule Unit} {c : Cursor} {behind : Cursor}
    (hfront : front S c = .taken ⟨(), behind.extend back, []⟩)
    (hbehind : S.Inside back behind.rest) (fault : SyntaxFault) :
    (malformed front lookahead fault : Rule (Option α)) S c =
      .taken ⟨none, behind.recoverLine.extend back, [⟨fault, Parser.ahead F behind⟩]⟩ :=
  malformed_taken hF hfront (takes_lookahead hF behind (Nat.le_refl _) hbehind).run hbehind fault

theorem takes_attr (last : Pos) (name : String) (span equals : Span) (hdepth : ts.length < S.depth)
    (hts : S.Inside back ts) :
    Takes S F back ts attr
      (do
        Parser.advance
        Parser.attributeBody name span)
      ⟨last, ⟨.ident name, span⟩ :: ⟨.mark .equals, equals⟩ :: ts⟩ := by
  refine takes_behind (ident_run name span) (takes_behind (just_taken rfl) ?_)
  exact TakesIn.bind (takes_value hF hdepth) (fun e => (takes_endOfItem hF).bind fun _ =>
    takes_pure (Item.attr ⟨name, span, e⟩)) ⟨equals.stop, ts⟩ (Nat.le_refl _) hts

end

section

variable (hF : S.Frames F [])

include hF

omit hF in
/-- The closing brace of a block, if it is there. -/
theorem takes_closeBrace :
    TakesIn S F [] n (do return (← optional (just .closeBrace)).isSome) (Parser.mark .closeBrace) := by
  intro c hn hc
  have hread := Parser.mark_bind (F := F) (c := c) .closeBrace pure
  rw [bind_pure] at hread
  by_cases hkind : c.kind? = some (.mark .closeBrace)
  · rw [if_pos hkind] at hread
    rcases c with ⟨last, rest⟩
    rcases Cursor.exists_cons_of_kind? hkind with ⟨t, ts, rfl, ht⟩
    refine .of_read hread ?_ (List.suffix_cons t ts)
    exact return_taken (optional_taken (just_taken ht)) Option.isSome
  · rw [if_neg hkind] at hread
    refine .of_read hread ?_ List.suffix_rfl
    refine return_taken (optional_refused ?_) Option.isSome
    rcases c with ⟨last, - | ⟨t, ts⟩⟩
    · rfl
    · exact just_refused fun h => hkind (congrArg some h)

omit hF in
/-- The braces of a block and what stands between them. -/
theorem takes_blockBody {item : Rule (Option Item)} {items : Parser (List Item)} {opener : Span}
    (hitems : TakesIn S F [] ts.length (lines item) (Parser.behindLines items))
    (hts : S.Inside [] ts) :
    Takes S F [] ts
      (do
        let opener ← spanOf (just .openBrace)
        let items ← lines item
        let closed ← optional (just .closeBrace)
        return (opener, items, closed.isSome))
      (do
        Parser.advance
        let xs ← Parser.behindLines items
        let closed ← Parser.mark .closeBrace
        return (opener, xs, closed)) ⟨last, ⟨.mark .openBrace, opener⟩ :: ts⟩ := by
  refine takes_behind (spanOf_taken (just_taken rfl)) ?_
  have hclosed : TakesIn S F [] ts.length
      (lines item >>= fun items => (optional (just .closeBrace) >>= fun closed => pure closed.isSome) >>=
        fun closed => pure (opener, items, closed))
      (Parser.behindLines items >>= fun items => Parser.mark .closeBrace >>= fun closed =>
        pure (opener, items, closed)) :=
    hitems.bind fun items => takes_closeBrace.bind fun closed => takes_pure (opener, items, closed)
  simp only [bind_assoc, pure_bind] at hclosed
  exact hclosed ⟨opener.stop, ts⟩ (Nat.le_refl _) hts

/-- The end of a block. -/
theorem takes_blockEnd (closed : Bool) (opener : Span) (block : Item) :
    TakesIn S F [] n
      (do
        if !closed then emit .unclosedBlock opener
        endOfItem
        return block)
      (do
        unless closed do Parser.reportAt opener .unclosedBlock
        Parser.endOfItem
        return block) := by
  have hend : TakesIn S F [] n (endOfItem >>= fun _ => pure block)
      (Parser.endOfItem >>= fun _ => pure block) :=
    (takes_endOfItem hF).bind fun _ => takes_pure block
  cases closed with
  | true => exact hend
  | false =>
    have hreport : TakesIn S F [] n (emit .unclosedBlock opener)
        (Parser.reportAt opener .unclosedBlock) := fun _ _ _ => ⟨rfl, List.suffix_rfl⟩
    exact hreport.bind fun _ => hend

/-- A block up to its closing brace. -/
theorem takes_blockFront (last : Pos) (name : String) {span opener : Span}
    {item : Rule (Option Item)} {items : Parser (List Item)} {labels : List Label} {stop : Pos}
    (hitems : TakesIn S F [] ts.length (lines item) (Parser.behindLines items))
    (hus : S.Inside [] us) (hts : S.Inside [] ts)
    (hlabels : Parser.labels F ⟨span.stop, us⟩ = ⟨labels, ⟨stop, ⟨.mark .openBrace, opener⟩ :: ts⟩, []⟩) :
    Takes S F [] ts
      (do
        let (kind, kindSpan) ← ident
        let labels ← many label
        let ((opener, items, closed), bodySpan) ← spanned do
          let opener ← spanOf (just .openBrace)
          let items ← lines item
          let closed ← optional (just .closeBrace)
          return (opener, items, closed.isSome)
        return ((⟨kind, kindSpan, labels⟩ : Header), opener, items, bodySpan, closed))
      (do
        Parser.advance
        let labels ← Parser.labels
        (do
          Parser.advance
          let xs ← Parser.behindLines items
          let closed ← Parser.mark .closeBrace
          return (opener, xs, closed)) >>= fun x => Parser.spanFrom opener.start >>= fun bodySpan =>
            pure (⟨name, span, labels⟩, x.1, x.2.1, bodySpan, x.2.2))
      ⟨last, ⟨.ident name, span⟩ :: us⟩ := by
  refine takes_behind (ident_run name span) ?_
  refine (takes_labels hF ⟨span.stop, us⟩ (Nat.le_refl _) hus).bindAt ?_
  rw [hlabels]
  exact takes_spanned (takes_blockBody hitems hts) rfl fun _ _ => rfl

theorem takes_block (last : Pos) (name : String) {span opener : Span} {item : Rule (Option Item)}
    {items : Parser (List Item)} {labels : List Label} {stop : Pos}
    (hitems : TakesIn S F [] ts.length (lines item) (Parser.behindLines items))
    (hus : S.Inside [] us) (hts : S.Inside [] ts)
    (hlabels : Parser.labels F ⟨span.stop, us⟩ = ⟨labels, ⟨stop, ⟨.mark .openBrace, opener⟩ :: ts⟩, []⟩) :
    Takes S F [] ts (block item)
      (do
        Parser.advance
        let labels ← Parser.labels
        Parser.blockBody items ⟨name, span, labels⟩) ⟨last, ⟨.ident name, span⟩ :: us⟩ := by
  have hfront := takes_blockFront hF last name hitems hus hts hlabels
  -- The missing brace is reported only after the body, at the place of the opening one.
  have hend := takes_spannedAt (g := fun x s => do
      unless x.2.2.2.2 do Parser.reportAt opener .unclosedBlock
      Parser.endOfItem
      return Item.block x.1 x.2.2.1 x.2.2.2.1 s)
    (f := fun x => do
      if !x.1.2.2.2.2 then emit .unclosedBlock x.1.2.1
      endOfItem
      return Item.block x.1.1 x.1.2.2.1 x.1.2.2.2.1 x.2) hfront rfl fun s => ?_
  · have hread := Parser.bind_silent (f := fun labels => items.blockBody ⟨name, span, labels⟩) hlabels
    refine hend.congr rfl (hread.trans ?_)
    simp only [bind_assoc, pure_bind]
    rw [Parser.advance_bind]
    refine Eq.trans ?_ (Parser.bind_silent hlabels).symm
    unfold Parser.blockBody Parser.behindLines
    simp only [bind_assoc, pure_bind]
    rfl
  · exact (takes_blockEnd hF _ opener _ _ hfront.left.length_le (hts.mono hfront.left)).mono hfront.left

end

/-- In front of up to `n` tokens the rule takes an item, and refuses a closing brace. -/
structure ReadsItem (S : Setting) (F : Frame) (n : Nat) (item : Rule (Option Item)) : Prop where
  taken : ∀ (last : Pos) {d t ts}, n ≤ d → (t :: ts).length ≤ n → S.Inside [] (t :: ts) →
    t.kind ≠ .mark .closeBrace →
    Takes S F [] ts item (Parser.itemOf (Parser.items d)) ⟨last, t :: ts⟩
  refused : ∀ {c : Cursor}, (∀ k, c.kind? = some k → k = .mark .closeBrace) → item S c = .refused

section

variable (hF : S.Frames F [])

include hF

/-- The items of a block. -/
theorem takes_items {item : Rule (Option Item)} (hitem : ∀ i ≤ n, ReadsItem S F i item)
    (hd : n < d) : TakesIn S F [] n (lines item) (Parser.behindLines (Parser.items d)) := by
  refine takes_lines hF (fun d c hn hlow hc => ?_) hd
  have hread := hitem c.rest.length hn
  rcases c.skipNewlines.kind_cases (· = .mark .closeBrace) with
    hend | ⟨last, t, ts, hbehind, hkind⟩
  · refine .stop ?_ ?_
    · rw [Cursor.extend_nil]
      exact hread.refused hend
    · rw [Parser.items, Parser.newlines_bind, Parser.peekKind_bind]
      cases hkind : c.skipNewlines.kind? with
      | none => rfl
      | some k =>
        cases hend k hkind
        rfl
  · have hskip := Cursor.skipNewlines_suffix c
    rw [hbehind] at hskip
    refine .line hbehind (hread.taken last hlow hskip.length_le (hc.mono hskip) hkind) ?_
    rw [Parser.items, Parser.newlines_bind, hbehind, Parser.peekKind_bind]
    rcases t with ⟨kind, span⟩
    cases kind with
    | mark m =>
      cases m with
      | closeBrace => exact absurd rfl hkind
      | _ => rfl
    | _ => rfl

omit hF in
theorem ident_refused {c : Cursor} (h : ∀ name, c.kind? ≠ some (.ident name)) :
    ident S c = .refused := by
  rcases c with ⟨last, - | ⟨⟨kind, span⟩, ts⟩⟩
  · rfl
  · cases kind with
    | ident name => exact absurd rfl (h name)
    | _ => rfl

omit hF in
/-- Without a name only the last alternative is left. -/
theorem itemOf_noName (item : Rule (Option Item)) {c : Cursor} (hident : ident S c = .refused) :
    itemOf item S c =
      (malformed (pure ()) (ahead (spanOf (satisfy (· != .mark .closeBrace)))) .definitionRequired :
        Rule (Option Item)) S c := by
  refine (choice_refused (bind_refused (bind_refused hident))).trans ?_
  refine (choice_refused (bind_refused (bind_refused (spanned_refused (bind_refused hident))))).trans ?_
  refine (choice_refused (bind_refused (bind_refused (discard_refused hident)))).trans ?_
  exact (choice_refused (bind_refused (discard_refused hident))).trans (choice_single _)

/-- An item that starts with no name. -/
theorem takes_required {item : Rule (Option Item)} {items : Parser (List Item)}
    (hc : S.Inside [] (t :: ts)) (hname : ∀ name, t.kind ≠ .ident name)
    (hkind : t.kind ≠ .mark .closeBrace) :
    Takes S F [] ts (itemOf item) (Parser.itemOf items) ⟨last, t :: ts⟩ := by
  have hident : ident S ⟨last, t :: ts ++ []⟩ = .refused :=
    ident_refused fun name h => hname name (Option.some.inj h)
  have hread : Parser.itemOf items F ⟨last, t :: ts⟩ =
      Parser.skipItem .definitionRequired F ⟨last, t :: ts⟩ := by
    rcases t with ⟨kind, span⟩
    cases kind with
    | ident name => exact absurd rfl (hname name)
    | _ => rfl
  have hother : satisfy (· != .mark .closeBrace) S ⟨last, t :: ts ++ []⟩ =
      .taken ⟨(), ⟨t.span.stop, ts ++ []⟩, []⟩ := satisfy_taken (bne_iff_ne.2 hkind)
  refine .of_read hread ((itemOf_noName item hident).trans ?_) (Cursor.recoverLine_behind last t ts)
  have hfront : (pure () : Rule Unit) S ⟨last, t :: ts ++ []⟩ =
      .taken ⟨(), (⟨last, t :: ts⟩ : Cursor).extend [], []⟩ := rfl
  exact malformed_taken hF hfront (ahead_taken (spanOf_taken hother)) hc _

/-- An item that starts with a name, an equals sign and anything. -/
theorem takes_assigned {item : Rule (Option Item)} {items : Parser (List Item)} {name : String}
    {span equals : Span} (hdepth : ts.length < S.depth) (hts : S.Inside [] ts) :
    Takes S F [] ts (itemOf item) (Parser.itemOf items)
      ⟨last, ⟨.ident name, span⟩ :: ⟨.mark .equals, equals⟩ :: ts⟩ := by
  have hattr := (takes_attr hF last name span equals hdepth
    hts).bind (Nat.le_refl _) hts fun x => takes_pure (some x)
  refine Takes.congr ⟨choice_taken hattr.run, hattr.left⟩ rfl ?_
  rfl

omit hF in
/-- What is read behind the name of an item without an equals sign. -/
theorem itemOf_labels (last : Pos) (name : String) {span : Span} {items : Parser (List Item)}
    {labels : List Label} {behind : Cursor}
    (hequals : (⟨span.stop, ts⟩ : Cursor).kind? ≠ some (.mark .equals))
    (hlabels : Parser.labels F ⟨span.stop, ts⟩ = ⟨labels, behind, []⟩) :
    Parser.itemOf items F ⟨last, ⟨.ident name, span⟩ :: ts⟩ =
      if behind.kind? = some (.mark .openBrace) then
        (do return some (← Parser.blockBody items ⟨name, span, labels⟩) : Parser (Option Item)) F behind
      else if labels.isEmpty then Parser.skipItem .invalidDefinition F behind
      else Parser.skipItem .invalidBlock F behind := by
  -- The name alone decides nothing, so both sides read on behind it.
  have hread : Parser.itemOf items F ⟨last, ⟨.ident name, span⟩ :: ts⟩ =
      (do
        if ← Parser.atMark .equals then return some (← Parser.attributeBody name span)
        else
          let labels ← Parser.labels
          if ← Parser.atMark .openBrace then
            return some (← Parser.blockBody items ⟨name, span, labels⟩)
          else if labels.isEmpty then Parser.skipItem .invalidDefinition
          else Parser.skipItem .invalidBlock : Parser (Option Item)) F ⟨span.stop, ts⟩ := rfl
  rw [hread, Parser.atMark_bind, beq_eq_false_iff_ne.2 hequals]
  refine (Parser.bind_silent hlabels).trans ?_
  rw [Parser.atMark_bind]
  by_cases hbrace : behind.kind? = some (.mark .openBrace)
  · rw [if_pos hbrace, beq_iff_eq.2 hbrace]
    rfl
  · rw [if_neg hbrace, beq_eq_false_iff_ne.2 hbrace]
    cases labels <;> rfl

/-- No attribute without an equals sign behind its name. -/
theorem attr_refused {name : String} {span : Span}
    (hequals : (⟨span.stop, ts⟩ : Cursor).kind? ≠ some (.mark .equals)) :
    attr S ⟨last, ⟨.ident name, span⟩ :: ts ++ []⟩ = .refused :=
  (bind_silent (ident_run name span)).trans
    (bind_refused (just_extend (c := ⟨span.stop, ts⟩) hF (by decide) hequals))

/-- No block without a brace behind its labels. -/
theorem block_refused (item : Rule (Option Item)) {name : String} {span : Span}
    {labels : List Label} {behind : Cursor}
    (hmany : many label S ⟨span.stop, ts ++ []⟩ = .taken ⟨labels, behind.extend [], []⟩)
    (hbrace : behind.kind? ≠ some (.mark .openBrace)) :
    block item S ⟨last, ⟨.ident name, span⟩ :: ts ++ []⟩ = .refused := by
  have hopener := spanOf_refused (just_extend (S := S) hF (by decide) hbrace)
  refine bind_refused (spanned_refused ((bind_silent (ident_run name span)).trans ?_))
  exact (bind_silent hmany).trans (bind_refused (spanned_refused (bind_refused hopener)))

/-- What is left of an item without an attribute and a block: the labels, if there are any, are named in
its report. -/
theorem malformed_labels (last : Pos) (name : String) (item : Rule (Option Item)) {span : Span}
    {labels : List Label} {behind : Cursor} (hbehind : S.Inside [] behind.rest)
    (hattr : attr S ⟨last, ⟨.ident name, span⟩ :: ts ++ []⟩ = .refused)
    (hblock : block item S ⟨last, ⟨.ident name, span⟩ :: ts ++ []⟩ = .refused)
    (hmany : many label S ⟨span.stop, ts ++ []⟩ = .taken ⟨labels, behind.extend [], []⟩) :
    itemOf item S ⟨last, ⟨.ident name, span⟩ :: ts ++ []⟩ =
      .taken ⟨none, behind.recoverLine.extend [],
        [⟨if labels.isEmpty then .invalidDefinition else .invalidBlock,
          Parser.ahead F behind⟩]⟩ := by
  have hname : (discard ident : Rule Unit) S ⟨last, ⟨.ident name, span⟩ :: ts ++ []⟩ =
      .taken ⟨(), (⟨span.stop, ts⟩ : Cursor).extend [], []⟩ := discard_taken (ident_run name span)
  refine (choice_refused (bind_refused hattr)).trans ((choice_refused (bind_refused hblock)).trans ?_)
  rcases many_cases hmany with ⟨hlabel, hnone⟩ | ⟨x, z, hlabel, hrest, hsome⟩
  · -- Nothing but the name stands in front of the fault.
    cases congrArg Parsed.value hnone
    have hplace := congrArg Parsed.next hnone
    dsimp only at hplace
    rw [← hplace] at hlabel
    rw [show (⟨span.stop, ts⟩ : Cursor).extend [] = behind.extend [] from hplace.symm] at hname
    refine (choice_refused (bind_refused ?_)).trans (choice_taken (malformed_ahead hF hname hbehind _))
    exact (bind_silent hname).trans (bind_refused (discard_refused hlabel))
  · cases congrArg Parsed.value hsome
    have hfaults := List.append_eq_nil_iff.1 (congrArg Parsed.faults hsome).symm
    have hfirst := discard_taken hlabel
    have hothers := discard_taken hrest
    rw [hfaults.1] at hfirst
    rw [hfaults.2, ← congrArg Parsed.next hsome] at hothers
    have hfront : (do
        discard ident
        discard label
        discard (many label) : Rule Unit) S ⟨last, ⟨.ident name, span⟩ :: ts ++ []⟩ =
          .taken ⟨(), behind.extend [], []⟩ :=
      (bind_silent hname).trans ((bind_silent hfirst).trans hothers)
    exact choice_taken (malformed_ahead hF hfront hbehind _)

/-- An item with a name and labels that no brace follows. -/
theorem takes_unopened {item : Rule (Option Item)} {items : Parser (List Item)} {name : String}
    {span : Span} {labels : List Label} {behind : Cursor} (hts : S.Inside [] ts)
    (hequals : (⟨span.stop, ts⟩ : Cursor).kind? ≠ some (.mark .equals))
    (hlabels : Parser.labels F ⟨span.stop, ts⟩ = ⟨labels, behind, []⟩)
    (hbrace : behind.kind? ≠ some (.mark .openBrace)) :
    Takes S F [] ts (itemOf item) (Parser.itemOf items) ⟨last, ⟨.ident name, span⟩ :: ts⟩ := by
  have hread : Parser.itemOf items F ⟨last, ⟨.ident name, span⟩ :: ts⟩ = _ :=
    itemOf_labels last name hequals hlabels
  rw [if_neg hbrace] at hread
  rcases takes_labels hF ⟨span.stop, ts⟩ (Nat.le_refl _) hts with ⟨hmany, hsuffix⟩
  rw [hlabels] at hmany hsuffix
  have hrun := malformed_labels hF last name item (hts.mono hsuffix)
    (attr_refused hF hequals) (block_refused hF item hmany hbrace) hmany
  refine .of_read (x := ⟨none, behind.recoverLine,
    [⟨if labels.isEmpty then .invalidDefinition else .invalidBlock, Parser.ahead F behind⟩]⟩)
    (hread.trans ?_) hrun ((Cursor.recoverLine_suffix behind).trans hsuffix)
  cases labels <;> rfl

/-- A block: a name, labels and an opening brace, and what stands behind that. -/
theorem takes_opened {item : Rule (Option Item)} {items : Parser (List Item)} {name : String}
    {span : Span} {labels : List Label} {behind : Cursor} (hts : S.Inside [] ts)
    (hequals : (⟨span.stop, ts⟩ : Cursor).kind? ≠ some (.mark .equals))
    (hlabels : Parser.labels F ⟨span.stop, ts⟩ = ⟨labels, behind, []⟩)
    (hbrace : behind.kind? = some (.mark .openBrace))
    (hitems : ∀ us, us <:+ ts → TakesIn S F [] us.length (lines item) (Parser.behindLines items)) :
    Takes S F [] ts (itemOf item) (Parser.itemOf items) ⟨last, ⟨.ident name, span⟩ :: ts⟩ := by
  have hread : Parser.itemOf items F ⟨last, ⟨.ident name, span⟩ :: ts⟩ = _ :=
    itemOf_labels last name hequals hlabels
  rw [if_pos hbrace] at hread
  have hsuffix : behind.rest <:+ ts := by
    have hlabelsSuffix := Parser.labelsFrom_suffix span.stop ts
    rwa [show Parser.labelsFrom span.stop ts = _ from hlabels] at hlabelsSuffix
  rcases behind with ⟨stop, rest⟩
  rcases Cursor.exists_cons_of_kind? hbrace with ⟨⟨kind, opener⟩, us, rfl, hmark⟩
  cases hmark
  have hus := (List.suffix_cons _ us).trans hsuffix
  have hblock := (takes_block hF last name (hitems us hus) hts (hts.mono hus) hlabels).bind
    (Nat.le_refl _) (hts.mono hus) fun x => takes_pure (some x)
  -- Without an equals sign the attribute rule refuses, and the block rule is tried next.
  have hattr : attr S ⟨last, ⟨.ident name, span⟩ :: ts ++ []⟩ = .refused :=
    attr_refused hF hequals
  have hchoice : itemOf item S ⟨last, ⟨.ident name, span⟩ :: ts ++ []⟩ =
      (block item >>= fun x => pure (some x)) S ⟨last, ⟨.ident name, span⟩ :: ts ++ []⟩ :=
    (choice_refused (bind_refused hattr)).trans ((choice_taken hblock.run).trans hblock.run.symm)
  refine (hblock.congr hchoice (hread.trans ?_)).mono hus
  simp only [bind_assoc]
  exact (Parser.bind_silent (F := F) (p := Parser.labels)
    (f := fun labels => Parser.blockBody items ⟨name, span, labels⟩ >>= fun x =>
      pure (some x)) hlabels).symm

omit hF in
/-- No item starts with a closing brace, and none stands at the end. -/
theorem itemOf_refused (item : Rule (Option Item)) {c : Cursor}
    (hend : ∀ k, c.kind? = some k → k = .mark .closeBrace) : itemOf item S c = .refused := by
  have hident : ident S c = .refused := by
    refine ident_refused fun name h => ?_
    cases hend _ h
  refine (itemOf_noName item hident).trans ((bind_silent rfl).trans ?_)
  refine bind_refused (discard_refused (bind_refused (ahead_refused (spanOf_refused ?_))))
  rcases c with ⟨last, - | ⟨t, ts⟩⟩
  · rfl
  · refine satisfy_refused ?_
    rw [hend t.kind rfl]
    rfl

/-- An item made of items is taken if those are. -/
theorem reads_itemOf {item : Rule (Option Item)} (hdepth : n < S.depth)
    (hitem : ∀ i < n, ReadsItem S F i item) : ReadsItem S F n (itemOf item) := by
  refine ⟨fun last d t ts hd hn hc hkind => ?_, itemOf_refused item⟩
  have hlt : ts.length < n := hn
  have hts := hc.mono (List.suffix_cons t ts)
  by_cases hname : ∀ name, t.kind ≠ .ident name
  · exact takes_required hF hc hname hkind
  push Not at hname
  rcases hname with ⟨name, hname⟩
  rcases t with ⟨kind, span⟩
  cases hname
  by_cases hequals : (⟨span.stop, ts⟩ : Cursor).kind? = some (.mark .equals)
  · rcases Cursor.exists_cons_of_kind? hequals with ⟨⟨kind, equals⟩, us, rfl, hmark⟩
    cases hmark
    have hus := List.suffix_cons (⟨.mark .equals, equals⟩ : Token) us
    have hshort : us.length < S.depth := (hus.length_le.trans_lt hlt).trans hdepth
    exact (takes_assigned hF hshort (hts.mono hus)).mono hus
  have hlabels : Parser.labels F ⟨span.stop, ts⟩ =
      ⟨(Parser.labels F ⟨span.stop, ts⟩).value, (Parser.labels F ⟨span.stop, ts⟩).next, []⟩ :=
    congrArg (Parsed.mk _ _) (Parser.labelsFrom_faults span.stop ts)
  by_cases hbrace : (Parser.labels F ⟨span.stop, ts⟩).next.kind? = some (.mark .openBrace)
  · refine takes_opened hF hts hequals hlabels hbrace fun us hus => ?_
    have hshort : us.length < n := hus.length_le.trans_lt hlt
    exact takes_items hF (fun i hi => hitem i (hi.trans_lt hshort)) (hshort.trans_le hd)
  · exact takes_unopened hF hts hequals hlabels hbrace

theorem reads_item {k : Nat} (hk : n < k) (hdepth : n < S.depth) :
    ReadsItem S F n (unroll itemOf k) := by
  induction n using Nat.strong_induction_on generalizing k with
  | h n ih =>
    obtain ⟨k, rfl⟩ := Nat.exists_eq_succ_of_ne_zero (Nat.ne_zero_of_lt hk)
    exact reads_itemOf hF hdepth fun i hi => ih i hi (by omega) (hi.trans hdepth)

/-! ## Whole texts -/

omit hF in
/-- A closing brace that closes nothing is reported and taken. -/
theorem takes_strayBrace {brace : Rule Unit}
    (hbrace : brace S ⟨last, t :: ts⟩ = .taken ⟨(), ⟨t.span.stop, ts⟩, []⟩) :
    (strayBrace brace : Rule (Option α)) S ⟨last, t :: ts⟩ =
      .taken ⟨none, ⟨t.span.stop, ts⟩, [⟨.unexpectedClosingBrace, t.span⟩]⟩ := by
  have hreport : report (spanOf brace) .unexpectedClosingBrace S ⟨last, t :: ts⟩ =
      .taken ⟨t.span, ⟨t.span.stop, ts⟩, [⟨.unexpectedClosingBrace, t.span⟩]⟩ :=
    bind_silent (spanOf_taken hbrace)
  exact return_taken (discard_taken hreport) fun _ => none

/-- The items of a whole text. -/
theorem takes_topItems {item : Rule (Option Item)} (hitem : ∀ i ≤ n, ReadsItem S F i item)
    (hd : n < d) :
    TakesIn S F [] n (lines (choice [item, strayBrace (just .closeBrace)]))
      (Parser.behindLines (Parser.topItems d)) := by
  refine takes_lines hF (fun d c hn hlow hc => ?_) hd
  have hitem := hitem c.rest.length hn
  have hskip := Cursor.skipNewlines_suffix c
  rcases hbehind : c.skipNewlines with ⟨last, - | ⟨t, ts⟩⟩
  · refine .stop ?_ ?_
    · rw [hbehind]
      have hrefused : item S ⟨last, [] ++ []⟩ = .refused :=
        hitem.refused fun k hk => by cases hk
      exact (choice_refused hrefused).trans rfl
    · rw [Parser.topItems, Parser.newlines_bind, hbehind]
      rfl
  · rw [hbehind] at hskip
    -- A brace that closes nothing is reported and skipped at the top, and only there.
    by_cases hkind : t.kind = .mark .closeBrace
    · let stray : Parser (Option Item) := do
        Parser.report .unexpectedClosingBrace
        Parser.advance
        return none
      refine .line hbehind (q := stray) ?_ ?_
      · refine ⟨?_, List.suffix_rfl⟩
        have hrefused : item S ⟨last, t :: ts ++ []⟩ = .refused := by
          refine hitem.refused fun k hk => ?_
          cases hk
          exact hkind
        exact (choice_refused hrefused).trans
          (choice_taken (takes_strayBrace (just_taken hkind)))
      · rw [Parser.topItems, Parser.newlines_bind, hbehind, Parser.peekKind_bind]
        rcases t with ⟨kind, span⟩
        cases hkind
        simp only [stray, bind_assoc, pure_bind, Option.toList_none, List.nil_append, bind_pure]
        rfl
    · refine .line hbehind (q := Parser.itemOf (Parser.items d)) ?_ ?_
      · have htaken := hitem.taken last hlow hskip.length_le (hc.mono hskip) hkind
        exact ⟨choice_taken htaken.run, htaken.left⟩
      · rw [Parser.topItems, Parser.newlines_bind, hbehind, Parser.peekKind_bind]
        rcases t with ⟨kind, span⟩
        cases kind with
        | mark m =>
          cases m with
          | closeBrace => exact absurd rfl hkind
          | _ => rfl
        | _ => rfl

end

end Rule

end Overlay.Hcl
