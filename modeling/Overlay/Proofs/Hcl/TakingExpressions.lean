import Overlay.Proofs.Hcl.TakingForms

/-!
# Rules for expressions

An expression is taken wherever one starts, and reported elsewhere.

* `ReadsExpr` says so of a rule in front of a number of tokens. A rule that is made of rules for
  expressions has the property if those have it in front of fewer tokens (`reads_expressionOf`), so
  the recursive rule has it (`reads_expression`).
* The entries of an object are taken up to its end (`takes_entries`): the rules try a whole entry first
  and start over at its key, the reader never goes back.
-/

namespace Overlay.Hcl

namespace Rule

open Overlay.Hcl.Parser (Closing)

variable {α β γ : Type} {S : Setting} {F : Frame} {back : List Token} {n d : Nat} {last : Pos}
  {t : Token} {ts us : List Token}

section

variable (hF : S.Frames F back)

include hF

/-! ## Keys -/

omit hF in
theorem traversal_refused (value : Rule Expr) (hF : S.Frames F back) {c : Cursor}
    (h : ∀ name, c.kind? ≠ some (.ident name)) : traversal value S (c.extend back) = .refused := by
  refine bind_refused (spanned_refused (bind_refused (spanned_refused (select_extend hF rfl ?_))))
  intro k hk
  cases k with
  | ident name => exact absurd hk (h name)
  | _ => rfl

/-- No key starts with the token. -/
theorem key_refused (expr value : Rule Expr) {c : Cursor}
    (h : ∀ k, c.kind? = some k → Parser.startsKey k = false) :
    key expr value S (c.extend back) = .refused := by
  have hident : ∀ name, c.kind? ≠ some (.ident name) := fun name hk => by cases h _ hk
  refine (choice_refused (bind_refused (traversal_refused value hF hident))).trans ?_
  refine choice_refused (bind_refused (ahead_refused (satisfy_extend hF rfl fun k hk => ?_)))
  have hkey := h k hk
  cases hexpr : startsKeyExpr k with
  | false => rfl
  | true =>
    rw [startsKey_iff.2 (.inr hexpr)] at hkey
    cases hkey

/-- Whether an expression starts with the token. -/
def startsExpr : TokenKind → Bool
  | .ident _ | .number _ | .str _ | .heredoc _ => true
  | .mark m => m == .minus || m.isOpener
  | .stray _ => false

/-- In front of up to `n` tokens the rule takes an expression where one starts. -/
structure ReadsExpr (S : Setting) (F : Frame) (back : List Token) (n : Nat) (expr : Rule Expr) :
    Prop where
  taken : ∀ (last : Pos) {d t ts}, 2 * n + 1 ≤ d → (t :: ts).length ≤ n → S.Inside back (t :: ts) →
    startsExpr t.kind = true → Takes S F back (t :: ts) expr (Parser.value d) ⟨last, t :: ts⟩
  refused : ∀ {c : Cursor}, (∀ k, c.kind? = some k → startsExpr k = false) →
    expr S (c.extend back) = .refused

theorem takes_valueOf {expr : Rule Expr} (hexpr : ReadsExpr S F back n expr) (hd : 2 * n + 1 ≤ d) :
    TakesIn S F back n (valueOf expr) (Parser.value d) := by
  intro c hn hc
  obtain ⟨d, rfl⟩ := Nat.exists_eq_succ_of_ne_zero (by omega : d ≠ 0)
  rcases c.kind_cases (startsExpr · = false) with hstart | ⟨last, t, ts, rfl, hstart⟩
  · refine (takes_invalidExpression hF c hn hc).congr ?_ ?_
    · exact (choice_refused (hexpr.refused hstart)).trans (choice_single _)
    · rcases c with ⟨last, - | ⟨⟨kind, span⟩, ts⟩⟩
      · rfl
      · have hkind := hstart kind rfl
        cases kind with
        | mark m =>
          cases m with
          | minus | openBrace | openBracket | openParen => cases hkind
          | _ => rfl
        | stray => rfl
        | _ => cases hkind
  · have htaken := hexpr.taken last hd hn hc (eq_true_of_ne_false hstart)
    exact ⟨choice_taken htaken.run, htaken.left⟩

theorem takes_key (last : Pos) {expr : Rule Expr} (hexpr : ReadsExpr S F back n expr) (hd : 2 * n + 1 ≤ d)
    {more : Parser (List Step)} (hmore : TakesIn S F back ts.length (many (step (valueOf expr))) more)
    (hn : (t :: ts).length ≤ n) (hc : S.Inside back (t :: ts))
    (hstart : Parser.startsKey t.kind = true) :
    Takes S F back (t :: ts) (key expr (valueOf expr)) (Parser.keyOf (Parser.value d) more)
      ⟨last, t :: ts⟩ := by
  -- A name starts a path; any other key is an expression, and both sides tell them by one token.
  rcases startsKey_iff.1 hstart with ⟨name, hname⟩ | hkey
  · rcases t with ⟨kind, span⟩
    cases hname
    have hbehind := hc.mono (List.suffix_cons _ ts)
    have hpath := takes_traversal hF last name span hmore hbehind
    have htaken := hpath.bind (f := fun path => pure (Key.path path)) (Nat.le_refl _) hbehind
      fun path => takes_pure (Key.path path)
    exact .of_read rfl (choice_taken htaken.run) (htaken.left.trans (List.suffix_cons _ ts))
  · have hident : ∀ name, t.kind ≠ .ident name := by
      intro name h
      rw [h] at hkey
      cases hkey
    have hpath : traversal (valueOf expr) S ⟨last, t :: ts ++ back⟩ = .refused :=
      traversal_refused (c := ⟨last, t :: ts⟩) _ hF fun name h => hident name (Option.some.inj h)
    have hahead : ahead (satisfy startsKeyExpr) S ⟨last, t :: ts ++ back⟩ =
        .taken ⟨(), ⟨last, t :: ts ++ back⟩, []⟩ := ahead_taken (satisfy_taken hkey)
    have hstarts : startsExpr t.kind = true := by
      cases hkind : t.kind with
      | mark m =>
        rw [hkind] at hkey
        cases m <;> first | rfl | cases hkey
      | stray =>
        rw [hkind] at hkey
        cases hkey
      | _ => rfl
    have htaken := (hexpr.taken last hd hn hc hstarts).bind
      (f := fun e => pure (Key.expr e)) hn hc fun e => takes_pure (Key.expr e)
    refine htaken.congr ?_ ?_
    · refine (choice_refused (bind_refused hpath)).trans ((choice_single _).trans ?_)
      exact bind_silent hahead
    · rcases t with ⟨kind, span⟩
      cases kind with
      | ident name => exact absurd rfl (hident name)
      | _ => rfl

/-! ## Entries -/

/-- In front of the tokens of `c` the rule takes what was reported as `faults` and what the reader takes
behind it, in front of the tokens of `behind`. -/
structure TakesBehind (S : Setting) (F : Frame) (back us : List Token)
    (faults : List (Located SyntaxFault)) (r : Rule α) (c : Cursor) (p : Parser α) (behind : Cursor) :
    Prop where
  run : r S (c.extend back) =
    .taken ⟨(p F behind).value, (p F behind).next.extend back, faults ++ (p F behind).faults⟩
  left : (p F behind).next.rest <:+ us

omit hF in
theorem TakesBehind.of_read {faults : List (Located SyntaxFault)} {r : Rule α} {c behind : Cursor}
    {p : Parser α} {x : Parsed α} (hp : p F behind = x)
    (hr : r S (c.extend back) = .taken ⟨x.value, x.next.extend back, faults ++ x.faults⟩)
    (hx : x.next.rest <:+ us) : TakesBehind S F back us faults r c p behind := by
  subst hp
  exact ⟨hr, hx⟩

/-- Whether the token separates a key from its value. -/
def separatesKey (k : TokenKind) : Bool := k == .mark .equals || k == .mark .colon

/-- Whether the token separates an entry from the next one. -/
def separatesEntry (k : TokenKind) : Bool := k == .mark .comma || k.isNewline

omit hF in
/-- The value behind a key and its separator. -/
theorem entry_taken {expr value : Rule Expr} {p : Parser Expr} {c : Cursor} {k : Key} {stop : Pos}
    {faults : List (Located SyntaxFault)}
    (hkey : key expr value S c = .taken ⟨k, ⟨stop, t :: ts ++ back⟩, faults⟩)
    (hsep : separatesKey t.kind = true) (hvalue : Takes S F back ts value p ⟨t.span.stop, ts⟩) :
    entry expr value S c =
      .taken ⟨.mk k (p F ⟨t.span.stop, ts⟩).value, (p F ⟨t.span.stop, ts⟩).next.extend back,
        faults ++ (p F ⟨t.span.stop, ts⟩).faults⟩ := by
  refine (bind_taken hkey).trans ?_
  have hseparator : satisfy separatesKey S ⟨stop, t :: ts ++ back⟩ =
      .taken ⟨(), ⟨t.span.stop, ts ++ back⟩, []⟩ := satisfy_taken hsep
  have hbehind := (bind_silent (f := fun _ => value >>= fun v => pure (Entry.mk k v))
    hseparator).trans (return_taken hvalue.run (Entry.mk k))
  exact congrArg (Outcome.after faults) hbehind

/-- No entry where no separator follows the key. -/
theorem entry_refused {expr value : Rule Expr} {c c' : Cursor} {k : Key}
    {faults : List (Located SyntaxFault)}
    (hkey : key expr value S c = .taken ⟨k, c'.extend back, faults⟩)
    (hsep : ∀ k, c'.kind? = some k → separatesKey k = false) : entry expr value S c = .refused :=
  bind_taken_refused hkey (bind_refused (satisfy_extend hF rfl hsep))

/-- An object without another separated entry. -/
theorem entries_last {expr value : Rule Expr} {c : Cursor} (hc : S.Inside back c.rest)
    {last? : Option Entry} {closing : Closing} {next : Cursor} {faults : List (Located SyntaxFault)}
    (hentry : separatedEntry expr value S (c.extend back) = .refused)
    (hlast : lastEntry expr value S (c.skipNewlines.extend back) =
      .taken ⟨(last?, closing), next, faults⟩) :
    entries expr value S (c.extend back) = .taken ⟨(last?.toList, closing), next, faults⟩ := by
  refine (bind_silent (many_refused hentry)).trans ?_
  refine (bind_silent (takes_newlines hF c (Nat.le_refl _) hc).run).trans ?_
  exact return_taken hlast fun x => ([] ++ x.1.toList, x.2)

/-- What stands between the braces where no key starts. -/
theorem entries_end {expr value : Rule Expr} {c : Cursor} (hn : c.rest.length ≤ n)
    (hdepth : n < S.depth) (hc : S.Inside back c.rest)
    (hkey : ∀ k, c.skipNewlines.kind? = some k → Parser.startsKey k = false) :
    Takes S F back c.rest (entries expr value)
      (do
        Parser.newlines
        return ([], ← Parser.close .closeBrace .invalidObjectKey)) c := by
  have hskip := Cursor.skipNewlines_suffix c
  have hrefused := key_refused hF expr value hkey
  have hentry : entry expr value S (c.skipNewlines.extend back) = .refused := bind_refused hrefused
  have hclose := takes_close hF .closeBrace .invalidObjectKey hdepth c.skipNewlines
    (hskip.length_le.trans hn) (hc.mono hskip)
  have hread : (do
      Parser.newlines
      return ([], ← Parser.close .closeBrace .invalidObjectKey) : Parser (List Entry × Closing)) F c =
        ⟨([], (Parser.close .closeBrace .invalidObjectKey F c.skipNewlines).value),
          (Parser.close .closeBrace .invalidObjectKey F c.skipNewlines).next,
          (Parser.close .closeBrace .invalidObjectKey F c.skipNewlines).faults⟩ := by
    rw [Parser.newlines_bind, Parser.bind_run]
    exact congrArg (Parsed.mk _ _) (List.append_nil _)
  rcases hclose with ⟨hrun, hleft⟩
  -- From here on only the outcome of closing matters, not how it was reached.
  generalize Parser.close .closeBrace .invalidObjectKey F c.skipNewlines = x at hread hrun hleft
  have hlast : lastEntry expr value S (c.skipNewlines.extend back) =
      .taken ⟨(none, x.value), x.next.extend back, x.faults⟩ := by
    refine (choice_refused (bind_refused hentry)).trans (choice_taken ?_)
    refine return_taken ((choice_drop ?_).trans hrun) (Prod.mk none)
    exact bind_refused (discard_refused hrefused)
  refine .of_read hread (entries_last hF hc ?_ hlast) (hleft.trans hskip)
  exact (bind_silent (takes_newlines hF c hn hc).run).trans (bind_refused hentry)

/-- What stands between the braces if no separator follows the next key. -/
theorem entries_noSeparator {expr value : Rule Expr} {c behind : Cursor} {k : Key} {kind : TokenKind}
    {faults : List (Located SyntaxFault)} (hn : c.rest.length ≤ n) (hdepth : n < S.depth)
    (hc : S.Inside back c.rest) (hsuffix : behind.rest <:+ c.rest)
    (hkind : c.skipNewlines.kind? = some kind) (hcloser : kind.isCloser = false)
    (hkey : key expr value S (c.skipNewlines.extend back) = .taken ⟨k, behind.extend back, faults⟩)
    (hsep : ∀ k, behind.kind? = some k → separatesKey k = false) :
    TakesBehind S F back behind.rest faults (entries expr value) c Parser.noSeparator behind := by
  have hentry := entry_refused hF hkey hsep
  have hskipped : TakesIn S F back n
      (discard (report lookahead .missingKeyValueSeparator) >>= fun _ =>
        skipToClose .closeBrace >>= fun _ => pure Closing.broken)
      (Parser.report .missingKeyValueSeparator >>= fun _ =>
        Parser.move (Cursor.skipToClose .closeBrace) >>= fun _ => pure Closing.broken) :=
    (takes_report hF _).bind fun _ => (takes_skipToClose hF _ hdepth).bind fun _ =>
      takes_pure Closing.broken
  have hrun := (hskipped behind (hsuffix.length_le.trans hn) (hc.mono hsuffix)).run
  -- The key's first token is no closer, so the object cannot be closed where the key stands.
  have hclosing : closing .closeBrace S (c.skipNewlines.extend back) = .refused := by
    rw [closing_run hF .closeBrace (hc.mono (Cursor.skipNewlines_suffix c)), hkind]
    dsimp only
    rw [if_neg, if_neg]
    · rw [hcloser]
      nofun
    · rintro rfl
      cases hcloser
  have hlast : lastEntry expr value S (c.skipNewlines.extend back) =
      .taken ⟨(none, .broken), (Parser.noSeparator F behind).next.extend back,
        faults ++ (Parser.noSeparator F behind).faults⟩ := by
    refine (choice_refused (bind_refused hentry)).trans (choice_taken ?_)
    refine return_taken (x := ⟨Closing.broken, (Parser.noSeparator F behind).next.extend back,
      faults ++ (Parser.noSeparator F behind).faults⟩) ?_ (Prod.mk none)
    refine (choice_refused hclosing).trans (choice_taken ?_)
    refine (bind_taken (discard_taken hkey)).trans ?_
    exact congrArg (Outcome.after faults) hrun
  refine ⟨(entries_last hF hc ?_ hlast).trans rfl, Cursor.skipToClose_suffix _ behind⟩
  exact (bind_silent (takes_newlines hF c hn hc).run).trans (bind_refused hentry)

/-- What stands between the braces if nothing separates the next entry from the end. -/
theorem entries_unseparated {expr value : Rule Expr} {c behind : Cursor} {e : Entry}
    {faults : List (Located SyntaxFault)} (hn : c.rest.length ≤ n) (hdepth : n < S.depth)
    (hc : S.Inside back c.rest) (hsuffix : behind.rest <:+ c.rest)
    (hentry : entry expr value S (c.skipNewlines.extend back) = .taken ⟨e, behind.extend back, faults⟩)
    (hsep : ∀ k, behind.kind? = some k → separatesEntry k = false) :
    TakesBehind S F back behind.rest faults (entries expr value) c (Parser.lastEntry e) behind := by
  rcases takes_close hF .closeBrace .missingAttributeSeparator hdepth behind
    (hsuffix.length_le.trans hn) (hc.mono hsuffix) with ⟨hclose, hleft⟩
  have hread : Parser.lastEntry e F behind =
      ⟨([e], (Parser.close .closeBrace .missingAttributeSeparator F behind).value),
        (Parser.close .closeBrace .missingAttributeSeparator F behind).next,
        (Parser.close .closeBrace .missingAttributeSeparator F behind).faults⟩ :=
    congrArg (Parsed.mk _ _) (List.append_nil _)
  generalize Parser.close .closeBrace .missingAttributeSeparator F behind = x at hread hclose hleft
  have hlast : lastEntry expr value S (c.skipNewlines.extend back) =
      .taken ⟨(some e, x.value), x.next.extend back, faults ++ x.faults⟩ := by
    refine choice_taken ((bind_taken hentry).trans ?_)
    exact congrArg (Outcome.after faults) (return_taken hclose (Prod.mk (some e)))
  refine .of_read hread (entries_last hF hc ?_ hlast) hleft
  refine (bind_silent (takes_newlines hF c hn hc).run).trans ?_
  exact bind_taken_refused hentry (bind_refused (satisfy_extend hF rfl hsep))

omit hF in
/-- What is read behind the entries that have a separator, and how they go in front of it. -/
theorem behind_separated (expr value : Rule Expr) (es : List Entry) :
    (do
      newlines
      let (last, closing) ← lastEntry expr value
      return (es ++ last.toList, closing) : Rule (List Entry × Closing)) =
      (do
        newlines
        lastEntry expr value) >>= fun x => pure (es ++ x.1.toList, x.2) := by
  simp only [bind_assoc]

/-- An entry in front of its separator, and what stands between the braces behind it. -/
theorem entries_cons {expr value : Rule Expr} {c : Cursor} {e : Entry} {stop : Pos}
    {faults : List (Located SyntaxFault)} {y : Parsed (List Entry × Closing)}
    (hc : S.Inside back c.rest) (hsuffix : t :: ts <:+ c.rest)
    (hentry : entry expr value S (c.skipNewlines.extend back) =
      .taken ⟨e, ⟨stop, t :: ts ++ back⟩, faults⟩)
    (hsep : separatesEntry t.kind = true)
    (hrest : entries expr value S ⟨t.span.stop, ts ++ back⟩ = .taken y) :
    entries expr value S (c.extend back) =
      .taken ⟨(e :: y.value.1, y.value.2), y.next, faults ++ y.faults⟩ := by
  let g : List Entry × Closing → List Entry × Closing := fun x => (e :: x.1, x.2)
  have htaken : separatedEntry expr value S (c.extend back) =
      .taken ⟨e, ⟨t.span.stop, ts ++ back⟩, faults⟩ := by
    refine (bind_silent (takes_newlines hF c (Nat.le_refl _) hc).run).trans ((bind_taken hentry).trans ?_)
    have hseparator : satisfy separatesEntry S ⟨stop, t :: ts ++ back⟩ =
        .taken ⟨(), ⟨t.span.stop, ts ++ back⟩, []⟩ := satisfy_taken hsep
    have hbehind := bind_silent (f := fun _ => pure e) hseparator
    refine (congrArg (Outcome.after faults) hbehind).trans ?_
    exact congrArg (fun fs => Outcome.taken ⟨e, _, fs⟩) (List.append_nil faults)
  have hshort : (⟨t.span.stop, ts ++ back⟩ : Cursor).rest.length < (c.extend back).rest.length := by
    have hlength := hsuffix.length_le
    simp only [Cursor.extend, List.length_append, List.length_cons] at hlength ⊢
    omega
  refine many_bind_taken (g := g) htaken hshort (fun es c z h => ?_) hrest
  rw [behind_separated] at h ⊢
  exact bind_pure_taken g h

omit hF in
theorem behindKey_of_not {k : Key} {c : Cursor}
    (hsep : ∀ k, c.kind? = some k → separatesKey k = false) :
    Parser.behindKey d k F c = Parser.noSeparator F c := by
  rcases c with ⟨last, - | ⟨⟨kind, span⟩, ts⟩⟩
  · rfl
  · have hkind := hsep kind rfl
    cases kind with
    | mark m =>
      cases m with
      | equals | colon => cases hkind
      | _ => rfl
    | _ => rfl

omit hF in
theorem behindKey_of_separatesKey {k : Key} (hsep : separatesKey t.kind = true) :
    Parser.behindKey d k F ⟨last, t :: ts⟩ =
      (Parser.value d >>= fun e => Parser.behindValue d (.mk k e)) F ⟨t.span.stop, ts⟩ := by
  rcases t with ⟨kind, span⟩
  cases kind with
  | mark m =>
    cases m with
    | equals | colon => rfl
    | _ => cases hsep
  | _ => cases hsep

omit hF in
theorem behindValue_of_not {e : Entry} {c : Cursor}
    (hsep : ∀ k, c.kind? = some k → separatesEntry k = false) :
    Parser.behindValue d e F c = Parser.lastEntry e F c := by
  rcases c with ⟨last, - | ⟨⟨kind, span⟩, ts⟩⟩
  · rfl
  · have hkind := hsep kind rfl
    cases kind with
    | mark m =>
      cases m with
      | comma | newline => cases hkind
      | _ => rfl
    | _ => rfl

omit hF in
theorem behindValue_of_separatesEntry {e : Entry} (hsep : separatesEntry t.kind = true) :
    Parser.behindValue d e F ⟨last, t :: ts⟩ = Parser.entryBefore d e F ⟨last, t :: ts⟩ := by
  rcases t with ⟨kind, span⟩
  cases kind with
  | mark m =>
    cases m with
    | comma | newline => rfl
    | _ => cases hsep
  | _ => cases hsep

theorem takes_behindValue {expr value : Rule Expr} {c behind : Cursor} {e : Entry}
    {faults : List (Located SyntaxFault)} (hn : c.rest.length ≤ n) (hdepth : n < S.depth)
    (hc : S.Inside back c.rest) (hsuffix : behind.rest <:+ c.rest)
    (hmore : ∀ i < n, TakesIn S F back i (entries expr value) (Parser.objectEntries d))
    (hentry : entry expr value S (c.skipNewlines.extend back) =
      .taken ⟨e, behind.extend back, faults⟩) :
    TakesBehind S F back behind.rest faults (entries expr value) c (Parser.behindValue d e) behind := by
  rcases behind.kind_cases (separatesEntry · = false) with hsep | ⟨stop, t, ts, rfl, hsep⟩
  · have hlast := entries_unseparated hF hn hdepth hc hsuffix hentry hsep
    exact .of_read (behindValue_of_not hsep) hlast.run hlast.left
  · have hsep := eq_true_of_ne_false hsep
    have hlt : ts.length < n := hsuffix.length_le.trans hn
    have hrest := hmore ts.length hlt ⟨t.span.stop, ts⟩ (Nat.le_refl _)
      (hc.mono ((List.suffix_cons t ts).trans hsuffix))
    have hread : Parser.entryBefore d e F ⟨stop, t :: ts⟩ =
        ⟨(e :: (Parser.objectEntries d F ⟨t.span.stop, ts⟩).value.1,
          (Parser.objectEntries d F ⟨t.span.stop, ts⟩).value.2),
          (Parser.objectEntries d F ⟨t.span.stop, ts⟩).next,
          (Parser.objectEntries d F ⟨t.span.stop, ts⟩).faults⟩ :=
      congrArg (Parsed.mk _ _) (List.append_nil _)
    refine .of_read ((behindValue_of_separatesEntry hsep).trans hread) ?_
      (hrest.left.trans (List.suffix_cons t ts))
    exact entries_cons hF hc hsuffix hentry hsep hrest.run

theorem takes_behindKey {expr value : Rule Expr} {c behind : Cursor} {k : Key} {kind : TokenKind}
    {faults : List (Located SyntaxFault)} (hn : c.rest.length ≤ n) (hdepth : n < S.depth)
    (hc : S.Inside back c.rest) (hsuffix : behind.rest <:+ c.rest)
    (hvalue : ∀ i < n, TakesIn S F back i value (Parser.value d))
    (hmore : ∀ i < n, TakesIn S F back i (entries expr value) (Parser.objectEntries d))
    (hkind : c.skipNewlines.kind? = some kind) (hcloser : kind.isCloser = false)
    (hkey : key expr value S (c.skipNewlines.extend back) = .taken ⟨k, behind.extend back, faults⟩) :
    TakesBehind S F back behind.rest faults (entries expr value) c (Parser.behindKey d k) behind := by
  rcases behind.kind_cases (separatesKey · = false) with hsep | ⟨stop, u, us, rfl, hsep⟩
  · have hskipped := entries_noSeparator hF hn hdepth hc hsuffix hkind hcloser hkey hsep
    exact .of_read (behindKey_of_not hsep) hskipped.run hskipped.left
  · have hsep := eq_true_of_ne_false hsep
    have hus := (List.suffix_cons u us).trans hsuffix
    have hlt : us.length < n := hsuffix.length_le.trans hn
    have hv := hvalue us.length hlt ⟨u.span.stop, us⟩ (Nat.le_refl _) (hc.mono hus)
    have hentry := entry_taken hkey hsep hv
    have hrest := takes_behindValue hF hn hdepth hc (hv.left.trans hus) hmore hentry
    refine .of_read (behindKey_of_separatesKey hsep) ?_
      (hrest.left.trans (hv.left.trans (List.suffix_cons u us)))
    refine hrest.run.trans ?_
    rw [Parser.bind_run, List.append_assoc]

omit hF in
theorem not_isCloser_of_startsKey {k : TokenKind} (h : Parser.startsKey k = true) :
    k.isCloser = false := by
  cases k with
  | mark m => cases m <;> first | rfl | cases h
  | _ => rfl

omit hF in
/-- The token behind the line ends decides whether an entry follows. -/
theorem objectEntries_read (d : Nat) (c : Cursor) :
    Parser.objectEntries (d + 1) F c =
      (match c.skipNewlines.kind? with
      | none => pure ([], .unclosed)
      | some k =>
        if Parser.startsKey k then
          Parser.keyOf (Parser.value d) (Parser.steps d) >>= Parser.behindKey d
        else do
          return ([], ← Parser.close .closeBrace .invalidObjectKey) :
        Parser (List Entry × Closing)) F c.skipNewlines := by
  rw [Parser.objectEntries_succ]
  rfl

/-- What stands between the braces of an object. -/
theorem takes_entries {expr : Rule Expr} (hdepth : n < S.depth)
    (hexpr : ∀ i ≤ n, ReadsExpr S F back i expr) (hd : 2 * n + 2 ≤ d) :
    TakesIn S F back n (entries expr (valueOf expr)) (Parser.objectEntries d) := by
  -- On the tokens left: each entry takes at least the first token of its key.
  induction n using Nat.strong_induction_on generalizing d with
  | h n ih =>
    obtain ⟨d, rfl⟩ := Nat.exists_eq_succ_of_ne_zero (by omega : d ≠ 0)
    have hvalue : ∀ i < n, ∀ {d}, 2 * i + 1 ≤ d →
        TakesIn S F back i (valueOf expr) (Parser.value d) :=
      fun i hi _ hd => takes_valueOf hF (hexpr i hi.le) hd
    intro c hn hc
    have hskip := Cursor.skipNewlines_suffix c
    have hread := objectEntries_read (F := F) d c
    rcases c.skipNewlines.kind_cases (Parser.startsKey · = false) with
      hstart | ⟨last, t, ts, hfront, hstart⟩
    · refine (entries_end hF hn hdepth hc hstart).congr rfl (hread.trans ?_)
      rw [Parser.newlines_bind]
      cases hkind : c.skipNewlines.kind? with
      | none =>
        rw [Parser.bind_run, Parser.close_none hkind]
        rfl
      | some k =>
        dsimp only
        rw [if_neg (Bool.eq_false_iff.1 (hstart k hkind))]
    · have hstart := eq_true_of_ne_false hstart
      have hkind : c.skipNewlines.kind? = some t.kind := congrArg Cursor.kind? hfront
      rw [hfront] at hskip
      have hlt : ts.length < n := hskip.length_le.trans hn
      have hmore : TakesIn S F back ts.length (many (step (valueOf expr))) (Parser.steps d) :=
        takes_steps hF (hlt.trans hdepth) (fun i hi => hvalue i (hi.trans hlt)) (by omega)
      have hkey := takes_key hF last (hexpr n (Nat.le_refl n)) (by omega : 2 * n + 1 ≤ d)
        hmore (hskip.length_le.trans hn) (hc.mono hskip) hstart
      rw [hkind] at hread
      dsimp only at hread
      rw [if_pos hstart] at hread
      rw [← hfront] at hkey
      have hsuffix := hkey.left.trans hskip
      have hrest := takes_behindKey (d := d) hF hn hdepth hc hsuffix
        (fun i hi => hvalue i hi (by omega))
        (fun i hi => ih i hi (hi.trans hdepth) (fun j hj => hexpr j (hj.trans hi.le)) (by omega))
        hkind (not_isCloser_of_startsKey hstart) hkey.run
      exact .of_read hread hrest.run (hrest.left.trans hsuffix)

/-! ## Expressions -/

omit hF in
/-- The form of an expression and its span. -/
theorem takes_form {expr : Rule Expr} {p : Parser (Span → Expr)}
    (h : Takes S F back us (form expr (valueOf expr)) p ⟨last, t :: ts⟩)
    (hread : Parser.value d F ⟨last, t :: ts⟩ =
      (p >>= fun make => Parser.spanFrom t.span.start >>= fun span => pure (make span)) F
        ⟨last, t :: ts⟩) :
    Takes S F back us (expressionOf expr) (Parser.value d) ⟨last, t :: ts⟩ :=
  Takes.congr (takes_spanned (m := fun make span => make span) h rfl fun _ _ => rfl) rfl hread

omit hF in
/-- A literal takes its token. -/
theorem takes_literal {expr : Rule Expr} {make : Span → Expr}
    (hliteral : literal S ⟨last, t :: ts ++ back⟩ = .taken ⟨make, ⟨t.span.stop, ts ++ back⟩, []⟩)
    (hread : Parser.value d F ⟨last, t :: ts⟩ = ⟨make t.span, ⟨t.span.stop, ts⟩, []⟩) :
    Takes S F back (t :: ts) (expressionOf expr) (Parser.value d) ⟨last, t :: ts⟩ := by
  refine takes_form (p := Parser.advance >>= fun _ => pure make) ?_ hread
  exact ⟨choice_taken hliteral, List.suffix_cons t ts⟩

omit hF in
/-- A name is a literal for the rule if it is one for the reader. -/
theorem literal_ident (last : Pos) (ts : List Token) (name : String) (span : Span) :
    (∃ make, literal S ⟨last, ⟨.ident name, span⟩ :: ts⟩ = .taken ⟨make, ⟨span.stop, ts⟩, []⟩ ∧
      Parser.literalName? name span = some (make span)) ∨
    literal S ⟨last, ⟨.ident name, span⟩ :: ts⟩ = .refused ∧ Parser.literalName? name span = none := by
  unfold literal Parser.literalName?
  by_cases htrue : name = "true"
  · exact .inl ⟨.bool true, select_taken (if_pos htrue), if_pos htrue⟩
  rw [if_neg htrue]
  by_cases hfalse : name = "false"
  · exact .inl ⟨.bool false, select_taken ((if_neg htrue).trans (if_pos hfalse)), if_pos hfalse⟩
  rw [if_neg hfalse]
  by_cases hnull : name = "null"
  · refine .inl ⟨.null, select_taken ?_, if_pos hnull⟩
    exact (if_neg htrue).trans ((if_neg hfalse).trans (if_pos hnull))
  · refine .inr ⟨select_refused ?_, if_neg hnull⟩
    exact (if_neg htrue).trans ((if_neg hfalse).trans (if_neg hnull))

omit hF in
/-- What is read where an expression starts with a name. -/
theorem value_named (d : Nat) (last : Pos) (name : String) (span : Span) (ts : List Token) :
    Parser.value (d + 1) F ⟨last, ⟨.ident name, span⟩ :: ts⟩ =
      (match Parser.literalName? name span with
      | some e => do
        Parser.advance
        return e
      | none => do
        if (← Parser.peekSecond) = some (.mark .openParen) then
          Parser.call (Parser.elements d) name span.start
        else return .traversal (← Parser.traversal (Parser.steps d) name span) : Parser Expr) F
          ⟨last, ⟨.ident name, span⟩ :: ts⟩ := rfl

/-- A literal, a call or a traversal, which start with a name. -/
theorem takes_named (last : Pos) (name : String) (span : Span) {expr : Rule Expr}
    (hdepth : ts.length < S.depth) (hts : S.Inside back ts)
    (hvalue : ∀ i ≤ ts.length, ∀ {d}, 2 * i + 1 ≤ d →
      TakesIn S F back i (valueOf expr) (Parser.value d)) (hd : 2 * ts.length + 2 ≤ d) :
    Takes S F back (⟨.ident name, span⟩ :: ts) (expressionOf expr) (Parser.value (d + 1))
      ⟨last, ⟨.ident name, span⟩ :: ts⟩ := by
  have hread := value_named (F := F) d last name span ts
  rcases literal_ident (S := S) last (ts ++ back) name span with
    ⟨make, hliteral, hname⟩ | ⟨hliteral, hname⟩
  · rw [hname] at hread
    exact takes_literal hliteral hread
  rw [hname] at hread
  dsimp only at hread
  rw [Parser.peekSecond_bind] at hread
  -- A name that is no literal is a call in front of a parenthesis and a path otherwise.
  by_cases hparen : (⟨span.stop, ts⟩ : Cursor).kind? = some (.mark .openParen)
  · rcases Cursor.exists_cons_of_kind? hparen with ⟨⟨kind, openerSpan⟩, us, rfl, hopener⟩
    cases hopener
    have hshort : us.length ≤ (⟨.mark .openParen, openerSpan⟩ :: us).length := Nat.le_succ _
    have hitems := takes_commaList hF (fun i hi => hvalue i (hi.trans hshort)) (d := d) (by omega)
      (hshort.trans_lt hdepth) .closeParen .missingArgumentSeparator
    have hform := takes_call last name span openerSpan hitems (hts.mono (List.suffix_cons _ us))
    refine (takes_form ⟨?_, hform.left⟩ (hread.trans ?_)).mono
      ((List.suffix_cons _ us).trans (List.suffix_cons _ _))
    · exact (choice_refused hliteral).trans ((choice_refused rfl).trans (choice_taken hform.run))
    · simp only [bind_assoc, pure_bind, Parser.ite_bind]
      rfl
  · have hcall : call (valueOf expr) S ⟨last, ⟨.ident name, span⟩ :: ts ++ back⟩ = .refused := by
      refine (bind_silent (ident_run name span)).trans (bind_refused (spanOf_refused ?_))
      exact just_extend (c := ⟨span.stop, ts⟩) hF (by decide) hparen
    have hsteps : TakesIn S F back ts.length (many (step (valueOf expr))) (Parser.steps d) :=
      takes_steps hF hdepth (fun i hi => hvalue i hi.le) (by omega)
    have hpath := takes_path hF last name span hsteps hts
    refine (takes_form ⟨?_, hpath.left⟩ (hread.trans ?_)).mono (List.suffix_cons _ ts)
    · exact (choice_refused hliteral).trans ((choice_refused rfl).trans
        ((choice_refused hcall).trans (choice_taken hpath.run)))
    · refine (congrFun (congrFun (if_neg hparen) F) _).trans ?_
      simp only [bind_assoc, pure_bind]
      rfl

/-- No form starts with the token. -/
theorem expressionOf_refused (expr : Rule Expr) {c : Cursor}
    (hstart : ∀ k, c.kind? = some k → startsExpr k = false) :
    expressionOf expr S (c.extend back) = .refused := by
  refine bind_refused (spanned_refused ?_)
  rcases c with ⟨last, - | ⟨⟨kind, span⟩, ts⟩⟩
  · rcases hF.ending with ⟨rfl, -⟩ | ⟨-, ⟨kind, brace⟩, ends, rfl, hbrace, -⟩
    · rfl
    · cases hbrace
      rfl
  · have hkind := hstart kind rfl
    cases kind with
    | mark m =>
      cases m with
      | minus | openBracket | openBrace | openParen => cases hkind
      | _ => rfl
    | stray => rfl
    | _ => cases hkind

/-- An expression made of expressions is taken if those are. -/
theorem reads_expressionOf {expr : Rule Expr} (hdepth : n < S.depth)
    (hexpr : ∀ i < n, ReadsExpr S F back i expr) : ReadsExpr S F back n (expressionOf expr) := by
  refine ⟨fun last d t ts hd hn hc hstart => ?_, expressionOf_refused hF expr⟩
  obtain ⟨d, rfl⟩ := Nat.exists_eq_succ_of_ne_zero (by omega : d ≠ 0)
  have hlt : ts.length < n := hn
  have hshort := hlt.trans hdepth
  have hts := hc.mono (List.suffix_cons t ts)
  have hvalue : ∀ i ≤ ts.length, ∀ {d}, 2 * i + 1 ≤ d →
      TakesIn S F back i (valueOf expr) (Parser.value d) :=
    fun i hi _ hd => takes_valueOf hF (hexpr i (hi.trans_lt hlt)) hd
  -- The first token picks the alternative, and every one in front of it refuses that token.
  rcases t with ⟨kind, span⟩
  cases kind with
  | number text => exact takes_literal rfl rfl
  | str text => exact takes_literal rfl rfl
  | heredoc text => exact takes_literal rfl rfl
  | stray => cases hstart
  | ident name => exact takes_named hF last name span hshort hts hvalue (by omega)
  | mark m =>
    cases m with
    | minus =>
      have hoperand := hvalue ts.length (Nat.le_refl _) (d := d) (by omega)
      have hform := takes_negate last span hoperand hts
      refine (takes_form ⟨(choice_refused rfl).trans (choice_taken hform.run), hform.left⟩ ?_).mono
        (List.suffix_cons _ ts)
      simp only [bind_assoc, pure_bind]
      rfl
    | openBracket =>
      have hitems := takes_commaList hF hvalue (d := d) (by omega) hshort .closeBracket
        .missingItemSeparator
      have hform := takes_tuple last span hitems hts
      refine (takes_form ⟨?_, hform.left⟩ ?_).mono (List.suffix_cons _ ts)
      · exact (choice_refused rfl).trans ((choice_refused rfl).trans ((choice_refused rfl).trans
          ((choice_refused rfl).trans (choice_taken hform.run))))
      · simp only [bind_assoc, pure_bind, Parser.ite_bind]
        rfl
    | openBrace =>
      have hentries := takes_entries hF (d := d) hshort (fun i hi => hexpr i (hi.trans_lt hlt))
        (by omega)
      have hform := takes_object last span hentries hts
      refine (takes_form ⟨?_, hform.left⟩ ?_).mono (List.suffix_cons _ ts)
      · exact (choice_refused rfl).trans ((choice_refused rfl).trans ((choice_refused rfl).trans
          ((choice_refused rfl).trans ((choice_refused rfl).trans (choice_taken hform.run)))))
      · simp only [bind_assoc, pure_bind, Parser.ite_bind]
        rfl
    | openParen =>
      have hinner := hvalue ts.length (Nat.le_refl _) (d := d) (by omega)
      have hform := takes_parens hF last span hinner hshort hts
      refine (takes_form ⟨?_, hform.left⟩ ?_).mono (List.suffix_cons _ ts)
      · exact (choice_refused rfl).trans ((choice_refused rfl).trans ((choice_refused rfl).trans
          ((choice_refused rfl).trans ((choice_refused rfl).trans ((choice_refused rfl).trans
            (choice_taken hform.run))))))
      · simp only [bind_assoc, pure_bind]
        rfl
    | _ => cases hstart

/-- In front of fewer tokens than rules may call themselves deep, an expression is taken where one
starts. -/
theorem reads_unroll {k : Nat} (hk : n < k) (hdepth : n < S.depth) :
    ReadsExpr S F back n (unroll expressionOf k) := by
  induction n using Nat.strong_induction_on generalizing k with
  | h n ih =>
    obtain ⟨k, rfl⟩ := Nat.exists_eq_succ_of_ne_zero (Nat.ne_zero_of_lt hk)
    exact reads_expressionOf hF hdepth fun i hi => ih i hi (by omega) (hi.trans hdepth)

theorem reads_expression (hdepth : n < S.depth) : ReadsExpr S F back n expression :=
  ⟨fun last _ _ _ hd hn hc hstart =>
    ((reads_unroll hF hdepth hdepth).taken last hd hn hc hstart).congr rfl rfl,
    fun hstart => (reads_unroll hF hdepth hdepth).refused hstart⟩

theorem takes_value (hdepth : n < S.depth) : TakesIn S F back n value Parser.expression := by
  intro c hn hc
  have hread := takes_valueOf hF (reads_expression hF (n := c.rest.length) (hn.trans_lt hdepth))
    (Nat.le_succ _) c (Nat.le_refl _) hc
  exact hread.congr rfl rfl

end

end Rule

end Overlay.Hcl
