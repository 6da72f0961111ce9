import Overlay.Proofs.Hcl.TakingItems

/-!
# Totality

Every text is taken to its end, whatever stands in it.

* Whole bodies and expressions are taken (`takes_body`, `takes_expressionText`), and so are the assignments
  of a container (`takes_assignments`).
* `Setting.ofText` and `Setting.ofContainer` are what the rules are run with. Behind the front that a
  wrapped text starts with, a container is taken to its end (`containerText_takesAll`).
* So every text has a tree, and nobody says that its syntax is invalid (`reading_is_total`).
-/

namespace Overlay.Hcl

namespace Parser

/-- What stands behind the key of an assignment, or nothing if it is malformed. -/
def assigned (key : Key) : Parser (Option Entry) := do
  if ← mark .equals then
    let value ← expression
    endOfItem
    return some (.mk key value)
  else
    report .missingKeyValueSeparator
    move Cursor.recoverLine
    return none

theorem assigned_run {F : Frame} (key : Key) (c : Cursor) :
    assigned key F c =
      if c.kind? = some (.mark .equals) then (do
        let value ← expression
        endOfItem
        return some (.mk key value) : Parser (Option Entry)) F c.advance
      else (do
        report .missingKeyValueSeparator
        move Cursor.recoverLine
        return none : Parser (Option Entry)) F c := by
  unfold assigned
  rw [mark_bind]
  rfl

/-- An assignment that starts with a token of kind `k`, or nothing if it is malformed. -/
def assignmentOf (k : TokenKind) : Parser (Option Entry) :=
  if startsKey k then entryKey >>= assigned
  else if k = .mark .closeBrace then do
    report .unexpectedClosingBrace
    advance
    return none
  else do
    report .definitionRequired
    move Cursor.recoverLine
    return none

theorem assignments_succ (depth : Nat) :
    assignments (depth + 1) = do
      newlines
      match ← peekKind with
      | none => return []
      | some k =>
        let x ← assignmentOf k
        let xs ← assignments depth
        return x.toList ++ xs := by
  rw [assignments]
  unfold assignmentOf assigned
  refine congrArg (newlines >>= ·) (funext fun _ => congrArg (peekKind >>= ·) (funext fun k => ?_))
  cases k with
  | none => rfl
  | some k =>
    simp only [bind_assoc, pure_bind, ite_bind, Option.toList, List.nil_append, bind_pure,
      List.singleton_append]

end Parser

namespace Rule

open Overlay.Hcl.Parser (Closing)

variable {α β γ : Type} {S : Setting} {F : Frame} {back : List Token} {n d : Nat} {last : Pos}
  {t : Token} {ts us : List Token}

theorem spanned_end {r : Rule α} {x : Parsed α} (h : r S ⟨last, []⟩ = .taken x) :
    spanned r S ⟨last, []⟩ = .taken ⟨(x.value, S.ending), x.next, x.faults⟩ := by
  unfold spanned
  rw [h]
  exact congrArg (fun faults => Outcome.taken ⟨_, _, faults⟩) (List.append_nil _)

section

variable (hF : S.Frames F [])

include hF

omit hF in
/-- A rule that takes everything in front of the end of the tokens. -/
theorem takes_ending {r : Rule α} {p : Parser α} {c : Cursor} (h : Takes S F [] us r p c)
    (hrest : (p F c).next.rest = []) :
    Takes S F [] [] (do
      let a ← r
      discard ending
      return a) p c := by
  have hend : (discard ending : Rule Unit) S ((p F c).next.extend []) =
      .taken ⟨(), (p F c).next.extend [], []⟩ := by
    rw [Cursor.extend_nil]
    exact discard_taken (ending_taken hrest)
  refine ⟨(bind_taken h.run).trans ?_, hrest ▸ List.suffix_rfl⟩
  refine (congrArg (Outcome.after _) (bind_silent hend)).trans ?_
  exact congrArg (fun faults => Outcome.taken ⟨_, _, faults⟩) (List.append_nil _)

/-- A whole text is taken as a body. -/
theorem takes_body {c : Cursor} (hdepth : c.rest.length < S.depth) (hc : S.Inside [] c.rest) :
    Takes S F [] [] bodyText Parser.body c := by
  have hitem : ∀ i ≤ c.rest.length, ReadsItem S F i item := fun i hi =>
    ⟨fun last _ _ _ hd hn hc hk => ((reads_item hF (hi.trans_lt hdepth) (hi.trans_lt hdepth)).taken
      last hd hn hc hk).congr rfl rfl, fun h => (reads_item hF (hi.trans_lt hdepth) (hi.trans_lt hdepth)).refused h⟩
  have hitems := takes_topItems hF (d := c.rest.length + 1) hitem (Nat.lt_succ_self _) c
    (Nat.le_refl _) hc
  have hrest := Parser.topItems_rest (F := F) (c := c) (Nat.lt_succ_self _)
  -- At the top everything is read, so no line break is left for `behindLines` to skip.
  have hread : Parser.behindLines (Parser.topItems (c.rest.length + 1)) F c =
      Parser.topItems (c.rest.length + 1) F c := by
    rw [Parser.behindLines_run]
    generalize Parser.topItems (c.rest.length + 1) F c = x at hrest ⊢
    rcases x with ⟨items, ⟨stop, rest⟩, faults⟩
    cases hrest
    rfl
  have hall := takes_ending (hitems.congr rfl hread.symm) hrest
  rcases c with ⟨last, - | ⟨t, ts⟩⟩
  · have hending : S.ending = F.ending := by
      rcases hF.ending with ⟨-, hending⟩ | ⟨-, _, _, hnil, -⟩
      · exact hending
      · cases hnil
    have hread : Parser.body F ⟨last, []⟩ = ⟨⟨[], F.ending⟩, ⟨last, []⟩, []⟩ := rfl
    refine .of_read hread ?_ List.suffix_rfl
    rw [← hending]
    exact return_taken (spanned_end hall.run) fun x => (⟨x.1, x.2⟩ : Body)
  · refine Takes.congr (takes_spanned (m := Body.mk) hall rfl fun _ _ => rfl) rfl ?_
    show Parsed.mk _ _ ([] ++ (([] ++ (_ ++ ([] ++ []))) ++ [])) = _
    rw [List.append_nil, List.append_nil]
    rfl

/-! ## Expressions -/

/-- What stands behind an expression is reported and skipped. -/
theorem takes_extra :
    TakesIn S F [] n
      (choice [
        discard ending,
        do
          discard (report lookahead .extraCharacters)
          discard (many any)])
      (do
        unless (← Parser.peek).isNone do
          Parser.report .extraCharacters
          Parser.move fun c => Cursor.skipWhile (fun _ => true) c.last c.rest) := by
  intro c hn hc
  rcases c with ⟨last, - | ⟨t, ts⟩⟩
  · exact ⟨choice_taken rfl, List.suffix_rfl⟩
  · -- Nothing stops `many any`, so it takes whatever is left.
    have hall : TakesIn S F [] n (discard (many any))
        (Parser.move fun c => Cursor.skipWhile (fun _ => true) c.last c.rest) := by
      intro c _ _
      refine ⟨?_, Cursor.skipWhile_suffix _ _ _⟩
      exact many_skipWhile (fun _ => rfl) (fun _ _ _ _ => rfl) c.last
    have hskip := ((takes_report hF .extraCharacters).bind fun _ => hall) ⟨last, t :: ts⟩ hn hc
    refine hskip.congr ?_ rfl
    have hmore : (discard ending : Rule Unit) S ⟨last, t :: ts ++ []⟩ = .refused :=
      discard_refused (ending_refused (List.cons_ne_nil t _))
    exact (choice_refused hmore).trans (choice_single _)

/-- A whole text is taken as an expression. -/
theorem takes_expressionText {c : Cursor} (hdepth : c.rest.length < S.depth)
    (hc : S.Inside [] c.rest) : Takes S F [] [] expressionText Parser.loneExpression c := by
  have hfront : TakesIn S F [] c.rest.length
      (do
        newlines
        let e ← value
        newlines
        choice [
          discard ending,
          do
            discard (report lookahead .extraCharacters)
            discard (many any)]
        return e)
      (do
        Parser.newlines
        let e ← Parser.expression
        Parser.newlines
        (do
          unless (← Parser.peek).isNone do
            Parser.report .extraCharacters
            Parser.move fun c => Cursor.skipWhile (fun _ => true) c.last c.rest)
        return e) :=
    (takes_newlines hF).bind fun _ => (takes_value hF hdepth).bind fun e =>
      (takes_newlines hF).bind fun _ => (takes_extra hF).bind fun _ => takes_pure e
  have hread := hfront c (Nat.le_refl _) hc
  have hrest := Parser.loneExpression_rest F c
  refine (takes_ending (p := Parser.loneExpression) (hread.congr rfl ?_) hrest).congr ?_ rfl
  · unfold Parser.loneExpression
    simp only [bind_assoc, pure_bind, Parser.ite_bind]
  · simp only [expressionText, bind_assoc, pure_bind]

end

/-! ## Assignments -/

section

variable (hF : S.Frames F back)

include hF

omit hF in
theorem strayBrace_refused {brace : Rule Unit} {c : Cursor} (h : brace S c = .refused) :
    (strayBrace brace : Rule (Option α)) S c = .refused :=
  bind_refused (discard_refused (bind_refused (spanOf_refused h)))

omit hF in
/-- Where no key starts, the last two alternatives are left. -/
theorem assignment_noKey {c : Cursor} (hkey : key expression value S c = .refused) :
    assignment S c = choice [strayBrace (inside (just .closeBrace)),
      malformed (pure ()) (ahead (spanOf (inside any))) .definitionRequired] S c :=
  (choice_refused (bind_refused hkey)).trans
    (choice_refused (bind_refused (discard_refused hkey)))

theorem assignment_end (last : Pos) : assignment S ⟨last, back⟩ = .refused := by
  have hkey : key expression value S ⟨last, back⟩ = .refused :=
    key_refused (c := ⟨last, []⟩) hF expression value fun _ h => by cases h
  refine (assignment_noKey hkey).trans ?_
  refine (choice_refused (strayBrace_refused (inside_end hF _ last))).trans (choice_refused ?_)
  refine (bind_silent rfl).trans (bind_refused (discard_refused (bind_refused (ahead_refused ?_))))
  exact spanOf_refused (inside_end hF any last)

theorem takes_entryKey (last : Pos) (hdepth : (t :: ts).length < S.depth) (hc : S.Inside back (t :: ts))
    (hstart : Parser.startsKey t.kind = true) :
    Takes S F back (t :: ts) (key expression value) Parser.entryKey ⟨last, t :: ts⟩ := by
  have hlt : ts.length < S.depth := (Nat.lt_succ_self _).trans hdepth
  have hsteps : TakesIn S F back ts.length (many (step value))
      (Parser.steps (2 * (t :: ts).length + 2)) := by
    refine takes_steps hF hlt (fun i hi d hd => ?_) ?_
    · exact takes_valueOf hF (reads_expression hF (hi.trans hlt)) hd
    · rw [List.length_cons]
      omega
  exact (takes_key hF last (reads_expression hF hdepth) (Nat.le_succ _) hsteps (Nat.le_refl _) hc
    hstart).congr rfl rfl

/-- Behind an equals sign there is the value of an assignment. -/
theorem takes_assignedValue {c behind : Cursor} {k : Key} {faults : List (Located SyntaxFault)}
    (hsuffix : behind.rest <:+ t :: ts) (hdepth : (t :: ts).length < S.depth)
    (hc : S.Inside back (t :: ts))
    (hkey : key expression value S (c.extend back) = .taken ⟨k, behind.extend back, faults⟩)
    (hequals : behind.kind? = some (.mark .equals)) :
    TakesBehind S F back ts faults assignment c (Parser.assigned k) behind := by
  have hread := Parser.assigned_run (F := F) k behind
  rw [if_pos hequals] at hread
  rcases behind with ⟨stop, rest⟩
  rcases Cursor.exists_cons_of_kind? hequals with ⟨u, us, rfl, hmark⟩
  have hus : us <:+ ts := by
    rcases List.suffix_cons_iff.1 hsuffix with heq | hlater
    · cases heq
      exact List.suffix_rfl
    · exact (List.suffix_cons u us).trans hlater
  have hshort : us.length < S.depth :=
    (hus.length_le.trans (Nat.le_succ _)).trans_lt hdepth
  have hrest := ((takes_value hF hshort).bind fun e => (takes_endOfItem hF).bind fun _ =>
    takes_pure (some (Entry.mk k e))) ⟨u.span.stop, us⟩ (Nat.le_refl _)
      (hc.mono (hus.trans (List.suffix_cons t ts)))
  refine .of_read hread (choice_taken ?_) (hrest.left.trans hus)
  -- The faults of the key come first, then those of the value.
  have hmarkTaken : just .equals S ⟨stop, u :: us ++ back⟩ =
      .taken ⟨(), ⟨u.span.stop, us ++ back⟩, []⟩ := just_taken hmark
  have hbehind := (bind_silent (f := fun _ => do
      let value ← value
      endOfItem
      return some (Entry.mk k value)) hmarkTaken).trans hrest.run
  exact (bind_taken hkey).trans (congrArg (Outcome.after faults) hbehind)

/-- Without an equals sign the line is given up. -/
theorem takes_unassigned {c behind : Cursor} {k : Key} {faults : List (Located SyntaxFault)}
    (hsuffix : behind.rest <:+ t :: ts) (hc : S.Inside back (t :: ts))
    (hkey : key expression value S (c.extend back) = .taken ⟨k, behind.extend back, faults⟩)
    (hequals : behind.kind? ≠ some (.mark .equals)) :
    TakesBehind S F back ts faults assignment c (Parser.assigned k) behind := by
  have hread := Parser.assigned_run (F := F) k behind
  rw [if_neg hequals] at hread
  refine .of_read hread ?_ (Cursor.recoverLine_of_suffix hsuffix)
  have hnone := just_extend (S := S) hF (by decide : Mark.equals ≠ .closeBrace) hequals
  refine (choice_refused (bind_taken_refused hkey (bind_refused hnone))).trans (choice_taken ?_)
  have hskip := ((takes_report hF .missingKeyValueSeparator).bind fun _ =>
    (takes_recoverLine hF).bind fun _ => takes_pure (none : Option Entry)) behind
      (Nat.le_refl _) (hc.mono hsuffix)
  exact (bind_taken (discard_taken hkey)).trans (congrArg (Outcome.after faults) hskip.run)

/-- What stands behind the key of an assignment. -/
theorem takes_assignedKey {c behind : Cursor} {k : Key} {faults : List (Located SyntaxFault)}
    (hsuffix : behind.rest <:+ t :: ts) (hdepth : (t :: ts).length < S.depth)
    (hc : S.Inside back (t :: ts))
    (hkey : key expression value S (c.extend back) = .taken ⟨k, behind.extend back, faults⟩) :
    TakesBehind S F back ts faults assignment c (Parser.assigned k) behind := by
  by_cases hequals : behind.kind? = some (.mark .equals)
  · exact takes_assignedValue hF hsuffix hdepth hc hkey hequals
  · exact takes_unassigned hF hsuffix hc hkey hequals

theorem takes_assignment (last : Pos) (hdepth : (t :: ts).length < S.depth) (hc : S.Inside back (t :: ts)) :
    Takes S F back ts assignment (Parser.assignmentOf t.kind) ⟨last, t :: ts⟩ := by
  unfold Parser.assignmentOf
  by_cases hstart : Parser.startsKey t.kind = true
  · rw [if_pos hstart]
    have hkey := takes_entryKey hF last hdepth hc hstart
    have hbehind := takes_assignedKey (t := t) hF hkey.left hdepth hc hkey.run
    exact ⟨hbehind.run, hbehind.left⟩
  · rw [if_neg hstart]
    have hkey : key expression value S ⟨last, t :: ts ++ back⟩ = .refused := by
      refine key_refused hF expression value (c := ⟨last, t :: ts⟩) fun k hk => ?_
      cases hk
      exact Bool.eq_false_iff.2 hstart
    have hinside : ∀ {α : Type} (r : Rule α), inside r S ⟨last, t :: ts ++ back⟩ =
        r S ⟨last, t :: ts ++ back⟩ := fun r => inside_run hc r last
    -- What starts no key is a stray brace, skipped alone, or a line that is skipped whole.
    by_cases hbrace : t.kind = .mark .closeBrace
    · rw [if_pos hbrace]
      refine ⟨(assignment_noKey hkey).trans ?_, List.suffix_rfl⟩
      exact choice_taken (takes_strayBrace ((hinside _).trans (just_taken hbrace)))
    · rw [if_neg hbrace]
      have hany : inside any S ⟨last, t :: ts ++ back⟩ =
          .taken ⟨(), ⟨t.span.stop, ts ++ back⟩, []⟩ := (hinside any).trans (satisfy_taken rfl)
      refine ⟨(assignment_noKey hkey).trans ?_, Cursor.recoverLine_behind last t ts⟩
      refine (choice_refused (strayBrace_refused ((hinside _).trans (just_refused hbrace)))).trans ?_
      have hfront : (pure () : Rule Unit) S ⟨last, t :: ts ++ back⟩ =
          .taken ⟨(), (⟨last, t :: ts⟩ : Cursor).extend back, []⟩ := rfl
      exact choice_taken (malformed_taken hF hfront (ahead_taken (spanOf_taken hany)) hc _)

/-- The assignments of a container. -/
theorem takes_assignments (hdepth : n < S.depth) (hd : n < d) :
    TakesIn S F back n (lines assignment) (Parser.behindLines (Parser.assignments d)) := by
  refine takes_lines hF (fun d c hn _ hc => ?_) hd
  have hskip := Cursor.skipNewlines_suffix c
  rcases hbehind : c.skipNewlines with ⟨last, - | ⟨t, ts⟩⟩
  · refine .stop ?_ ?_
    · rw [hbehind]
      exact assignment_end hF last
    · rw [Parser.assignments_succ, Parser.newlines_bind, hbehind]
      rfl
  · rw [hbehind] at hskip
    refine .line hbehind (takes_assignment hF last ((hskip.length_le.trans hn).trans_lt hdepth)
      (hc.mono hskip)) ?_
    rw [Parser.assignments_succ, Parser.newlines_bind, hbehind]
    rfl

end

end Rule

open Wrapped (frontTokens)

/-- The tokens of a text start in the order of their bytes. -/
theorem Tokens.ofText_pairwise (text : String) :
    (Tokens.ofText text).tokens.Pairwise fun t u => t.span.start.byte ≤ u.span.start.byte := by
  have horder := Tokens.ofText_inOrder text
  have hstretch := (Tokens.ofText_isStretch text).1
  refine horder.pairwise.2.imp_of_mem fun {t u} ht hu hle => ?_
  have htspan := hstretch t ht
  exact (Pos.isPlace_of_isStretch htspan).1.byte_mono (Pos.isPlace_of_isStretch (hstretch u hu)).1
    (Pos.le_trans htspan.le hle)

namespace Setting

/-- The setting of a text that is no container. -/
def ofText (text : String) (depth : Nat) : Setting := ⟨.ofText text, false, depth⟩

/-- The setting of a container: its last closing brace ends it, and a line end in front of that brace is
called the end of the file. -/
def ofContainer (text : String) (tokens : List Token) (depth : Nat) : Setting :=
  let (front, back) := splitContainer tokens
  ⟨⟨.point (.endOf text), (Frame.ofContainer text front back).fileEnd⟩, true, depth⟩

theorem ofText_frames (text : String) (depth : Nat) :
    (ofText text depth).Frames (.ofText text) [] :=
  ⟨rfl, .inl ⟨rfl, rfl⟩⟩

/-- A text that is no container ends behind its last token only. -/
theorem ofText_inside (text : String) (depth : Nat) (ts : List Token) :
    (ofText text depth).Inside [] ts := by
  rintro t us - (hnil | ⟨hcloses, -⟩)
  · cases hnil
  · cases hcloses

end Setting

/-- Without a closing brace of its own, a container does not end with one. -/
theorem splitContainer_nil {tokens front : List Token} (h : splitContainer tokens = (front, []))
    {brace : Token} {ends us : List Token} (htokens : tokens = us ++ brace :: ends)
    (hends : LineEnds ends) : brace.kind ≠ .mark .closeBrace := by
  intro hbrace
  have hreverse : tokens.reverse.dropWhile (fun t => t.kind.isNewline) = brace :: us.reverse := by
    have hall : ∀ t ∈ ends.reverse, t.kind.isNewline = true := by
      intro t ht
      rw [hends t (List.mem_reverse.1 ht)]
      rfl
    rw [htokens, List.reverse_append, List.reverse_cons, List.append_assoc,
      List.dropWhile_append_of_pos hall, List.singleton_append, List.dropWhile_cons_of_neg]
    rw [hbrace]
    nofun
  unfold splitContainer at h
  dsimp only at h
  rw [hreverse] at h
  dsimp only at h
  rw [if_pos hbrace] at h
  cases h

namespace Setting

variable {text : String} {tokens front back : List Token} {depth : Nat}

theorem ofContainer_inside (h : splitContainer tokens = (front, back)) {ts : List Token}
    (hsuffix : ts <:+ front) : (ofContainer text tokens depth).Inside back ts := by
  have hparts := splitContainer_parts tokens
  rw [h] at hparts
  rcases hparts with ⟨rfl, hends⟩
  rintro t us hus (hnil | ⟨-, brace, ends, hcons, hbrace, hlines⟩)
  · cases hnil
  · rcases hends with hnil | ⟨last, rest, hback, hlast, -⟩
    · dsimp only at hnil
      subst hnil
      rw [List.append_nil] at hcons h
      rcases hus.trans hsuffix with ⟨vs, rfl⟩
      rw [hcons] at h
      exact splitContainer_nil h rfl hlines hbrace
    · -- The last closing brace of the container would be a line end.
      dsimp only at hback
      subst hback
      cases hcons
      have hnewline := hlines last (List.mem_append_right us List.mem_cons_self)
      rw [hlast] at hnewline
      cases hnewline

theorem ofContainer_frames
    -- The content ends at the line break in front of the brace, or else at the brace.
    (h : splitContainer (Tokens.ofText text).tokens = (front, back)) :
    (ofContainer text (Tokens.ofText text).tokens depth).Frames (.ofContainer text front back)
      back := by
  have hparts := splitContainer_parts (Tokens.ofText text).tokens
  have horder := Tokens.ofText_pairwise text
  unfold ofContainer
  rw [h] at hparts ⊢
  rcases hparts with ⟨htokens, hends⟩
  dsimp only at htokens hends
  rw [← htokens] at horder
  refine ⟨rfl, ?_⟩
  rcases hends with rfl | ⟨brace, ends, rfl, hbrace, hlines⟩
  · exact .inl ⟨rfl, rfl⟩
  · have hnewlines : LineEnds ends := by
      intro t ht
      simpa [TokenKind.isNewline] using hlines t ht
    refine .inr ⟨rfl, brace, ends, rfl, hbrace, hnewlines, ?_⟩
    unfold Frame.ofContainer
    cases hlast : front.getLast? with
    | none => exact ⟨rfl, Nat.le_refl _⟩
    | some t =>
      dsimp only
      refine ⟨rfl, ?_⟩
      split
      · exact (List.pairwise_append.1 horder).2.2 t (List.mem_of_getLast? hlast) brace
          List.mem_cons_self
      · exact Nat.le_refl _

end Setting

namespace Rule

variable {S : Setting} {text : String} {tokens ts back : List Token} {depth : Nat}

/-- The line end behind the front of a container. -/
def frontLineEnd : Token := ⟨.mark .newline, ⟨1, 18, 17⟩, ⟨2, 1, 18⟩⟩

/-- Where a container ends whose assignments end at `stop`: behind its closing brace, if that is there. -/
def containerStop (stop : Pos) (back : List Token) : Pos :=
  (back.head?.map (·.span.stop)).getD stop

/-- What stands behind the front of a container, read. -/
theorem ofTokens_front_eq {F : Frame} (h : splitContainer tokens = (frontTokens ++ ts, back))
    (hF : Frame.ofContainer text (frontTokens ++ ts) back = F) {x : Parsed (List Entry)}
    (hx : Parser.assignments (ts.length + 2) F ⟨⟨1, 18, 17⟩, frontLineEnd :: ts⟩ = x) :
    ∃ span, Container.ofTokens text tokens =
      (some ⟨⟨⟨1, 1, 0⟩, ⟨1, 14, 13⟩⟩, x.value, ⟨⟨1, 17, 16⟩, containerStop x.next.last back⟩, span⟩,
        x.faults) := by
  subst hx
  unfold Container.ofTokens
  rw [h]
  simp only [Cursor.ofTokens, Parser.containerHeader_front, List.length_cons, hF]
  cases back with
  | nil => exact ⟨_, rfl⟩
  | cons brace ends => exact ⟨_, rfl⟩

/-- The closing brace of a container, if it is there. Line ends stand behind it. -/
theorem closeContainer_taken (hback : EndsContainer back) (stop : Pos) :
    LineEnds back.tail ∧
      (discard (optional (just .closeBrace)) : Rule Unit) S ⟨stop, back⟩ =
        .taken ⟨(), ⟨containerStop stop back, back.tail⟩, []⟩ := by
  rcases hback with rfl | ⟨brace, ends, rfl, hbrace, hlines⟩
  · exact ⟨fun _ h => absurd h List.not_mem_nil, discard_taken (optional_refused rfl)⟩
  · refine ⟨fun t ht => ?_, discard_taken (optional_taken (just_taken hbrace))⟩
    simpa [TokenKind.isNewline] using hlines t ht

/-- The assignments and the braces around them. -/
theorem object_taken {stop : Pos} {entries : List Entry} {faults : List (Located SyntaxFault)}
    (hlines : lines assignment S ⟨⟨1, 18, 17⟩, frontLineEnd :: ts⟩ =
      .taken ⟨entries, ⟨stop, back⟩, faults⟩) (hback : EndsContainer back) :
    (spanned do
      just .openBrace
      let entries ← lines assignment
      discard (optional (just .closeBrace))
      return entries) S ⟨⟨1, 16, 15⟩, frontTokens.drop 2 ++ ts⟩ =
        .taken ⟨(entries, ⟨⟨1, 17, 16⟩, containerStop stop back⟩),
          ⟨containerStop stop back, back.tail⟩, faults⟩ := by
  refine spanned_taken (x := ⟨entries, ⟨containerStop stop back, back.tail⟩, faults⟩) ?_
  refine (bind_silent (just_taken rfl)).trans ((bind_taken hlines).trans ?_)
  refine (congrArg (Outcome.after faults) (bind_silent (closeContainer_taken hback stop).2)).trans ?_
  exact congrArg (fun faults => Outcome.taken ⟨_, _, faults⟩) (List.append_nil faults)

/-- The place behind a container whose assignments end at `stop`, and behind the line ends there. -/
def behindContainer (stop : Pos) (back : List Token) : Cursor :=
  Cursor.skipNewlines ⟨containerStop stop back, back.tail⟩

/-- A container made of entries that end at `stop`. -/
def containerOf (entries : List Entry) (stop : Pos) (back : List Token) : Container where
  nameSpan := ⟨⟨1, 1, 0⟩, ⟨1, 14, 13⟩⟩
  entries := entries
  objectSpan := ⟨⟨1, 17, 16⟩, containerStop stop back⟩
  span := ⟨⟨1, 1, 0⟩, (behindContainer stop back).last⟩

theorem behindContainer_rest (hback : EndsContainer back) (stop : Pos) :
    (behindContainer stop back).rest = [] :=
  (LineEnds.skipNewlines _).2 (closeContainer_taken (S := .ofText "" 0) hback stop).1

/-- The parts of a container, assignments between its front and its closing brace. -/
theorem containerParts_run {us : List Token} {p stop : Pos} {entries : List Entry}
    {faults : List (Located SyntaxFault)}
    (hlines : lines assignment S ⟨⟨1, 18, 17⟩, frontLineEnd :: us⟩ =
      .taken ⟨entries, ⟨stop, back⟩, faults⟩) (hback : EndsContainer back) :
    (do
      newlines
      let nameSpan ← spanOf (satisfy (· == TokenKind.ident wrapperName))
      just .equals
      let (entries, objectSpan) ← spanned do
        just .openBrace
        let entries ← lines assignment
        discard (optional (just .closeBrace))
        return entries
      newlines
      discard ending
      return (nameSpan, entries, objectSpan)) S ⟨p, frontTokens ++ us⟩ =
        .taken ⟨(⟨⟨1, 1, 0⟩, ⟨1, 14, 13⟩⟩, entries, ⟨⟨1, 17, 16⟩, containerStop stop back⟩),
          behindContainer stop back, faults⟩ := by
  have hrest := behindContainer_rest hback stop
  have hident : satisfy (· == .ident wrapperName) S ⟨p, frontTokens ++ us⟩ =
      .taken ⟨(), ⟨⟨1, 14, 13⟩, frontTokens.drop 1 ++ us⟩, []⟩ :=
    satisfy_taken (beq_self_eq_true _)
  have hname : spanOf (satisfy (· == .ident wrapperName)) S ⟨p, frontTokens ++ us⟩ =
      .taken ⟨⟨⟨1, 1, 0⟩, ⟨1, 14, 13⟩⟩, ⟨⟨1, 14, 13⟩, frontTokens.drop 1 ++ us⟩, []⟩ :=
    spanOf_taken hident
  -- Rule by rule: the name, the equals sign, the object, and nothing but line breaks behind it.
  refine (bind_silent (newlines_run _)).trans ((bind_silent hname).trans ?_)
  refine (bind_silent (just_taken rfl)).trans ((bind_taken (object_taken hlines hback)).trans ?_)
  refine (congrArg (Outcome.after faults) ((bind_silent (newlines_run _)).trans
    (bind_silent (discard_taken (ending_taken hrest))))).trans ?_
  exact congrArg (fun faults => Outcome.taken ⟨_, _, faults⟩) (List.append_nil faults)

/-- Assignments between the front of a container and its closing brace. -/
theorem containerText_run {us : List Token} {p stop : Pos} {entries : List Entry}
    {faults : List (Located SyntaxFault)}
    (hlines : lines assignment S ⟨⟨1, 18, 17⟩, frontLineEnd :: us⟩ =
      .taken ⟨entries, ⟨stop, back⟩, faults⟩) (hback : EndsContainer back) :
    containerText S ⟨p, frontTokens ++ us⟩ =
      .taken ⟨containerOf entries stop back, behindContainer stop back, faults⟩ :=
  return_taken (spanned_taken (containerParts_run hlines hback)) fun x =>
    (⟨x.1.1, x.1.2.1, x.1.2.2, x.2⟩ : Container)

/-! ## Whole texts -/

/-- The rule takes all of the tokens and comes to `x`, however deep it may call itself beyond their
number. -/
structure TakesAll {α : Type} (r : Rule α) (S : (depth : Nat) → Setting) (ts : List Token)
    (x : Parsed α) : Prop where
  run : ∀ spare, r (S (ts.length + 1 + spare)) (.ofTokens .start ts) = .taken x
  rest : x.next.rest = []

/-- A rule that takes what a reader takes, to the end of the tokens. -/
theorem TakesAll.of_takes {α : Type} {r : Rule α} {p : Parser α} {S : (depth : Nat) → Setting}
    {F : Frame} (h : ∀ depth, ts.length < depth → Takes (S depth) F [] [] r p (.ofTokens .start ts)) :
    TakesAll r S ts (p F (.ofTokens .start ts)) := by
  have hrest := List.suffix_nil.1 (h (ts.length + 1) (Nat.lt_succ_self _)).left
  refine ⟨fun spare => ?_, hrest⟩
  have hrun := (h (ts.length + 1 + spare) (by omega)).run
  rw [Cursor.extend_nil, Cursor.extend_nil] at hrun
  exact hrun

theorem bodyText_takesAll (text : String) :
    TakesAll bodyText (.ofText text) (Tokens.ofText text).tokens
      (Parser.body (.ofText text) (.ofTokens .start (Tokens.ofText text).tokens)) :=
  .of_takes fun depth hdepth =>
    takes_body (Setting.ofText_frames text depth) hdepth (Setting.ofText_inside text depth _)

theorem expressionText_takesAll (text : String) :
    TakesAll expressionText (.ofText text) (Tokens.ofText text).tokens
      (Parser.loneExpression (.ofText text) (.ofTokens .start (Tokens.ofText text).tokens)) :=
  .of_takes fun depth hdepth =>
    takes_expressionText (Setting.ofText_frames text depth) hdepth (Setting.ofText_inside text depth _)

/-- Behind its front, a text is taken as a container to its end. -/
theorem containerText_takesAll
    (h : splitContainer (Tokens.ofText text).tokens = (frontTokens ++ ts, back)) :
    ∃ x c, TakesAll containerText (.ofContainer text (Tokens.ofText text).tokens)
        (Tokens.ofText text).tokens x ∧ x.value = { c with span := x.value.span } ∧
      Container.ofTokens text (Tokens.ofText text).tokens = (some c, x.faults) := by
  have hparts := splitContainer_parts (Tokens.ofText text).tokens
  rw [h] at hparts
  rcases hparts with ⟨htokens, hends⟩
  dsimp only at htokens hends
  rw [List.append_assoc] at htokens
  have hrest : (Parser.assignments (ts.length + 2) (.ofContainer text (frontTokens ++ ts) back)
      ⟨⟨1, 18, 17⟩, frontLineEnd :: ts⟩).next.rest = [] := Parser.assignments_rest (Nat.lt_succ_self _)
  have hlines : ∀ depth, (Tokens.ofText text).tokens.length < depth →
      Takes (.ofContainer text (Tokens.ofText text).tokens depth)
        (.ofContainer text (frontTokens ++ ts) back) back (frontLineEnd :: ts) (lines assignment)
        (Parser.behindLines (Parser.assignments (ts.length + 2)))
        ⟨⟨1, 18, 17⟩, frontLineEnd :: ts⟩ := by
    intro depth hdepth
    have hshort : ts.length + 1 < depth := by
      refine Nat.lt_of_le_of_lt ?_ hdepth
      rw [← htokens, List.length_append, List.length_append]
      simp only [frontTokens, List.length_cons, List.length_nil]
      omega
    have hsuffix : frontLineEnd :: ts <:+ frontTokens ++ ts := ⟨frontTokens.take 3, rfl⟩
    exact takes_assignments (Setting.ofContainer_frames h) hshort (Nat.lt_succ_self _)
      ⟨⟨1, 18, 17⟩, frontLineEnd :: ts⟩ (Nat.le_refl _) (Setting.ofContainer_inside h hsuffix)
  generalize hx : Parser.assignments (ts.length + 2) (.ofContainer text (frontTokens ++ ts) back)
    ⟨⟨1, 18, 17⟩, frontLineEnd :: ts⟩ = x at hrest
  rcases ofTokens_front_eq h rfl hx with ⟨span, hread⟩
  rcases x with ⟨entries, ⟨stop, rest⟩, faults⟩
  cases hrest
  refine ⟨⟨containerOf entries stop back, behindContainer stop back, faults⟩, _,
    ⟨fun spare => ?_, behindContainer_rest hends stop⟩, rfl, hread⟩
  have hrun : lines assignment (.ofContainer text (Tokens.ofText text).tokens
      ((Tokens.ofText text).tokens.length + 1 + spare))
        ⟨⟨1, 18, 17⟩, frontLineEnd :: (ts ++ back)⟩ = .taken ⟨entries, ⟨stop, back⟩, faults⟩ := by
    have htaken := (hlines _ (by omega : _ < (Tokens.ofText text).tokens.length + 1 + spare)).run
    rw [Parser.behindLines_run, hx] at htaken
    exact htaken
  have hall := containerText_run (p := .start) hrun hends
  rw [htokens] at hall
  exact hall

end Rule

/-- Every text is taken to its end by the rules of bodies and by those of expressions, and so is the
wrapped text of every content by those of containers: what is parsed is what the rules come to. Nobody
says that the syntax is invalid. -/
theorem reading_is_total (text filename : String) (w : Wrapped) :
    (∃ x, Rule.TakesAll .bodyText (.ofText text) (Tokens.ofText text).tokens x ∧
      Body.parse text filename = ⟨x.value, (Tokens.ofText text).diagnostics filename ++
        x.faults.map (Located.syntaxDiagnostic filename)⟩) ∧
    (∃ x, Rule.TakesAll .expressionText (.ofText text) (Tokens.ofText text).tokens x ∧
      Expr.parse text filename = ⟨x.value, (Tokens.ofText text).diagnostics filename ++
        x.faults.map (Located.syntaxDiagnostic filename)⟩) ∧
    (∃ x c, Rule.TakesAll .containerText (.ofContainer w.text (Tokens.ofText w.text).tokens)
        (Tokens.ofText w.text).tokens x ∧ x.value = { c with span := x.value.span } ∧
      Container.parse w.text filename = ⟨some c, (Tokens.ofText w.text).diagnostics filename ++
        x.faults.map (Located.syntaxDiagnostic filename)⟩) ∧
    ∀ d ∈ (Body.parse text filename).diagnostics ++ (Expr.parse text filename).diagnostics ++
      (Container.parse w.text filename).diagnostics, d.summary ≠ "Invalid syntax" := by
  have htokens : ∃ us, (Tokens.ofText w.text).tokens = frontTokens ++ us := by
    rw [Wrapped.ofText_text]
    exact ⟨_, rfl⟩
  rcases htokens with ⟨us, htokens⟩
  rcases Wrapped.splitContainer_front us with ⟨ts, hcut⟩
  rw [← htokens] at hcut
  rcases Rule.containerText_takesAll hcut with ⟨x, c, hall, hvalue, hread⟩
  have hcontainer : Container.parse w.text filename =
      ⟨some c, (Tokens.ofText w.text).diagnostics filename ++
        x.faults.map (Located.syntaxDiagnostic filename)⟩ := by
    unfold Container.parse
    dsimp only
    rw [hread]
  refine ⟨⟨_, Rule.bodyText_takesAll text, rfl⟩, ⟨_, Rule.expressionText_takesAll text, rfl⟩,
    ⟨x, c, hall, hvalue, hcontainer⟩, ?_⟩
  rcases w.exists_container with ⟨-, ts, -, F, -, -, -, -, hfaults⟩
  have hlt : ts.length < ts.length + 2 := by omega
  rw [Body.parse_diagnostics, Expr.parse_diagnostics, Container.parse_diagnostics, hfaults]
  -- Every fault of the grammar has a summary of its own.
  refine List.forall_mem_append.2 ⟨List.forall_mem_append.2 ⟨?_, ?_⟩, ?_⟩
  · exact summary_ne_of_mem (Parser.body_expected _ _)
  · exact summary_ne_of_mem (Parser.loneExpression_expected _ _)
  · exact summary_ne_of_mem (Parser.assignments_expected hlt)

end Overlay.Hcl
