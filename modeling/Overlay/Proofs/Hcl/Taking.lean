import Mathlib.Algebra.Order.Group.Nat
import Overlay.Proofs.Hcl.Cursor
import Overlay.Proofs.Hcl.Parser
import Overlay.Proofs.Hcl.Rules

/-!
# Rules that take what readers take

A reader never refuses. A rule may, and takes the same where it does not.

* `Setting.Frames` says where the input ends: with the tokens, or with the last closing brace of a
  container and the line ends behind it, which the reader does not see. `Setting.Inside` says that it
  does not end earlier.
* `Takes` relates a rule and a reader at a place, `TakesIn` at every place in front of a number of tokens.
  Both are kept by `bind`, so a form is taken if its parts are.
* The recoveries are taken: `takes_recoverLine`, `takes_skipToClose`, `takes_close` and `takes_endOfItem`
  have an alternative for every token and for the end of the input.
-/

namespace Overlay.Hcl

variable {α β γ : Type}

theorem LineEnds.skipNewlines {ts : List Token} (last : Pos) :
    (Cursor.skipNewlines ⟨last, ts⟩).rest = [] ↔ LineEnds ts := by
  refine (Cursor.skipWhile_rest_eq_nil _ last ts).trans (forall₂_congr fun t _ => ?_)
  simp [TokenKind.isNewline]

/-! ## Where the input ends -/

namespace Setting

/-- Whether the input ends in front of the tokens. -/
def IsEnd (S : Setting) (ts : List Token) : Prop :=
  ts = [] ∨ S.closes = true ∧ ∃ brace ends, ts = brace :: ends ∧
    brace.kind = .mark .closeBrace ∧ LineEnds ends

/-- The input ends with `back`, and `F` stands around the tokens in front. -/
structure Frames (S : Setting) (F : Frame) (back : List Token) : Prop where
  fileEnd : S.fileEnd = F.fileEnd
  ending : back = [] ∧ S.ending = F.ending ∨
    S.closes = true ∧ ∃ brace ends, back = brace :: ends ∧ brace.kind = .mark .closeBrace ∧
      LineEnds ends ∧ brace.span = F.ending ∧ F.fileEnd ≤ brace.span.start.byte

/-- The input does not end in front of any of the tokens. -/
def Inside (S : Setting) (back ts : List Token) : Prop :=
  ∀ t us, t :: us <:+ ts → ¬S.IsEnd (t :: us ++ back)

theorem Inside.mono {S : Setting} {back ts us : List Token} (h : S.Inside back ts)
    (hsuffix : us <:+ ts) : S.Inside back us :=
  fun t vs hvs => h t vs (hvs.trans hsuffix)

end Setting

namespace Rule

variable {S : Setting} {F : Frame} {back : List Token} {last : Pos} {t : Token} {ts us vs : List Token}

/-- In front of the tokens of `c`, behind which `back` stands, the rule takes what the reader takes, and
leaves an end of `us`. -/
structure Takes (S : Setting) (F : Frame) (back us : List Token) (r : Rule α) (p : Parser α)
    (c : Cursor) : Prop where
  run : r S (c.extend back) = .taken ⟨(p F c).value, (p F c).next.extend back, (p F c).faults⟩
  left : (p F c).next.rest <:+ us

theorem Takes.mono {r : Rule α} {p : Parser α} {c : Cursor} (h : Takes S F back us r p c)
    (hsuffix : us <:+ vs) : Takes S F back vs r p c :=
  ⟨h.run, h.left.trans hsuffix⟩

/-- What the reader gives at the place, taken by the rule. -/
theorem Takes.of_read {r : Rule α} {p : Parser α} {c : Cursor} {x : Parsed α} (hp : p F c = x)
    (hr : r S (c.extend back) = .taken ⟨x.value, x.next.extend back, x.faults⟩)
    (hx : x.next.rest <:+ us) : Takes S F back us r p c := by
  subst hp
  exact ⟨hr, hx⟩

/-- In front of up to `n` tokens the rule takes what the reader takes. -/
def TakesIn (S : Setting) (F : Frame) (back : List Token) (n : Nat) (r : Rule α) (p : Parser α) : Prop :=
  ∀ c : Cursor, c.rest.length ≤ n → S.Inside back c.rest → Takes S F back c.rest r p c

/-- One rule and another at the place behind it. -/
theorem Takes.bindAt {r : Rule α} {p : Parser α} {f : α → Rule β} {g : α → Parser β} {c : Cursor}
    (h : Takes S F back us r p c)
    (hf : Takes S F back vs (f (p F c).value) (g (p F c).value) (p F c).next) :
    Takes S F back vs (r >>= f) (p >>= g) c := by
  refine ⟨?_, hf.left⟩
  rw [bind_taken h.run]
  dsimp only
  rw [hf.run]
  rfl

theorem Takes.bind {r : Rule α} {p : Parser α} {f : α → Rule β} {g : α → Parser β} {c : Cursor}
    {n : Nat} (h : Takes S F back us r p c) (hn : us.length ≤ n) (hus : S.Inside back us)
    (hf : ∀ a, TakesIn S F back n (f a) (g a)) :
    Takes S F back us (r >>= f) (p >>= g) c :=
  h.bindAt ((hf _ _ (h.left.length_le.trans hn) (hus.mono h.left)).mono h.left)

theorem TakesIn.bind {r : Rule α} {p : Parser α} {f : α → Rule β} {g : α → Parser β} {n : Nat}
    (h : TakesIn S F back n r p) (hf : ∀ a, TakesIn S F back n (f a) (g a)) :
    TakesIn S F back n (r >>= f) (p >>= g) :=
  fun c hn hc => (h c hn hc).bind hn hc hf

/-- A rule and a reader that do at one place what others do at another. -/
theorem Takes.congr {r r' : Rule α} {p p' : Parser α} {c c' : Cursor}
    (h : Takes S F back us r' p' c') (hr : r S (c.extend back) = r' S (c'.extend back))
    (hp : p F c = p' F c') : Takes S F back us r p c := by
  refine ⟨?_, ?_⟩
  · rw [hr, hp, h.run]
  · rw [hp]
    exact h.left

theorem takes_pure {n : Nat} (a : α) : TakesIn S F back n (pure a) (pure a) :=
  fun _ _ _ => ⟨rfl, List.suffix_rfl⟩

/-! ## Tokens -/

/-- No token is taken at the end of the input, if it is no closing brace. -/
theorem select_end (hF : S.Frames F back) {f : TokenKind → Option α}
    (hf : f (.mark .closeBrace) = none) : select f S ⟨last, back⟩ = .refused := by
  rcases hF.ending with ⟨rfl, -⟩ | ⟨-, brace, ends, rfl, hbrace, -⟩
  · rfl
  · refine select_refused ?_
    rw [hbrace]
    exact hf

theorem satisfy_end (hF : S.Frames F back) {test : TokenKind → Bool}
    (htest : test (.mark .closeBrace) = false) : satisfy test S ⟨last, back⟩ = .refused :=
  select_end hF (if_neg (Bool.eq_false_iff.1 htest))

theorem select_extend (hF : S.Frames F back) {f : TokenKind → Option α} {c : Cursor}
    (hf : f (.mark .closeBrace) = none) (h : ∀ k, c.kind? = some k → f k = none) :
    select f S (c.extend back) = .refused := by
  rcases c with ⟨last, - | ⟨t, ts⟩⟩
  · exact select_end hF hf
  · exact select_refused (h t.kind rfl)

theorem satisfy_extend (hF : S.Frames F back) {test : TokenKind → Bool} {c : Cursor}
    (htest : test (.mark .closeBrace) = false) (h : ∀ k, c.kind? = some k → test k = false) :
    satisfy test S (c.extend back) = .refused :=
  select_extend hF (if_neg (Bool.eq_false_iff.1 htest)) fun k hk =>
    if_neg (Bool.eq_false_iff.1 (h k hk))

/-- A mark that does not come next. -/
theorem just_extend (hF : S.Frames F back) {m : Mark} {c : Cursor} (hm : m ≠ .closeBrace)
    (h : c.kind? ≠ some (.mark m)) : just m S (c.extend back) = .refused := by
  refine satisfy_extend hF ?_ fun k hk => ?_
  · simpa using hm.symm
  · rw [hk] at h
    simpa using h

/-! ## The end of the input -/

/-- A rule that takes the tokens which pass a test, repeated. -/
theorem many_skipWhile {r : Rule Unit} {test : TokenKind → Bool}
    (hend : ∀ last, r S ⟨last, back⟩ = .refused)
    (hr : ∀ last t us, t :: us <:+ ts → r S ⟨last, t :: us ++ back⟩ =
      if test t.kind then .taken ⟨(), ⟨t.span.stop, us ++ back⟩, []⟩ else .refused) (last : Pos) :
    (discard (many r) : Rule Unit) S ⟨last, ts ++ back⟩ =
      .taken ⟨(), (Cursor.skipWhile test last ts).extend back, []⟩ := by
  -- What `many` collects is thrown away, so any list of values will do.
  suffices hmany : ∃ values, many r S ⟨last, ts ++ back⟩ =
      .taken ⟨values, (Cursor.skipWhile test last ts).extend back, []⟩ by
    rcases hmany with ⟨values, hmany⟩
    exact discard_taken hmany
  induction ts generalizing last with
  | nil => exact ⟨[], many_refused (hend last)⟩
  | cons t ts ih =>
    have hfirst := hr last t ts List.suffix_rfl
    unfold Cursor.skipWhile
    split
    · next htest =>
      rw [if_pos htest] at hfirst
      -- The hypothesis speaks of every suffix, so it holds of the shorter list too.
      have hbehind : ∀ last u us, u :: us <:+ ts → r S ⟨last, u :: us ++ back⟩ =
          if test u.kind then .taken ⟨(), ⟨u.span.stop, us ++ back⟩, []⟩ else .refused :=
        fun last u us hus => hr last u us (hus.trans (List.suffix_cons t ts))
      rcases ih hbehind t.span.stop with ⟨values, hrest⟩
      exact ⟨() :: values, many_taken hfirst (Nat.lt_succ_self _) hrest⟩
    · next htest =>
      rw [if_neg htest] at hfirst
      exact ⟨[], many_refused hfirst⟩

theorem newlines_run (c : Cursor) : newlines S c = .taken ⟨(), c.skipNewlines, []⟩ := by
  rcases c with ⟨last, ts⟩
  have hskip := @many_skipWhile S [] ts (just .newline) TokenKind.isNewline (fun _ => rfl)
    (fun last t us _ => ?_) last
  · rw [List.append_nil] at hskip
    refine hskip.trans ?_
    unfold Cursor.extend
    rw [List.append_nil]
    rfl
  · split
    · next h => exact satisfy_taken h
    · next h => exact satisfy_refused (Bool.eq_false_iff.2 h)

/-- The input ends with the line ends behind its last closing brace. -/
theorem boundary_end (hF : S.Frames F back) (last : Pos) :
    boundary S ⟨last, back⟩ = .taken ⟨F.ending, ⟨last, back⟩, []⟩ := by
  rcases hF.ending with ⟨rfl, hending⟩ | ⟨hcloses, brace, ends, rfl, hbrace, hends, hspan, -⟩
  · rw [← hending]
    exact ahead_taken (choice_taken rfl)
  · have htaken : just .closeBrace S ⟨last, brace :: ends⟩ =
        .taken ⟨(), ⟨brace.span.stop, ends⟩, []⟩ := satisfy_taken (by rw [hbrace]; rfl)
    have hcontinue : closes S ⟨last, brace :: ends⟩ = .taken ⟨(), ⟨last, brace :: ends⟩, []⟩ := by
      unfold closes
      rw [if_pos hcloses]
    have hrest := (LineEnds.skipNewlines brace.span.stop).2 hends
    rw [← hspan]
    refine ahead_taken (d := Cursor.skipNewlines ⟨brace.span.stop, ends⟩) ?_
    rw [choice_refused rfl]
    refine choice_taken ?_
    rw [bind_silent hcontinue, bind_silent (spanOf_taken htaken), bind_silent (newlines_run _)]
    rw [bind_silent (discard_taken (ending_taken hrest))]
    rfl

/-- The input does not end in front of a token inside. -/
theorem boundary_inside (h : S.Inside back (t :: ts)) (last : Pos) :
    boundary S ⟨last, t :: ts ++ back⟩ = .refused := by
  have hnot := h t ts List.suffix_rfl
  refine ahead_refused ?_
  rw [choice_refused rfl]
  refine (choice_single _).trans ?_
  cases hcloses : S.closes with
  | false =>
    refine bind_refused ?_
    unfold closes
    rw [hcloses]
    rfl
  | true =>
    have hcontinue : closes S ⟨last, t :: ts ++ back⟩ =
        .taken ⟨(), ⟨last, t :: ts ++ back⟩, []⟩ := by
      unfold closes
      rw [hcloses]
      rfl
    rw [bind_silent hcontinue]
    -- A closing brace would be the boundary only with nothing but line breaks behind it.
    by_cases hbrace : t.kind = .mark .closeBrace
    · have htaken : just .closeBrace S ⟨last, t :: ts ++ back⟩ =
          .taken ⟨(), ⟨t.span.stop, ts ++ back⟩, []⟩ := just_taken hbrace
      have hrest : (Cursor.skipNewlines ⟨t.span.stop, ts ++ back⟩).rest ≠ [] :=
        fun hnil => hnot (.inr ⟨hcloses, t, ts ++ back, rfl, hbrace, (LineEnds.skipNewlines _).1 hnil⟩)
      rw [List.cons_append] at *
      rw [bind_silent (spanOf_taken htaken), bind_silent (newlines_run _)]
      exact bind_refused (discard_refused (ending_refused hrest))
    · exact bind_refused (spanOf_refused (just_refused hbrace))

/-! ## Reports and recoveries -/

theorem inside_end (hF : S.Frames F back) (r : Rule α) (last : Pos) :
    inside r S ⟨last, back⟩ = .refused :=
  bind_refused (absent_taken (boundary_end hF last))

theorem inside_run (h : S.Inside back (t :: ts)) (r : Rule α) (last : Pos) :
    inside r S ⟨last, t :: ts ++ back⟩ = r S ⟨last, t :: ts ++ back⟩ :=
  bind_silent (absent_refused (boundary_inside h last))

section

variable {n : Nat} (hF : S.Frames F back)

include hF

theorem takes_lookahead : TakesIn S F back n lookahead Parser.lookahead := by
  intro c hn hc
  refine ⟨?_, List.suffix_rfl⟩
  rcases c with ⟨last, - | ⟨t, ts⟩⟩
  · exact choice_taken (boundary_end hF last)
  · refine (choice_refused (boundary_inside hc last)).trans (choice_taken ?_)
    exact ahead_taken (spanOf_taken (satisfy_taken rfl))

theorem report_run (fault : SyntaxFault) {c : Cursor} (hc : S.Inside back c.rest) :
    report lookahead fault S (c.extend back) =
      .taken ⟨Parser.ahead F c, c.extend back, [⟨fault, Parser.ahead F c⟩]⟩ :=
  bind_silent (takes_lookahead hF c (Nat.le_refl _) hc).run

theorem takes_report (fault : SyntaxFault) :
    TakesIn S F back n (discard (report lookahead fault)) (Parser.report fault) :=
  fun _ _ hc => ⟨discard_taken (report_run hF fault hc), List.suffix_rfl⟩

theorem takes_newlines : TakesIn S F back n newlines Parser.newlines := by
  intro c hn hc
  refine ⟨?_, Cursor.skipNewlines_suffix c⟩
  rcases c with ⟨last, ts⟩
  refine many_skipWhile (fun last => satisfy_end hF rfl) (fun last t us _ => ?_) last
  split
  · next h => exact satisfy_taken h
  · next h => exact satisfy_refused (Bool.eq_false_iff.2 h)

theorem takes_recoverLine :
    TakesIn S F back n recoverLine (Parser.move Cursor.recoverLine) := by
  intro c hn hc
  refine ⟨?_, Cursor.recoverLine_suffix c⟩
  rcases c with ⟨last, ts⟩
  have hline : (discard (many (inside (satisfy fun k => !k.isNewline))) : Rule Unit) S
      ⟨last, ts ++ back⟩ =
        .taken ⟨(), (Cursor.skipWhile (fun k => !k.isNewline) last ts).extend back, []⟩ := by
    refine many_skipWhile (inside_end hF _) (fun last t us hus => ?_) last
    rw [inside_run (hc.mono hus)]
    split
    · next h => exact satisfy_taken h
    · next h => exact satisfy_refused (Bool.eq_false_iff.2 h)
  refine (bind_silent hline).trans ?_
  have hhead := Cursor.skipWhile_head (fun k => !k.isNewline) last ts
  show _ = Outcome.taken ⟨(), (Cursor.skipWhile (fun k => !k.isNewline) last ts).advance.extend back, []⟩
  generalize Cursor.skipWhile (fun k => !k.isNewline) last ts = behind at hhead ⊢
  rcases behind with ⟨stop, - | ⟨t, us⟩⟩
  · exact discard_taken (optional_refused (satisfy_end hF rfl))
  · have hnewline : t.kind.isNewline = true := by simpa using hhead t rfl
    exact discard_taken (optional_taken (satisfy_taken hnewline))

end

section

variable {d : Nat} {t : Token} {ts : List Token} (last : Pos)

theorem group_end (hF : S.Frames F back) : unroll groupOf (d + 1) S ⟨last, back⟩ = .refused :=
  (choice_refused (bind_refused (satisfy_end hF rfl))).trans (choice_refused (satisfy_end hF rfl))

theorem group_closer (hopens : t.kind.isOpener = false) (hcloser : t.kind.isCloser = true) :
    unroll groupOf (d + 1) S ⟨last, t :: ts ++ back⟩ = .refused := by
  refine (choice_refused (bind_refused (satisfy_refused hopens))).trans ?_
  exact choice_refused (satisfy_refused (by rw [hcloser, Bool.not_true, Bool.and_false]))

theorem group_other (hopens : t.kind.isOpener = false) (hcloses : t.kind.isCloser = false) :
    unroll groupOf (d + 1) S ⟨last, t :: ts ++ back⟩ =
      .taken ⟨(), ⟨t.span.stop, ts ++ back⟩, []⟩ := by
  refine (choice_refused (bind_refused (satisfy_refused hopens))).trans ?_
  exact choice_taken (satisfy_taken (by rw [hopens, hcloses]; rfl))

/-- A group is its opener, the groups inside, and its closer if there is one. -/
theorem group_opener (hF : S.Frames F back) (hopener : t.kind.isOpener = true)
    (hc : S.Inside back ts) {inner : List Unit}
    (hinner : many (unroll groupOf d) S ⟨t.span.stop, ts ++ back⟩ =
      .taken ⟨inner, (Cursor.skipGroups t.span.stop 0 ts).extend back, []⟩) :
    unroll groupOf (d + 1) S ⟨last, t :: ts ++ back⟩ =
      .taken ⟨(), (Cursor.skipGroups t.span.stop 0 ts).advance.extend back, []⟩ := by
  have hsuffix := Cursor.skipGroups_suffix t.span.stop 0 ts
  have hhead := Cursor.skipGroups_head t.span.stop 0 ts
  generalize Cursor.skipGroups t.span.stop 0 ts = behind at hinner hsuffix hhead ⊢
  refine choice_taken ((bind_silent (satisfy_taken hopener)).trans ?_)
  refine (bind_silent (discard_taken hinner)).trans ?_
  rcases behind with ⟨stop, - | ⟨u, us⟩⟩
  · exact discard_taken (optional_refused (inside_end hF _ _))
  · refine discard_taken (optional_taken (x := ⟨(), ⟨u.span.stop, us ++ back⟩, []⟩) ?_)
    exact (inside_run (hc.mono hsuffix) _ _).trans (satisfy_taken (hhead u rfl))

end

/-- Groups are skipped, if rules may call themselves as deep as there are tokens. -/
theorem many_group (hF : S.Frames F back) (n : Nat) {ts : List Token} (hn : ts.length ≤ n)
    {d : Nat} (hd : n < d) {r : Rule Unit} (hr : ∀ c, r S c = unroll groupOf d S c)
    (hc : S.Inside back ts) (last : Pos) :
    ∃ values, many r S ⟨last, ts ++ back⟩ =
      .taken ⟨values, (Cursor.skipGroups last 0 ts).extend back, []⟩ := by
  induction n using Nat.strong_induction_on generalizing ts d r last with
  | h n ih =>
    obtain ⟨d, rfl⟩ := Nat.exists_eq_succ_of_ne_zero (Nat.ne_zero_of_lt hd)
    cases ts with
    | nil =>
      rw [Cursor.skipGroups.eq_def]
      exact ⟨[], many_refused ((hr _).trans (group_end last hF))⟩
    | cons t ts =>
      have hlt : ts.length < n := hn
      have hbehind := hc.mono (List.suffix_cons t ts)
      have hmore : ∀ us, us <:+ ts → ∀ last, ∃ values, many r S ⟨last, us ++ back⟩ =
          .taken ⟨values, (Cursor.skipGroups last 0 us).extend back, []⟩ :=
        fun us hus last => ih us.length (hus.length_le.trans_lt hlt) (Nat.le_refl _)
          ((hus.length_le.trans_lt hlt).trans hd) hr (hbehind.mono hus) last
      by_cases hopener : t.kind.isOpener = true
      · -- The tokens up to the closer of the group are skipped one level deeper.
        rcases ih ts.length hlt (Nat.le_refl _) (by omega : ts.length < d) (fun _ => rfl) hbehind
          t.span.stop with ⟨inner, hinner⟩
        have hgroup := (hr _).trans (group_opener last hF hopener hbehind hinner)
        have hadvance := (Cursor.advance_suffix (Cursor.skipGroups t.span.stop 0 ts)).trans
          (Cursor.skipGroups_suffix t.span.stop 0 ts)
        have hskip : Cursor.skipGroups last 0 (t :: ts) =
            Cursor.skipGroups (Cursor.skipGroups t.span.stop 0 ts).advance.last 0
              (Cursor.skipGroups t.span.stop 0 ts).advance.rest := by
          rw [Cursor.skipGroups, if_pos hopener]
          exact Cursor.skipGroups_succ _ _ _
        rcases hmore _ hadvance (Cursor.skipGroups t.span.stop 0 ts).advance.last with
          ⟨values, hrest⟩
        rw [hskip]
        refine ⟨() :: values, many_taken hgroup ?_ hrest⟩
        simp only [Cursor.extend, List.cons_append, List.length_cons, List.length_append]
        exact Nat.lt_succ_of_le (Nat.add_le_add_right hadvance.length_le _)
      · have hopens : t.kind.isOpener = false := Bool.eq_false_iff.2 hopener
        rw [Cursor.skipGroups, if_neg hopener]
        by_cases hcloser : t.kind.isCloser = true
        · rw [if_pos hcloser]
          exact ⟨[], many_refused ((hr _).trans (group_closer last hopens hcloser))⟩
        · have hcloses : t.kind.isCloser = false := Bool.eq_false_iff.2 hcloser
          have hother : r S ⟨last, t :: ts ++ back⟩ = .taken ⟨(), ⟨t.span.stop, ts ++ back⟩, []⟩ :=
            (hr _).trans (group_other last hopens hcloses)
          rcases hmore ts List.suffix_rfl t.span.stop with ⟨values, hrest⟩
          rw [if_neg hcloser]
          exact ⟨() :: values, many_taken hother (Nat.lt_succ_self _) hrest⟩

section

variable {n : Nat} (hF : S.Frames F back)

include hF

theorem takes_skipToClose (own : Mark) (hdepth : n < S.depth) :
    TakesIn S F back n (skipToClose own) (Parser.move (Cursor.skipToClose own)) := by
  intro c hn hc
  refine ⟨?_, Cursor.skipToClose_suffix own c⟩
  rcases c with ⟨last, ts⟩
  have hgroups : ∃ values, many group S ⟨last, ts ++ back⟩ =
      .taken ⟨values, (Cursor.skipGroups last 0 ts).extend back, []⟩ :=
    many_group (r := group) hF ts.length (Nat.le_refl _) (hn.trans_lt hdepth) (fun _ => rfl) hc last
  rcases hgroups with ⟨values, hgroups⟩
  refine (bind_silent (discard_taken hgroups)).trans ?_
  have hsuffix := Cursor.skipGroups_suffix last 0 ts
  show _ = Outcome.taken ⟨(), (Cursor.skipToClose own ⟨last, ts⟩).extend back, []⟩
  unfold Cursor.skipToClose
  dsimp only
  generalize Cursor.skipGroups last 0 ts = behind at hsuffix ⊢
  -- Behind the balanced groups stands the end, the closer that was looked for, or another one.
  rcases behind with ⟨stop, - | ⟨t, us⟩⟩
  · exact discard_taken (optional_refused (inside_end hF _ _))
  · have hinside : inside (just own) S ⟨stop, t :: us ++ back⟩ = just own S ⟨stop, t :: us ++ back⟩ :=
      inside_run (hc.mono hsuffix) _ _
    split
    · next hown =>
      have hkind : t.kind = .mark own := by simpa [Cursor.kind?] using hown
      exact discard_taken (optional_taken (hinside.trans (just_taken hkind)))
    · next hown =>
      have hkind : t.kind ≠ .mark own := by simpa [Cursor.kind?] using hown
      exact discard_taken (optional_refused (hinside.trans (just_refused hkind)))

/-- How a construct ends at the end, at its closer, at another one, and at any other token. -/
theorem closing_run (own : Mark) {c : Cursor} (hc : S.Inside back c.rest) :
    closing own S (c.extend back) =
      match c.kind? with
      | none => .taken ⟨.unclosed, c.extend back, []⟩
      | some k =>
        if k = .mark own then .taken ⟨.closed, c.advance.extend back, []⟩
        else if k.isCloser then .taken ⟨.unclosed, c.extend back, []⟩
        else .refused := by
  rcases c with ⟨last, - | ⟨t, ts⟩⟩
  · refine (choice_refused (bind_refused (inside_end hF _ _))).trans (choice_taken ?_)
    exact bind_silent (discard_taken (boundary_end hF last))
  · have hinside : inside (just own) S ⟨last, t :: ts ++ back⟩ =
        just own S ⟨last, t :: ts ++ back⟩ := inside_run hc _ _
    have hend : (discard boundary : Rule Unit) S ⟨last, t :: ts ++ back⟩ = .refused :=
      discard_refused (boundary_inside hc last)
    dsimp only [Cursor.kind?, List.head?_cons, Option.map_some]
    split_ifs with hown hcloser
    · exact choice_taken (bind_silent (hinside.trans (just_taken hown)))
    · refine (choice_refused (bind_refused (hinside.trans (just_refused hown)))).trans ?_
      refine (choice_refused (bind_refused hend)).trans ?_
      refine choice_taken (ahead_taken (d := ⟨t.span.stop, ts ++ back⟩) ?_)
      exact (bind_silent (absent_refused (just_refused hown))).trans
        (bind_silent (satisfy_taken hcloser))
    · refine (choice_refused (bind_refused (hinside.trans (just_refused hown)))).trans ?_
      refine (choice_refused (bind_refused hend)).trans (choice_refused (ahead_refused ?_))
      exact (bind_silent (absent_refused (just_refused hown))).trans
        (bind_refused (satisfy_refused (Bool.eq_false_iff.2 hcloser)))

theorem takes_close (own : Mark) (fault : SyntaxFault) (hdepth : n < S.depth) :
    TakesIn S F back n (close own fault) (Parser.close own fault) := by
  intro c hn hc
  have hskip : TakesIn S F back n
      (discard (report lookahead fault) >>= fun _ => skipToClose own >>= fun _ =>
        pure Parser.Closing.broken)
      (Parser.report fault >>= fun _ => Parser.move (Cursor.skipToClose own) >>= fun _ =>
        pure Parser.Closing.broken) :=
    (takes_report hF fault).bind fun _ => (takes_skipToClose hF own hdepth).bind fun _ =>
      takes_pure Parser.Closing.broken
  have hclosing := closing_run hF own hc
  rcases c with ⟨last, - | ⟨t, ts⟩⟩
  · exact ⟨choice_taken hclosing, List.suffix_rfl⟩
  · have hread : Parser.close own fault F ⟨last, t :: ts⟩ =
        (if t.kind = .mark own then Parser.advance >>= fun _ => pure Parser.Closing.closed
        else if t.kind.isCloser then pure Parser.Closing.unclosed
        else Parser.report fault >>= fun _ => Parser.move (Cursor.skipToClose own) >>= fun _ =>
          pure Parser.Closing.broken) F ⟨last, t :: ts⟩ := rfl
    dsimp only [Cursor.kind?, List.head?_cons, Option.map_some] at hclosing
    split_ifs at hread hclosing with hown hcloser
    · exact .of_read hread (choice_taken hclosing) (List.suffix_cons t ts)
    · exact .of_read hread (choice_taken hclosing) List.suffix_rfl
    · exact (hskip _ hn hc).congr ((choice_refused hclosing).trans (choice_single _)) hread

theorem takes_endOfItem : TakesIn S F back n endOfItem Parser.endOfItem := by
  intro c hn hc
  have hline : TakesIn S F back n (discard (report lookahead .missingNewline) >>= fun _ => recoverLine)
      (Parser.report .missingNewline >>= fun _ => Parser.move Cursor.recoverLine) :=
    (takes_report hF _).bind fun _ => takes_recoverLine hF
  rcases c with ⟨last, - | ⟨t, ts⟩⟩
  · refine ⟨(choice_refused (satisfy_end hF rfl)).trans (choice_taken ?_), List.suffix_rfl⟩
    rcases hF.ending with ⟨rfl, -⟩ | ⟨-, brace, ends, rfl, hbrace, -⟩
    · exact ahead_taken (d := ⟨last, []⟩) rfl
    · have hbrace' : just .closeBrace S ⟨last, brace :: ends⟩ =
          .taken ⟨(), ⟨brace.span.stop, ends⟩, []⟩ := just_taken hbrace
      exact ahead_taken (choice_taken hbrace')
  · -- A line break is taken, a closing brace is left standing, and anything else is a fault.
    have hread : Parser.endOfItem F ⟨last, t :: ts⟩ =
        (if t.kind = .mark .newline then Parser.advance
        else if t.kind = .mark .closeBrace then pure ()
        else Parser.report .missingNewline >>= fun _ => Parser.move Cursor.recoverLine) F
          ⟨last, t :: ts⟩ := by
      rcases t with ⟨_ | _ | _ | _ | m | _, span⟩
      case mark => cases m <;> rfl
      all_goals rfl
    split_ifs at hread with hnewline hbrace
    · exact .of_read hread (choice_taken (just_taken hnewline)) (List.suffix_cons t ts)
    · refine .of_read hread ((choice_refused (just_refused hnewline)).trans ?_) List.suffix_rfl
      exact choice_taken (ahead_taken (choice_taken (just_taken hbrace)))
    · refine (hline _ hn hc).congr ?_ hread
      refine (choice_refused (just_refused hnewline)).trans ?_
      refine (choice_refused (ahead_refused ?_)).trans (choice_single _)
      refine (choice_refused (just_refused hbrace)).trans ?_
      exact choice_refused (discard_refused (ending_refused (List.cons_ne_nil _ _)))

end

end Rule

end Overlay.Hcl
