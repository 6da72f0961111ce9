import Mathlib.Tactic.SplitIfs
import Overlay.Hcl.Container
import Overlay.Proofs.Hcl.Cursor
import Overlay.Proofs.Hcl.Parser
import Overlay.Proofs.Hcl.Token
import Overlay.Proofs.Hcl.Tree

/-!
# Reading moved tokens

A reader in front of moved tokens gives what it gives in front of the tokens, moved; and how much depth
it has makes no difference, if it is enough.

* `Parser.Moves` relates two readers at one place, of which the second one reads the moved tokens.
  They may differ in their depths. It also says that the first one takes tokens from the front and
  never reports that its depth is used up.
* It is closed under the steps a reader is made of, so that each form keeps it if its parts do. An
  induction over the depth closes the circle (`moving`): each token that is taken pays for two.
-/

namespace Overlay.Hcl

variable {α β γ δ : Type} {g : Pos → Pos} {F F' : Frame}

/-! ## Moved cursors -/

/-- The second frame is the first one, moved. -/
structure Frame.Moves (g : Pos → Pos) (F F' : Frame) : Prop where
  ending : F'.ending = F.ending.map g
  fileEnd : ∀ p : Pos, F'.fileEnd ≤ (g p).byte ↔ F.fileEnd ≤ p.byte

/-- A frame is itself, where nothing moves. -/
theorem Frame.Moves.refl (F : Frame) : F.Moves id F := ⟨rfl, fun _ => Iff.rfl⟩

/-- Whether the fault is one of malformed text, not of a reader without depth. -/
def SyntaxFault.isExpected : SyntaxFault → Bool
  | unexpected _ => false
  | _ => true

namespace Cursor

/-- The place between the moved tokens. -/
def map (g : Pos → Pos) (c : Cursor) : Cursor :=
  ⟨g c.last, c.rest.map (Token.mapSpan (Span.map g))⟩

theorem length_map (c : Cursor) : (c.map g).rest.length = c.rest.length := List.length_map _

theorem kind?_map (c : Cursor) : (c.map g).kind? = c.kind? := by
  rcases c with ⟨last, rest⟩
  cases rest <;> rfl

theorem advance_map (c : Cursor) : (c.map g).advance = c.advance.map g := by
  rcases c with ⟨last, rest⟩
  cases rest <;> rfl

theorem skipWhile_map (test : TokenKind → Bool) (last : Pos) (ts : List Token) :
    skipWhile test (g last) (ts.map (Token.mapSpan (Span.map g))) =
      (skipWhile test last ts).map g := by
  induction ts generalizing last with
  | nil => rfl
  | cons t ts ih =>
    rw [List.map_cons, skipWhile, skipWhile]
    have hkind : (t.mapSpan (Span.map g)).kind = t.kind := rfl
    rw [hkind]
    split
    · exact ih t.span.stop
    · rfl

theorem skipNewlines_map (c : Cursor) : (c.map g).skipNewlines = c.skipNewlines.map g :=
  skipWhile_map _ c.last c.rest

theorem skipGroups_map (last : Pos) (depth : Nat) (ts : List Token) :
    skipGroups (g last) depth (ts.map (Token.mapSpan (Span.map g))) =
      (skipGroups last depth ts).map g := by
  induction ts generalizing last depth with
  | nil =>
    unfold skipGroups
    rfl
  | cons t ts ih =>
    rw [List.map_cons]
    unfold skipGroups
    have hkind : (t.mapSpan (Span.map g)).kind = t.kind := rfl
    rw [hkind]
    split
    · exact ih t.span.stop (depth + 1)
    · split
      · cases depth with
        | zero => rfl
        | succ depth => exact ih t.span.stop depth
      · exact ih t.span.stop depth

theorem skipToClose_map (own : Mark) (c : Cursor) :
    (c.map g).skipToClose own = (c.skipToClose own).map g := by
  unfold skipToClose
  dsimp only
  have hskip : skipGroups (c.map g).last 0 (c.map g).rest = (skipGroups c.last 0 c.rest).map g :=
    skipGroups_map c.last 0 c.rest
  rw [hskip, kind?_map]
  split
  · exact advance_map _
  · rfl

theorem recoverLine_map (c : Cursor) : (c.map g).recoverLine = c.recoverLine.map g := by
  unfold recoverLine
  have hskip : skipWhile (fun k => !k.isNewline) (c.map g).last (c.map g).rest =
      (skipWhile (fun k => !k.isNewline) c.last c.rest).map g := skipWhile_map _ c.last c.rest
  rw [hskip, advance_map]

end Cursor

namespace Parser

/-- In front of the moved tokens `q` gives what `p` gives, moved. `p` leaves up to `n` tokens, and it
does not report that its depth is used up. -/
structure Moves (g : Pos → Pos) (F F' : Frame) (n : Nat) (m : α → β) (p : Parser α) (q : Parser β)
    (c : Cursor) : Prop where
  run : q F' (c.map g) =
    ⟨m (p F c).value, (p F c).next.map g, (p F c).faults.map (Located.mapSpan (Span.map g))⟩
  left : (p F c).next.rest.length ≤ n
  expected : ∀ f ∈ (p F c).faults, f.item.isExpected = true

/-- The readers move in front of up to `n` tokens. -/
def MovesIn (g : Pos → Pos) (F F' : Frame) (n : Nat) (m : α → β) (p : Parser α) (q : Parser β) :
    Prop :=
  ∀ c : Cursor, c.rest.length ≤ n → Moves g F F' n m p q c

section

variable {n : Nat} {c : Cursor} {m : α → β} {m' : γ → δ} {p : Parser α} {q : Parser β}
  {f : α → Parser γ} {h : β → Parser δ} {last : Pos} {t : Token} {ts : List Token}

/-! ## Steps -/

/-- One reader and another at the place behind it. -/
theorem Moves.bindAt {k : Nat} (hp : Moves g F F' k m p q c)
    (hf : Moves g F F' n m' (f (p F c).value) (h (m (p F c).value)) (p F c).next) :
    Moves g F F' n m' (p >>= f) (q >>= h) c := by
  refine ⟨?_, hf.left, List.forall_mem_append.2 ⟨hp.expected, hf.expected⟩⟩
  rw [bind_run, bind_run, hp.run]
  dsimp only
  rw [hf.run, List.map_append]

theorem Moves.bind (hp : Moves g F F' n m p q c)
    (hf : ∀ a, MovesIn g F F' n m' (f a) (h (m a))) : Moves g F F' n m' (p >>= f) (q >>= h) c :=
  hp.bindAt (hf _ _ hp.left)

theorem MovesIn.bind (hp : MovesIn g F F' n m p q)
    (hf : ∀ a, MovesIn g F F' n m' (f a) (h (m a))) :
    MovesIn g F F' n m' (p >>= f) (q >>= h) :=
  fun c hc => (hp c hc).bind hf

theorem Moves.mono {k : Nat} (hp : Moves g F F' k m p q c) (hle : k ≤ n) :
    Moves g F F' n m p q c :=
  ⟨hp.run, hp.left.trans hle, hp.expected⟩

/-- Readers that do at one place what others do at another. -/
theorem Moves.congr {p' : Parser α} {q' : Parser β} {c' : Cursor} (h : Moves g F F' n m p' q' c')
    (hp : p F c = p' F c') (hq : q F' (c.map g) = q' F' (c'.map g)) :
    Moves g F F' n m p q c := by
  refine ⟨?_, ?_, ?_⟩
  · rw [hq, hp, h.run]
  · rw [hp]
    exact h.left
  · rw [hp]
    exact h.expected

theorem moves_pure (m : α → β) (a : α) : MovesIn g F F' n m (pure a) (pure (m a)) :=
  fun _ hc => ⟨rfl, hc, fun _ h => absurd h List.not_mem_nil⟩

theorem moves_move {k : Cursor → Cursor} (hk : ∀ c, k (c.map g) = (k c).map g)
    (hsuffix : ∀ c, (k c).rest <:+ c.rest) :
    MovesIn g F F' n id (move k) (move k) := by
  intro c hc
  refine ⟨?_, (hsuffix c).length_le.trans hc, fun _ h => absurd h List.not_mem_nil⟩
  unfold move
  rw [hk]
  rfl

theorem moves_advance : MovesIn g F F' n id advance advance :=
  moves_move Cursor.advance_map Cursor.advance_suffix

theorem moves_newlines : MovesIn g F F' n id newlines newlines :=
  moves_move Cursor.skipNewlines_map Cursor.skipNewlines_suffix

theorem moves_recoverLine :
    MovesIn g F F' n id (move Cursor.recoverLine) (move Cursor.recoverLine) :=
  moves_move Cursor.recoverLine_map Cursor.recoverLine_suffix

/-- Behind the rest of a line there is one token less, if there is one. -/
theorem moves_behindLine {k : Unit → Parser γ} {k' : Unit → Parser δ}
    (hk : MovesIn g F F' (n - 1) m' (k ()) (k' ())) :
    MovesIn g F F' n m' (move Cursor.recoverLine >>= k) (move Cursor.recoverLine >>= k') := by
  intro c hc
  have hleft := (Cursor.recoverLine_length c).trans (Nat.sub_le_sub_right hc 1)
  refine ((hk c.recoverLine hleft).mono (Nat.sub_le n 1)).congr rfl ?_
  rw [move_bind, Cursor.recoverLine_map]

theorem moves_skipToClose (own : Mark) :
    MovesIn g F F' n id (move (Cursor.skipToClose own)) (move (Cursor.skipToClose own)) :=
  moves_move (Cursor.skipToClose_map own) (Cursor.skipToClose_suffix own)

/-- Behind the next token there is one token less. -/
theorem moves_behind {k : Unit → Parser γ} {k' : Unit → Parser δ}
    (hk : MovesIn g F F' ts.length m' (k ()) (k' ())) :
    Moves g F F' ts.length m' (advance >>= k) (advance >>= k') ⟨last, t :: ts⟩ :=
  (hk ⟨t.span.stop, ts⟩ (Nat.le_refl _)).congr rfl rfl

theorem moves_behindNewlines {k : Unit → Parser γ} {k' : Unit → Parser δ}
    (hk : ∀ last rest, rest.length ≤ n → Moves g F F' n m' (k ()) (k' ()) ⟨last, rest⟩) :
    MovesIn g F F' n m' (newlines >>= k) (newlines >>= k') := by
  intro c hc
  have hskip := (Cursor.skipNewlines_suffix c).length_le.trans hc
  refine (hk c.skipNewlines.last c.skipNewlines.rest hskip).congr rfl ?_
  rw [newlines_bind, Cursor.skipNewlines_map]

theorem moves_peek {k : Option Token → Parser γ} {k' : Option Token → Parser δ}
    (hk : Moves g F F' n m' (k c.rest.head?)
      (k' (c.rest.head?.map (Token.mapSpan (Span.map g)))) c) :
    Moves g F F' n m' (peek >>= k) (peek >>= k') c := by
  refine hk.congr rfl ?_
  rw [peek_bind, Cursor.map, List.head?_map]

theorem moves_peekKind_bind {k : Option TokenKind → Parser γ} {k' : Option TokenKind → Parser δ}
    (hk : Moves g F F' n m' (k c.kind?) (k' c.kind?) c) :
    Moves g F F' n m' (peekKind >>= k) (peekKind >>= k') c := by
  refine hk.congr rfl ?_
  rw [peekKind_bind, Cursor.kind?_map]

theorem moves_peekSecond_bind {k : Option TokenKind → Parser γ} {k' : Option TokenKind → Parser δ}
    (hk : Moves g F F' n m' (k c.advance.kind?) (k' c.advance.kind?) c) :
    Moves g F F' n m' (peekSecond >>= k) (peekSecond >>= k') c := by
  refine hk.congr rfl ?_
  rw [peekSecond_bind, Cursor.advance_map, Cursor.kind?_map]

theorem moves_peekKind {k : Option TokenKind → Parser γ} {k' : Option TokenKind → Parser δ}
    (hk : ∀ o, MovesIn g F F' n m' (k o) (k' o)) :
    MovesIn g F F' n m' (peekKind >>= k) (peekKind >>= k') :=
  fun c hc => moves_peekKind_bind (hk _ c hc)

theorem moves_spanFrom (start : Pos) :
    MovesIn g F F' n (Span.map g) (spanFrom start) (spanFrom (g start)) :=
  fun _ hc => ⟨rfl, hc, fun _ h => absurd h List.not_mem_nil⟩

theorem moves_reportAt (span : Span) {fault : SyntaxFault} (hfault : fault.isExpected = true) :
    MovesIn g F F' n id (reportAt span fault) (reportAt (span.map g) fault) :=
  fun _ hc => ⟨rfl, hc, List.forall_mem_singleton.2 hfault⟩

theorem moves_atMark (mk : Mark) {k : Bool → Parser γ} {k' : Bool → Parser δ}
    (hk : ∀ found, MovesIn g F F' n m' (k found) (k' found)) :
    MovesIn g F F' n m' (atMark mk >>= k) (atMark mk >>= k') := by
  intro c hc
  refine (hk (c.kind? == some (.mark mk)) c hc).congr rfl ?_
  rw [atMark_bind, Cursor.kind?_map]

theorem moves_mark (mk : Mark) {k : Bool → Parser γ} {k' : Bool → Parser δ}
    (hk : ∀ found, MovesIn g F F' n m' (k found) (k' found)) :
    MovesIn g F F' n m' (mark mk >>= k) (mark mk >>= k') := by
  intro c hc
  by_cases hkind : c.kind? = some (.mark mk)
  · have hleft := (Cursor.advance_suffix c).length_le.trans hc
    refine (hk true c.advance hleft).congr ?_ ?_
    · rw [mark_bind, if_pos hkind]
    · rw [mark_bind, Cursor.kind?_map, if_pos hkind, Cursor.advance_map]
  · refine (hk false c hc).congr ?_ ?_
    · rw [mark_bind, if_neg hkind]
    · rw [mark_bind, Cursor.kind?_map, if_neg hkind]

/-- Behind a mark there is one token less. -/
theorem moves_markBehind (mk : Mark) {k : Bool → Parser γ} {k' : Bool → Parser δ}
    (htrue : ∀ i < n, MovesIn g F F' i m' (k true) (k' true))
    (hfalse : MovesIn g F F' n m' (k false) (k' false)) :
    MovesIn g F F' n m' (mark mk >>= k) (mark mk >>= k') := by
  intro c hc
  by_cases hkind : c.kind? = some (.mark mk)
  · have hlt := (Cursor.advance_length_lt hkind).trans_le hc
    refine ((htrue _ hlt c.advance (Nat.le_refl _)).mono hlt.le).congr ?_ ?_
    · rw [mark_bind, if_pos hkind]
    · rw [mark_bind, Cursor.kind?_map, if_pos hkind, Cursor.advance_map]
  · refine (hfalse c hc).congr ?_ ?_
    · rw [mark_bind, if_neg hkind]
    · rw [mark_bind, Cursor.kind?_map, if_neg hkind]

/-- Behind a comma there is one token less. -/
theorem moves_comma {k : Bool → Parser γ} {k' : Bool → Parser δ}
    (htrue : ∀ i < n, MovesIn g F F' i m' (k true) (k' true))
    (hfalse : MovesIn g F F' n m' (k false) (k' false)) :
    MovesIn g F F' n m' (comma >>= k) (comma >>= k') := by
  intro c hc
  by_cases hkind : c.skipNewlines.kind? = some (.mark .comma)
  · have hshort : c.skipNewlines.advance.skipNewlines.rest.length < n := by
      have hskip := (Cursor.skipNewlines_suffix c).length_le
      have hback := (Cursor.skipNewlines_suffix c.skipNewlines.advance).length_le
      have hcomma := Cursor.advance_length_lt hkind
      omega
    refine ((htrue _ hshort _ (Nat.le_refl _)).mono hshort.le).congr ?_ ?_
    · rw [comma_bind, if_pos hkind]
    · rw [comma_bind, Cursor.skipNewlines_map, Cursor.kind?_map, if_pos hkind,
        Cursor.advance_map, Cursor.skipNewlines_map]
  · refine (hfalse c hc).congr ?_ ?_
    · rw [comma_bind, if_neg hkind]
    · rw [comma_bind, Cursor.skipNewlines_map, Cursor.kind?_map, if_neg hkind]

/-! ## Reports -/

section

variable (hF : F.Moves g F')

include hF

theorem moves_lookahead : MovesIn g F F' n (Span.map g) lookahead lookahead := by
  intro c hc
  refine ⟨?_, hc, fun _ h => absurd h List.not_mem_nil⟩
  rcases c with ⟨last, rest⟩
  cases rest with
  | nil =>
    show (⟨F'.ending, _, []⟩ : Parsed Span) = _
    rw [hF.ending]
    rfl
  | cons => rfl

theorem moves_found : MovesIn g F F' n id found found := by
  intro c hc
  refine ⟨?_, hc, fun _ h => absurd h List.not_mem_nil⟩
  rcases c with ⟨last, rest⟩
  cases rest with
  | nil => rfl
  | cons t ts =>
    have hend : F'.fileEnd ≤ (t.mapSpan (Span.map g)).span.start.byte ↔
        F.fileEnd ≤ t.span.start.byte := hF.fileEnd t.span.start
    simp only [found, Cursor.map, List.map_cons, hend]
    rfl

theorem moves_report {fault : SyntaxFault} (hfault : fault.isExpected = true) :
    MovesIn g F F' n id (report fault) (report fault) :=
  (moves_lookahead hF).bind fun span => moves_reportAt span hfault

theorem moves_invalidExpression :
    MovesIn g F F' n (Expr.mapSpans (Span.map g)) invalidExpression invalidExpression := by
  refine (moves_lookahead hF).bind fun span => (moves_found hF).bind fun text =>
    (moves_reportAt span rfl).bind fun _ => moves_peekKind fun o => ?_
  have hnull : MovesIn g F F' n (Expr.mapSpans (Span.map g)) (pure (Expr.null span))
      (pure (Expr.null (span.map g))) := moves_pure _ (Expr.null span)
  cases o with
  | none => exact hnull
  | some k =>
    dsimp only
    split
    · exact hnull
    · exact moves_advance.bind fun _ => hnull

theorem moves_close (own : Mark) {fault : SyntaxFault} (hfault : fault.isExpected = true) :
    MovesIn g F F' n id (close own fault) (close own fault) := by
  refine moves_peekKind fun o => ?_
  cases o with
  | none => exact moves_pure id _
  | some k =>
    dsimp only
    split
    · exact moves_advance.bind fun _ => moves_pure id _
    · split
      · exact moves_pure id _
      · exact (moves_report hF hfault).bind fun _ =>
          (moves_skipToClose own).bind fun _ => moves_pure id _

theorem moves_endOfItem : MovesIn g F F' n id endOfItem endOfItem := by
  refine moves_peekKind fun o => ?_
  have hreport : MovesIn g F F' n id
      (do
        report .missingNewline
        move Cursor.recoverLine)
      (do
        report .missingNewline
        move Cursor.recoverLine) :=
    (moves_report hF rfl).bind fun _ => moves_recoverLine
  rcases o with - | (_ | _ | _ | _ | mk | _)
  · exact moves_pure id ()
  · exact hreport
  · exact hreport
  · exact hreport
  · exact hreport
  · cases mk with
    | closeBrace => exact moves_pure id ()
    | newline => exact moves_advance
    | _ => exact hreport
  · exact hreport

/-! ## Forms -/

theorem moves_delimited {items : Parser α} {items' : Parser β} (hitems : MovesIn g F F' n m items items')
    (own : Mark) {fault : SyntaxFault} (hfault : fault.isExpected = true) :
    MovesIn g F F' n (Prod.map m id) (delimited items own fault) (delimited items' own fault) :=
  moves_newlines.bind fun _ => hitems.bind fun a => moves_newlines.bind fun _ =>
    (moves_close hF own hfault).bind fun closing => moves_pure (Prod.map m id) (a, closing)

end

/-- The end of a construct that starts at `opener` and may be unclosed. -/
theorem moves_unclosed {closing : Closing} {opener : Span} {fault : SyntaxFault} {start : Pos}
    {mk mk' : Span → Expr} (hfault : fault.isExpected = true)
    (hmk : ∀ span, mk' (span.map g) = (mk span).mapSpans (Span.map g)) :
    MovesIn g F F' n (Expr.mapSpans (Span.map g))
      (do
        if closing = .unclosed then reportAt opener fault
        return mk (← spanFrom start))
      (do
        if closing = .unclosed then reportAt (opener.map g) fault
        return mk' (← spanFrom (g start))) := by
  have hspan : MovesIn g F F' n (Expr.mapSpans (Span.map g)) (do return mk (← spanFrom start))
      (do return mk' (← spanFrom (g start))) := by
    refine (moves_spanFrom start).bind fun span => ?_
    rw [hmk]
    exact moves_pure _ (mk span)
  by_cases hclosing : closing = .unclosed
  · simp only [hclosing, if_true]
    exact (moves_reportAt opener hfault).bind fun _ => hspan
  · simp only [hclosing, if_false]
    exact hspan

theorem literalName?_moves (name : String) (span : Span) :
    literalName? name (span.map g) = (literalName? name span).map (Expr.mapSpans (Span.map g)) := by
  unfold literalName?
  split_ifs <;> rfl

theorem moves_object {entries entries' : Parser (List Entry × Closing)} {opener : Span}
    (hentries : MovesIn g F F' ts.length (Prod.map (mapEntries (Span.map g)) id) entries entries') :
    Moves g F F' ts.length (Expr.mapSpans (Span.map g)) (object entries opener)
      (object entries' (opener.map g)) ⟨last, t :: ts⟩ :=
  moves_behind (hentries.bind fun _ => moves_unclosed rfl fun _ => rfl)

/-- A reader without depth is never called. -/
theorem movesIn_depths {k : Nat} {r : Nat → Parser α} {r' : Nat → Parser β}
    (h : ∀ d d', k ≤ d → k ≤ d' → MovesIn g F F' n m (r (d + 1)) (r' (d' + 1))) {d d' : Nat}
    (hd : k + 1 ≤ d) (hd' : k + 1 ≤ d') : MovesIn g F F' n m (r d) (r' d') := by
  rcases Nat.exists_eq_add_of_le' (Nat.le_of_add_left_le hd) with ⟨e, rfl⟩
  rcases Nat.exists_eq_add_of_le' (Nat.le_of_add_left_le hd') with ⟨e', rfl⟩
  exact h e e' (Nat.le_of_succ_le_succ hd) (Nat.le_of_succ_le_succ hd')

/-- A step behind a dot takes the dot. Where there is none, the dot stays in place. -/
theorem moves_dotStep? {start : Pos} {k : Option Step → Parser γ} {k' : Option Step → Parser δ}
    (hsome : ∀ step, MovesIn g F F' ts.length m' (k (some step))
      (k' (some (step.mapSpans (Span.map g)))))
    (hnone : Moves g F F' n m' (k none) (k' none) ⟨last, t :: ts⟩) (hn : ts.length ≤ n) :
    Moves g F F' n m' (dotStep? start >>= k) (dotStep? (g start) >>= k') ⟨last, t :: ts⟩ := by
  rcases ts with - | ⟨⟨kind, span⟩, ts⟩
  · exact hnone.congr rfl rfl
  · have hle : ts.length ≤ (⟨kind, span⟩ :: ts : List Token).length := Nat.le_succ _
    cases kind with
    | ident name =>
      exact ((hsome (.attr name ⟨start, span.stop⟩) ⟨span.stop, ts⟩ hle).mono hn).congr rfl rfl
    | number text =>
      exact ((hsome (.index (.number text span) ⟨start, span.stop⟩) ⟨span.stop, ts⟩ hle).mono
        hn).congr rfl rfl
    | _ => exact hnone.congr rfl rfl

/-- Items, of which each but the first one stands behind a comma. -/
theorem moves_elements {d d' : Nat}
    (hvalue : MovesIn g F F' n (Expr.mapSpans (Span.map g)) (value d) (value d'))
    (hmore : ∀ i < n, MovesIn g F F' i (mapItems (Span.map g)) (elements d) (elements d')) :
    MovesIn g F F' n (mapItems (Span.map g)) (elements (d + 1)) (elements (d' + 1)) := by
  unfold elements
  refine moves_peekKind fun o => ?_
  have hnone : MovesIn g F F' n (mapItems (Span.map g)) (pure []) (pure []) := moves_pure _ []
  cases o with
  | none => exact hnone
  | some k =>
    dsimp only
    split
    · exact hnone
    · refine hvalue.bind fun item => moves_comma (fun i hi => ?_) (moves_pure _ [item])
      exact (hmore i hi).bind fun rest => moves_pure _ (item :: rest)

section

variable (hF : F.Moves g F')

include hF

theorem moves_tuple {items items' : Parser (List Expr)} {opener : Span}
    (hitems : MovesIn g F F' ts.length (mapItems (Span.map g)) items items') :
    Moves g F F' ts.length (Expr.mapSpans (Span.map g)) (tuple items opener)
      (tuple items' (opener.map g)) ⟨last, t :: ts⟩ :=
  moves_behind ((moves_delimited hF hitems _ rfl).bind fun _ => moves_unclosed rfl fun _ => rfl)

theorem moves_call {items items' : Parser (List Expr)} {name : String} {start : Pos}
    (hitems : MovesIn g F F' ts.length (mapItems (Span.map g)) items items') :
    Moves g F F' ts.length (Expr.mapSpans (Span.map g)) (call items name start)
      (call items' name (g start)) ⟨last, t :: ts⟩ :=
  moves_behind ((moves_lookahead hF).bind fun _ => moves_advance.bind fun _ =>
    (moves_delimited hF hitems _ rfl).bind fun _ => moves_unclosed rfl fun _ => rfl)

theorem moves_closeParens : MovesIn g F F' n id closeParens closeParens := by
  refine moves_mark _ fun found => ?_
  cases found with
  | true => exact moves_pure id ()
  | false =>
    refine (moves_report hF rfl).bind fun _ => moves_peekKind fun o => ?_
    rcases o with - | (_ | _ | _ | _ | mk | _)
    · exact moves_pure id ()
    · exact moves_skipToClose _
    · exact moves_skipToClose _
    · exact moves_skipToClose _
    · exact moves_skipToClose _
    · cases mk with
      | closeBrace => exact moves_pure id ()
      | closeBracket => exact moves_pure id ()
      | _ => exact moves_skipToClose _
    · exact moves_skipToClose _

theorem moves_parens {inner inner' : Parser Expr} {start : Pos}
    (hinner : MovesIn g F F' ts.length (Expr.mapSpans (Span.map g)) inner inner') :
    Moves g F F' ts.length (Expr.mapSpans (Span.map g)) (parens inner start)
      (parens inner' (g start)) ⟨last, t :: ts⟩ :=
  moves_behind (moves_newlines.bind fun _ => hinner.bind fun e => moves_newlines.bind fun _ =>
    (moves_closeParens hF).bind fun _ => (moves_spanFrom start).bind fun span =>
      moves_pure _ (Expr.parens e span))

theorem moves_traversal {more more' : Parser (List Step)} {root : String} {rootSpan : Span}
    (hmore : MovesIn g F F' ts.length (mapSteps (Span.map g)) more more') :
    Moves g F F' ts.length (Traversal.mapSpans (Span.map g)) (traversal more root rootSpan)
      (traversal more' root (rootSpan.map g)) ⟨last, t :: ts⟩ := by
  refine moves_behind (hmore.bind fun steps => moves_mark _ fun found => ?_)
  have hpath : MovesIn g F F' ts.length (Traversal.mapSpans (Span.map g))
      (spanFrom rootSpan.start >>= fun span => pure (.mk root rootSpan steps span))
      (spanFrom (g rootSpan.start) >>= fun span =>
        pure (.mk root (rootSpan.map g) (mapSteps (Span.map g) steps) span)) :=
    (moves_spanFrom _).bind fun span => moves_pure _ (Traversal.mk root rootSpan steps span)
  cases found with
  | true => exact (moves_report hF rfl).bind fun _ => hpath
  | false => exact hpath

theorem moves_indexStep {key key' : Parser Expr} {start : Pos}
    (hkey : MovesIn g F F' ts.length (Expr.mapSpans (Span.map g)) key key') :
    Moves g F F' ts.length (Step.mapSpans (Span.map g)) (indexStep key start)
      (indexStep key' (g start)) ⟨last, t :: ts⟩ := by
  refine moves_behind (moves_newlines.bind fun _ => hkey.bind fun e => moves_newlines.bind fun _ =>
    moves_mark _ fun found => ?_)
  have hstep : MovesIn g F F' ts.length (Step.mapSpans (Span.map g))
      (spanFrom start >>= fun span => pure (.index e span))
      (spanFrom (g start) >>= fun span => pure (.index (e.mapSpans (Span.map g)) span)) :=
    (moves_spanFrom _).bind fun span => moves_pure _ (Step.index e span)
  cases found with
  | true => exact hstep
  | false => exact (moves_report hF rfl).bind fun _ => (moves_skipToClose _).bind fun _ => hstep

/-- A key, which starts with a token. -/
theorem moves_keyOf {inner inner' : Parser Expr} {more more' : Parser (List Step)}
    (hinner : MovesIn g F F' n (Expr.mapSpans (Span.map g)) inner inner')
    (hmore : ∀ i < n, MovesIn g F F' i (mapSteps (Span.map g)) more more') :
    MovesIn g F F' n (Key.mapSpans (Span.map g)) (keyOf inner more) (keyOf inner' more') := by
  intro c hc
  have hexpr : Moves g F F' n (Key.mapSpans (Span.map g)) (do return .expr (← inner))
      (do return .expr (← inner')) c :=
    (hinner c hc).bind fun e => moves_pure _ (Key.expr e)
  rcases c with ⟨last, rest⟩
  rcases rest with - | ⟨⟨⟨name⟩ | _ | _ | _ | _ | _, span⟩, ts⟩
  · exact moves_peek hexpr
  · have hlt : ts.length < n := hc
    refine moves_peek (Moves.mono ?_ hlt.le)
    exact (moves_traversal hF (hmore _ hlt)).bind fun path => moves_pure _ (Key.path path)
  · exact moves_peek hexpr
  · exact moves_peek hexpr
  · exact moves_peek hexpr
  · exact moves_peek hexpr
  · exact moves_peek hexpr

/-! ## Expressions -/

/-- In front of up to `n` tokens the parts of expressions are read alike with any two depths that are
enough. -/
structure Moving (g : Pos → Pos) (F F' : Frame) (n : Nat) : Prop where
  value : ∀ {d d'}, 2 * n + 1 ≤ d → 2 * n + 1 ≤ d' →
    MovesIn g F F' n (Expr.mapSpans (Span.map g)) (value d) (value d')
  steps : ∀ {d d'}, 2 * n + 1 ≤ d → 2 * n + 1 ≤ d' →
    MovesIn g F F' n (mapSteps (Span.map g)) (steps d) (steps d')
  elements : ∀ {d d'}, 2 * n + 2 ≤ d → 2 * n + 2 ≤ d' →
    MovesIn g F F' n (mapItems (Span.map g)) (elements d) (elements d')
  entries : ∀ {d d'}, 2 * n + 2 ≤ d → 2 * n + 2 ≤ d' →
    MovesIn g F F' n (Prod.map (mapEntries (Span.map g)) id) (objectEntries d) (objectEntries d')

section

variable {d d' : Nat} (ih : ∀ i < n, Moving g F F' i)

include ih

theorem moves_value (hd : 2 * n ≤ d) (hd' : 2 * n ≤ d') :
    MovesIn g F F' n (Expr.mapSpans (Span.map g)) (value (d + 1)) (value (d' + 1)) := by
  intro c hc
  have hinvalid := moves_invalidExpression hF c hc
  unfold value
  rcases c with ⟨last, rest⟩
  rcases rest with - | ⟨⟨kind, span⟩, ts⟩
  · exact moves_peek hinvalid
  · have hlt : ts.length < n := hc
    -- The literals: one token is taken and its span alone moves.
    have hleaf : ∀ e : Expr, Moves g F F' ts.length (Expr.mapSpans (Span.map g))
        (advance >>= fun _ => pure e) (advance >>= fun _ => pure (e.mapSpans (Span.map g)))
        ⟨last, ⟨kind, span⟩ :: ts⟩ := fun e => moves_behind (moves_pure _ e)
    refine moves_peek ?_
    cases kind with
    | number text => exact (hleaf (.number text span)).mono hlt.le
    | str text => exact (hleaf (.string text span)).mono hlt.le
    | heredoc text => exact (hleaf (.string text span)).mono hlt.le
    | stray c => exact hinvalid
    | ident name =>
      dsimp only [List.head?_cons, Option.map_some, Token.mapSpan]
      -- A keyword is told by its text, which a shift of places leaves alone.
      rw [literalName?_moves]
      cases literalName? name span with
      | some e => exact (hleaf e).mono hlt.le
      | none =>
        refine moves_peekSecond_bind (Moves.mono ?_ hlt.le)
        split
        · exact moves_call hF ((ih _ hlt).elements (by omega) (by omega))
        · exact (moves_traversal hF ((ih _ hlt).steps (by omega) (by omega))).bind fun path =>
            moves_pure _ (Expr.traversal path)
    | mark mk =>
      cases mk with
      | minus =>
        exact (moves_behind (((ih _ hlt).value (by omega) (by omega)).bind fun e =>
          (moves_spanFrom _).bind fun span => moves_pure _ (Expr.negate e span))).mono hlt.le
      | openBracket =>
        exact (moves_tuple hF ((ih _ hlt).elements (by omega) (by omega))).mono hlt.le
      | openBrace => exact (moves_object ((ih _ hlt).entries (by omega) (by omega))).mono hlt.le
      | openParen => exact (moves_parens hF ((ih _ hlt).value (by omega) (by omega))).mono hlt.le
      | _ => exact hinvalid

theorem moves_steps (hd : 2 * n ≤ d) (hd' : 2 * n ≤ d') :
    MovesIn g F F' n (mapSteps (Span.map g)) (steps (d + 1)) (steps (d' + 1)) := by
  intro c hc
  have hnone : Moves g F F' n (mapSteps (Span.map g)) (pure []) (pure []) c := moves_pure _ [] c hc
  unfold steps
  rcases c with ⟨last, rest⟩
  rcases rest with - | ⟨⟨kind, span⟩, ts⟩
  · exact moves_peek hnone
  · have hlt : ts.length < n := hc
    -- Behind a step the path goes on with one token less, where the hypothesis holds.
    have hmore : ∀ step : Step, MovesIn g F F' ts.length (mapSteps (Span.map g))
        (do return step :: (← steps d)) (do return step.mapSpans (Span.map g) :: (← steps d')) :=
      fun step => ((ih _ hlt).steps (by omega) (by omega)).bind fun rest =>
        moves_pure _ (step :: rest)
    refine moves_peek ?_
    cases kind with
    | mark mk =>
      cases mk with
      | dot => exact moves_dotStep? hmore hnone hlt.le
      | openBracket =>
        exact ((moves_indexStep hF ((ih _ hlt).value (by omega) (by omega))).bind hmore).mono hlt.le
      | _ => exact hnone
    | _ => exact hnone

end

theorem moves_behindValue {d d' : Nat} (entry : Entry)
    (hmore : ∀ i < n, MovesIn g F F' i (Prod.map (mapEntries (Span.map g)) id) (objectEntries d)
      (objectEntries d')) :
    MovesIn g F F' n (Prod.map (mapEntries (Span.map g)) id) (behindValue d entry)
      (behindValue d' (entry.mapSpans (Span.map g))) := by
  intro c hc
  have hlast : Moves g F F' n (Prod.map (mapEntries (Span.map g)) id) (lastEntry entry)
      (lastEntry (entry.mapSpans (Span.map g))) c :=
    (moves_close hF _ rfl c hc).bind fun closing => moves_pure _ ([entry], closing)
  rcases c with ⟨last, rest⟩
  rcases rest with - | ⟨⟨kind, span⟩, ts⟩
  · exact moves_peekKind_bind hlast
  · have hlt : ts.length < n := hc
    have hbefore : Moves g F F' n (Prod.map (mapEntries (Span.map g)) id) (entryBefore d entry)
        (entryBefore d' (entry.mapSpans (Span.map g))) ⟨last, ⟨kind, span⟩ :: ts⟩ :=
      (moves_behind ((hmore _ hlt).bind fun rest =>
        moves_pure (Prod.map (mapEntries (Span.map g)) id) (entry :: rest.1, rest.2))).mono hlt.le
    -- A comma or a line break lets another entry follow, anything else has to close the object.
    refine moves_peekKind_bind ?_
    cases kind with
    | mark mk =>
      cases mk with
      | comma => exact hbefore
      | newline => exact hbefore
      | _ => exact hlast
    | _ => exact hlast

theorem moves_behindKey {d d' : Nat} (key : Key)
    (hvalue : ∀ i < n, MovesIn g F F' i (Expr.mapSpans (Span.map g)) (value d) (value d'))
    (hmore : ∀ i < n, MovesIn g F F' i (Prod.map (mapEntries (Span.map g)) id) (objectEntries d)
      (objectEntries d')) :
    MovesIn g F F' n (Prod.map (mapEntries (Span.map g)) id) (behindKey d key)
      (behindKey d' (key.mapSpans (Span.map g))) := by
  intro c hc
  have hmissing : Moves g F F' n (Prod.map (mapEntries (Span.map g)) id) noSeparator noSeparator c :=
    ((moves_report hF rfl).bind fun _ => (moves_skipToClose _).bind fun _ =>
      moves_pure (Prod.map (mapEntries (Span.map g)) id) ([], Closing.broken)) c hc
  rcases c with ⟨last, rest⟩
  rcases rest with - | ⟨⟨kind, span⟩, ts⟩
  · exact moves_peekKind_bind hmissing
  · have hlt : ts.length < n := hc
    have hentry : Moves g F F' n (Prod.map (mapEntries (Span.map g)) id) (entryValue d key)
        (entryValue d' (key.mapSpans (Span.map g))) ⟨last, ⟨kind, span⟩ :: ts⟩ :=
      (moves_behind ((hvalue _ hlt).bind fun e =>
        moves_behindValue hF (.mk key e) fun i hi => hmore i (hi.trans hlt))).mono hlt.le
    refine moves_peekKind_bind ?_
    cases kind with
    | mark mk =>
      cases mk with
      | equals => exact hentry
      | colon => exact hentry
      | _ => exact hmissing
    | _ => exact hmissing

theorem moves_objectEntries {d d' : Nat}
    (hvalue : ∀ i ≤ n, MovesIn g F F' i (Expr.mapSpans (Span.map g)) (value d) (value d'))
    (hsteps : ∀ i < n, MovesIn g F F' i (mapSteps (Span.map g)) (steps d) (steps d'))
    (hmore : ∀ i < n, MovesIn g F F' i (Prod.map (mapEntries (Span.map g)) id) (objectEntries d)
      (objectEntries d')) :
    MovesIn g F F' n (Prod.map (mapEntries (Span.map g)) id) (objectEntries (d + 1))
      (objectEntries (d' + 1)) := by
  rw [objectEntries_succ, objectEntries_succ]
  refine moves_newlines.bind fun _ => moves_peekKind fun o => ?_
  cases o with
  | none => exact moves_pure (Prod.map (mapEntries (Span.map g)) id) ([], Closing.unclosed)
  | some k =>
    dsimp only
    split
    · refine (moves_keyOf hF (hvalue n (Nat.le_refl n)) hsteps).bind fun key => ?_
      exact moves_behindKey hF key (fun i hi => hvalue i hi.le) hmore
    · exact (moves_close hF _ rfl).bind fun closing =>
        moves_pure (Prod.map (mapEntries (Span.map g)) id) ([], closing)

/-- In front of any number of tokens expressions are read alike with any two depths that are enough. -/
theorem moving (n : Nat) : Moving g F F' n := by
  induction n using Nat.strong_induction_on with
  | h n ih =>
    -- Items and entries may start with a value in front of all the tokens, so values come first.
    have hvalue : ∀ {d d'}, 2 * n + 1 ≤ d → 2 * n + 1 ≤ d' →
        MovesIn g F F' n (Expr.mapSpans (Span.map g)) (value d) (value d') :=
      movesIn_depths fun d d' hd hd' => moves_value hF ih hd hd'
    have hbelow : ∀ {d d'}, 2 * n + 1 ≤ d → 2 * n + 1 ≤ d' → ∀ i ≤ n,
        MovesIn g F F' i (Expr.mapSpans (Span.map g)) (value d) (value d') := by
      intro d d' hd hd' i hi
      rcases Nat.lt_or_eq_of_le hi with hlt | rfl
      · exact (ih i hlt).value (by omega) (by omega)
      · exact hvalue hd hd'
    refine ⟨hvalue, ?_, ?_, ?_⟩
    · exact movesIn_depths fun d d' hd hd' => moves_steps hF ih hd hd'
    · refine movesIn_depths fun d d' hd hd' => moves_elements (hvalue hd hd') fun i hi => ?_
      exact (ih i hi).elements (by omega) (by omega)
    · refine movesIn_depths fun d d' hd hd' =>
        moves_objectEntries hF (hbelow hd hd') (fun i hi => ?_) fun i hi => ?_
      · exact (ih i hi).steps (by omega) (by omega)
      · exact (ih i hi).entries (by omega) (by omega)

theorem moves_expression :
    MovesIn g F F' n (Expr.mapSpans (Span.map g)) expression expression := by
  intro c hc
  have hread := (moving hF c.rest.length).value (Nat.le_succ _) (Nat.le_succ _) c (Nat.le_refl _)
  refine (hread.mono hc).congr rfl ?_
  show value (2 * (c.map g).rest.length + 2) F' (c.map g) = _
  rw [Cursor.length_map]

theorem moves_entryKey : MovesIn g F F' n (Key.mapSpans (Span.map g)) entryKey entryKey := by
  intro c hc
  have hvalue := (moving hF c.rest.length).value (Nat.le_succ _) (Nat.le_succ _)
  have hsteps : ∀ i < c.rest.length, MovesIn g F F' i (mapSteps (Span.map g))
      (steps (2 * c.rest.length + 2)) (steps (2 * c.rest.length + 2)) :=
    fun i hi => (moving hF i).steps (by omega) (by omega)
  have hread := moves_keyOf hF hvalue hsteps c (Nat.le_refl _)
  refine (hread.mono hc).congr rfl ?_
  show keyOf (value (2 * (c.map g).rest.length + 2)) (steps (2 * (c.map g).rest.length + 2)) F'
    (c.map g) = _
  rw [Cursor.length_map]

end

end

end Parser

end Overlay.Hcl
