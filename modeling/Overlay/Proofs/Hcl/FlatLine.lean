import Overlay.Proofs.Hcl.Completeness
import Overlay.Proofs.Hcl.Cursor

/-!
# Lines without groups

On a line without braces, brackets and parentheses an item ends with the line, however malformed it is,
and nothing behind the line matters.

* `Parser.Extends` relates two readings of the same tokens, where the second one has more tokens behind
  them. Between the forms of an item the rest of the line is left (`OnLine`), behind the item nothing.
* Readers that take groups or line ends are not met on such a line, so the forms that are left keep the
  relation by one induction over the length of the line (`extends_value`, `extends_steps`).
* The two readings may differ in their frames and their depths, so the item of a line is read alike in
  any text (`extends_itemOf`, `exists_item`).
-/

namespace Overlay.Hcl

variable {α β γ δ : Type} {k n d d' : Nat} {ws : List Token} {F F' : Frame}

/-- Whether the token neither ends a line nor opens or closes a group. -/
def TokenKind.isFlat (k : TokenKind) : Bool := !k.isNewline && !k.isOpener && !k.isCloser

/-- The rest of a line without groups and the end of the line, all in front of the byte `k`. -/
inductive FlatLine (k : Nat) : List Token → Prop
  | ending {t : Token} (ht : t.kind = .mark .newline) (hbyte : t.span.start.byte < k) :
    FlatLine k [t]
  | cons {t : Token} {ts : List Token} (ht : t.kind.isFlat = true) (hbyte : t.span.start.byte < k)
      (hts : FlatLine k ts) : FlatLine k (t :: ts)

/-- Up to `n` tokens of a line without groups. -/
def OnLine (k n : Nat) (ts : List Token) : Prop := FlatLine k ts ∧ ts.length ≤ n

theorem not_onLine_zero {ts : List Token} : ¬OnLine k 0 ts := by
  rintro ⟨hline, hlength⟩
  rw [List.length_eq_zero_iff.1 (Nat.le_zero.1 hlength)] at hline
  cases hline

theorem OnLine.succ {ts : List Token} (h : OnLine k n ts) : OnLine k (n + 1) ts :=
  ⟨h.1, Nat.le_succ_of_le h.2⟩

namespace FlatLine

variable {t : Token} {ts : List Token}

theorem byte_lt (h : FlatLine k (t :: ts)) : t.span.start.byte < k := by
  cases h with
  | ending _ hbyte => exact hbyte
  | cons _ hbyte => exact hbyte

/-- A line goes on behind a token that is no line end. -/
theorem behind (h : FlatLine k (t :: ts)) (ht : t.kind.isNewline = false) : FlatLine k ts := by
  cases h with
  | ending hnewline =>
    rw [hnewline] at ht
    cases ht
  | cons _ _ hts => exact hts

/-- Nothing of a line is behind its end. -/
theorem eq_nil (h : FlatLine k (t :: ts)) (ht : t.kind = .mark .newline) : ts = [] := by
  cases h with
  | ending => rfl
  | cons hflat =>
    rw [ht] at hflat
    cases hflat

theorem not_opener (h : FlatLine k (t :: ts)) : t.kind.isOpener = false := by
  cases h with
  | ending ht =>
    rw [ht]
    rfl
  | cons ht =>
    simp only [TokenKind.isFlat, Bool.and_eq_true, Bool.not_eq_true'] at ht
    exact ht.1.2

theorem not_closer (h : FlatLine k (t :: ts)) : t.kind.isCloser = false := by
  cases h with
  | ending ht =>
    rw [ht]
    rfl
  | cons ht =>
    simp only [TokenKind.isFlat, Bool.and_eq_true, Bool.not_eq_true'] at ht
    exact ht.2

end FlatLine

theorem OnLine.behind {t : Token} {ts : List Token} (h : OnLine k (n + 1) (t :: ts))
    (ht : t.kind.isNewline = false) : OnLine k n ts :=
  ⟨h.1.behind ht, Nat.le_of_succ_le_succ h.2⟩

/-! ## Cursors -/

namespace Cursor

variable {last : Pos} {ts : List Token}

/-- The rest of a line is taken with its end. -/
theorem recoverLine_extend (ws : List Token) (h : FlatLine k ts) (last : Pos) :
    (recoverLine ⟨last, ts⟩).rest = [] ∧
      recoverLine ⟨last, ts ++ ws⟩ = (recoverLine ⟨last, ts⟩).extend ws := by
  unfold recoverLine
  induction h generalizing last with
  | ending ht =>
    simp [skipWhile, ht, TokenKind.isNewline, advance, extend]
  | @cons t ts ht _ _ ih =>
    have hline : t.kind.isNewline = false := by
      simp only [TokenKind.isFlat, Bool.and_eq_true, Bool.not_eq_true'] at ht
      exact ht.1.1
    simp only [List.cons_append, skipWhile, hline, Bool.not_false, if_true]
    exact ih _

end Cursor

namespace Parser

/-- With `ws` behind the tokens `q` gives what `p` gives without. It leaves what `R` says, and `ws`. -/
structure Extends (ws : List Token) (F F' : Frame) (R : List Token → Prop) (p q : Parser α)
    (c : Cursor) : Prop where
  run : q F' (c.extend ws) = ⟨(p F c).value, (p F c).next.extend ws, (p F c).faults⟩
  left : R (p F c).next.rest

/-- On any line of up to `n` tokens the readers stay on the line. -/
def ExtendsIn (ws : List Token) (F F' : Frame) (k n : Nat) (p q : Parser α) : Prop :=
  ∀ c : Cursor, OnLine k n c.rest → Extends ws F F' (OnLine k n) p q c

section

variable {R S : List Token → Prop} {p q : Parser α} {f h : α → Parser γ} {c : Cursor} {last : Pos}
  {t : Token} {ts : List Token}

/-! ## Steps -/

theorem Extends.bind (hp : Extends ws F F' R p q c)
    (hf : ∀ a c, R c.rest → Extends ws F F' S (f a) (h a) c) :
    Extends ws F F' S (p >>= f) (q >>= h) c := by
  have hrest := hf (p F c).value _ hp.left
  refine ⟨?_, hrest.left⟩
  rw [bind_run, bind_run, hp.run]
  dsimp only
  rw [hrest.run]

theorem Extends.imp (hp : Extends ws F F' R p q c) (hRS : ∀ ts, R ts → S ts) :
    Extends ws F F' S p q c := ⟨hp.run, hRS _ hp.left⟩

/-- Readers that do at one place what others do at another. -/
theorem Extends.congr {p' q' : Parser α} {c' : Cursor} (hp : Extends ws F F' R p' q' c')
    (hfirst : p F c = p' F c') (hsecond : q F' (c.extend ws) = q' F' (c'.extend ws)) :
    Extends ws F F' R p q c := by
  constructor
  · rw [hsecond, hfirst, hp.run]
  · rw [hfirst]
    exact hp.left

theorem extends_pure (a : α) (hc : R c.rest) : Extends ws F F' R (pure a) (pure a) c := ⟨rfl, hc⟩

theorem extends_peek {f h : Option Token → Parser γ}
    (hf : Extends ws F F' R (f (some t)) (h (some t)) ⟨last, t :: ts⟩) :
    Extends ws F F' R (peek >>= f) (peek >>= h) ⟨last, t :: ts⟩ := hf.congr rfl rfl

theorem extends_peekKind {f h : Option TokenKind → Parser γ}
    (hf : Extends ws F F' R (f (some t.kind)) (h (some t.kind)) ⟨last, t :: ts⟩) :
    Extends ws F F' R (peekKind >>= f) (peekKind >>= h) ⟨last, t :: ts⟩ := hf.congr rfl rfl

theorem extends_peekSecond {u : Token} {f h : Option TokenKind → Parser γ}
    (hf : Extends ws F F' R (f (some u.kind)) (h (some u.kind)) ⟨last, t :: u :: ts⟩) :
    Extends ws F F' R (peekSecond >>= f) (peekSecond >>= h) ⟨last, t :: u :: ts⟩ := hf.congr rfl rfl

theorem extends_advance {f h : Unit → Parser γ}
    (hf : Extends ws F F' R (f ()) (h ()) ⟨t.span.stop, ts⟩) :
    Extends ws F F' R (advance >>= f) (advance >>= h) ⟨last, t :: ts⟩ := hf.congr rfl rfl

theorem extends_spanFrom {start : Pos} {f h : Span → Parser γ}
    (hf : ∀ span, Extends ws F F' R (f span) (h span) c) :
    Extends ws F F' R (spanFrom start >>= f) (spanFrom start >>= h) c :=
  (hf ⟨start, c.last⟩).congr rfl rfl

theorem extends_atMark {mk : Mark} {f h : Bool → Parser γ}
    (hf : Extends ws F F' R (f (t.kind == .mark mk)) (h (t.kind == .mark mk)) ⟨last, t :: ts⟩) :
    Extends ws F F' R (atMark mk >>= f) (atMark mk >>= h) ⟨last, t :: ts⟩ := hf.congr rfl rfl

theorem extends_lookahead {f h : Span → Parser γ}
    (hf : Extends ws F F' R (f t.span) (h t.span) ⟨last, t :: ts⟩) :
    Extends ws F F' R (lookahead >>= f) (lookahead >>= h) ⟨last, t :: ts⟩ := hf.congr rfl rfl

theorem extends_found (hF : k ≤ F.fileEnd) (hF' : k ≤ F'.fileEnd) (hbyte : t.span.start.byte < k)
    {f h : String → Parser γ}
    (hf : ∀ text, Extends ws F F' R (f text) (h text) ⟨last, t :: ts⟩) :
    Extends ws F F' R (found >>= f) (found >>= h) ⟨last, t :: ts⟩ := by
  have hname : ∀ F : Frame, k ≤ F.fileEnd → ∀ us, name F ⟨last, t :: us⟩ = t.kind.describe := by
    intro F hF us
    unfold name found
    simp only [if_neg (Nat.not_le_of_lt (hbyte.trans_le hF))]
  refine (hf t.kind.describe).congr ?_ ?_
  · rw [found_bind, hname F hF]
  · rw [found_bind]
    exact congrArg (fun text => h text F' ⟨last, t :: (ts ++ ws)⟩) (hname F' hF' _)

theorem extends_reportAt {span : Span} {fault : SyntaxFault} (hc : R c.rest) :
    Extends ws F F' R (reportAt span fault) (reportAt span fault) c := ⟨rfl, hc⟩

theorem extends_report {fault : SyntaxFault} :
    ExtendsIn ws F F' k n (report fault) (report fault) := by
  rintro ⟨last, rest⟩ hc
  rcases rest with - | ⟨t, ts⟩
  · cases hc.1
  · exact ⟨rfl, hc⟩

theorem extends_recoverLine (hline : FlatLine k ts) :
    Extends ws F F' (· = []) (move Cursor.recoverLine) (move Cursor.recoverLine) ⟨last, ts⟩ := by
  rcases Cursor.recoverLine_extend ws hline last with ⟨hnone, hsame⟩
  refine ⟨?_, hnone⟩
  unfold move
  show (⟨(), Cursor.recoverLine ⟨last, ts ++ ws⟩, []⟩ : Parsed Unit) = _
  rw [hsame]

/-- A mark that is no line end is taken on the line, if it comes next. -/
theorem extends_mark {mk : Mark} (hmk : mk ≠ .newline) {f h : Bool → Parser γ}
    (hf : ∀ found, ExtendsIn ws F F' k n (f found) (h found)) :
    ExtendsIn ws F F' k n (mark mk >>= f) (mark mk >>= h) := by
  rintro ⟨last, rest⟩ ⟨hline, hlength⟩
  rcases rest with - | ⟨t, ts⟩
  · cases hline
  · by_cases hkind : t.kind = .mark mk
    · have hnewline : t.kind.isNewline = false := by
        rw [hkind]
        simpa [TokenKind.isNewline] using hmk
      refine (hf true ⟨t.span.stop, ts⟩ ⟨hline.behind hnewline, Nat.le_of_succ_le hlength⟩).congr ?_ ?_
      · exact mark_taken hkind
      · exact mark_taken hkind
    · have hother : some t.kind ≠ some (.mark mk) := fun hsame => hkind (Option.some.inj hsame)
      refine (hf false ⟨last, t :: ts⟩ ⟨hline, hlength⟩).congr ?_ ?_
      · exact (mark_bind mk f).trans (if_neg hother)
      · exact (mark_bind mk h).trans (if_neg hother)

end

/-! ## Expressions -/

section

variable {last : Pos} {t : Token} {ts : List Token}

theorem extends_invalidExpression (ws : List Token) (hF : k ≤ F.fileEnd) (hF' : k ≤ F'.fileEnd) :
    ExtendsIn ws F F' k n invalidExpression invalidExpression := by
  rintro ⟨last, rest⟩ ⟨hline, hlength⟩
  rcases rest with - | ⟨t, ts⟩
  · cases hline
  · refine extends_lookahead (extends_found hF hF' hline.byte_lt fun text => ?_)
    refine (extends_reportAt (R := (· = t :: ts)) rfl).bind fun _ c hc => ?_
    rcases c with ⟨last, rest⟩
    subst hc
    refine extends_peekKind ?_
    dsimp only
    split
    · exact extends_pure _ ⟨hline, hlength⟩
    · next htaken =>
      simp only [Bool.or_eq_true, not_or, Bool.not_eq_true] at htaken
      exact extends_advance (extends_pure _ ⟨hline.behind htaken.1.1, Nat.le_of_succ_le hlength⟩)

/-- A step behind a dot is on the line. -/
theorem extends_dotStep? {R : List Token → Prop} {start : Pos} {f h : Option Step → Parser γ}
    (hts : OnLine k n ts)
    (hsome : ∀ step c, OnLine k n c.rest → Extends ws F F' R (f (some step)) (h (some step)) c)
    (hnone : Extends ws F F' R (f none) (h none) ⟨last, t :: ts⟩) :
    Extends ws F F' R (dotStep? start >>= f) (dotStep? start >>= h) ⟨last, t :: ts⟩ := by
  rcases hts with ⟨hline, hlength⟩
  rcases ts with - | ⟨⟨kind, span⟩, us⟩
  · cases hline
  · cases kind with
    | ident name =>
      have hus : OnLine k n us := ⟨hline.behind rfl, Nat.le_of_succ_le hlength⟩
      exact (hsome (.attr name ⟨start, span.stop⟩) ⟨span.stop, us⟩ hus).congr rfl rfl
    | number text =>
      have hus : OnLine k n us := ⟨hline.behind rfl, Nat.le_of_succ_le hlength⟩
      exact (hsome (.index (.number text span) ⟨start, span.stop⟩) ⟨span.stop, us⟩ hus).congr
        rfl rfl
    | _ => exact hnone.congr rfl rfl

/-- The steps of a traversal stay on their line. -/
theorem extends_steps (hd : n ≤ d) (hd' : n ≤ d') :
    ExtendsIn ws F F' k n (steps d) (steps d') := by
  -- On the tokens left of the line, which bound the steps; the two depths only have to cover them.
  induction n generalizing d d' with
  | zero => exact fun c hc => absurd hc not_onLine_zero
  | succ n ih =>
    rcases Nat.exists_eq_add_of_le' (Nat.le_of_add_left_le hd) with ⟨d, rfl⟩
    rcases Nat.exists_eq_add_of_le' (Nat.le_of_add_left_le hd') with ⟨d', rfl⟩
    rintro ⟨last, rest⟩ hc
    have hnone : Extends ws F F' (OnLine k (n + 1)) (pure ([] : List Step)) (pure [])
        ⟨last, rest⟩ := extends_pure [] hc
    rcases rest with - | ⟨⟨kind, span⟩, ts⟩
    · cases hc.1
    · have hmore : ∀ step : Step, ExtendsIn ws F F' k n (do return step :: (← steps d))
          (do return step :: (← steps d')) := fun step c hc =>
        (ih (Nat.le_of_succ_le_succ hd) (Nat.le_of_succ_le_succ hd') c hc).bind fun rest c hc =>
          extends_pure (step :: rest) hc
      unfold steps
      refine extends_peek ?_
      cases kind with
      | mark mk =>
        cases mk with
        | dot =>
          have hts : OnLine k n ts := hc.behind rfl
          exact extends_dotStep? hts (fun step c hc => (hmore step c hc).imp fun _ => OnLine.succ) hnone
        -- A flat line opens no bracket, so an index cannot stand here.
        | openBracket => cases hc.1.not_opener
        | _ => exact hnone
      | _ => exact hnone

theorem extends_traversal {more more' : Parser (List Step)} {root : String} {rootSpan : Span}
    (hmore : ExtendsIn ws F F' k n more more') (hts : OnLine k n ts) :
    Extends ws F F' (OnLine k n) (traversal more root rootSpan) (traversal more' root rootSpan)
      ⟨last, t :: ts⟩ := by
  refine extends_advance ((hmore _ hts).bind fun steps c hc => ?_)
  refine extends_mark (by decide) (fun found => ?_) c hc
  have hpath : ExtendsIn ws F F' k n
      (spanFrom rootSpan.start >>= fun span => pure (Traversal.mk root rootSpan steps span))
      (spanFrom rootSpan.start >>= fun span => pure (Traversal.mk root rootSpan steps span)) :=
    fun c hc => extends_spanFrom fun span => extends_pure _ hc
  cases found with
  | true => exact fun c hc => (extends_report c hc).bind fun _ c hc => hpath c hc
  | false => exact hpath

/-- An expression stays on its line. -/
theorem extends_value (ws : List Token) (hF : k ≤ F.fileEnd) (hF' : k ≤ F'.fileEnd) (hd : n ≤ d) (hd' : n ≤ d') :
    ExtendsIn ws F F' k n (value d) (value d') := by
  induction n generalizing d d' with
  | zero => exact fun c hc => absurd hc not_onLine_zero
  | succ n ih =>
    rcases Nat.exists_eq_add_of_le' (Nat.le_of_add_left_le hd) with ⟨d, rfl⟩
    rcases Nat.exists_eq_add_of_le' (Nat.le_of_add_left_le hd') with ⟨d', rfl⟩
    have hlow : n ≤ d := Nat.le_of_succ_le_succ hd
    have hlow' : n ≤ d' := Nat.le_of_succ_le_succ hd'
    rintro ⟨last, rest⟩ hc
    have hinvalid := extends_invalidExpression ws hF hF' ⟨last, rest⟩ hc
    rcases rest with - | ⟨⟨kind, span⟩, ts⟩
    · cases hc.1
    · have hleaf : ∀ e : Expr, kind.isNewline = false → Extends ws F F' (OnLine k (n + 1))
          (advance >>= fun _ => pure e) (advance >>= fun _ => pure e) ⟨last, ⟨kind, span⟩ :: ts⟩ :=
        fun e hkind => extends_advance (extends_pure e (hc.behind hkind).succ)
      unfold value
      refine extends_peek ?_
      cases kind with
      | number text => exact hleaf (.number text span) rfl
      | str text => exact hleaf (.string text span) rfl
      | heredoc text => exact hleaf (.string text span) rfl
      | stray c => exact hinvalid
      | ident name =>
        dsimp only
        cases literalName? name span with
        | some e => exact hleaf e rfl
        | none =>
          have hpath := (@extends_traversal _ _ ws F F' last ⟨.ident name, span⟩ ts _ _ name span
            (extends_steps hlow hlow') (hc.behind rfl)).bind fun path c hc =>
              extends_pure (R := OnLine k (n + 1)) (Expr.traversal path) hc.succ
          rcases ts with - | ⟨u, us⟩
          · cases (hc.behind rfl).1
          · -- No call starts here, as no group is opened on the line.
            have hopen : ¬some u.kind = some (.mark .openParen) := by
              intro hsome
              have hflat := (hc.behind rfl).1.not_opener
              rw [Option.some.inj hsome] at hflat
              cases hflat
            refine extends_peekSecond ?_
            rw [if_neg hopen, if_neg hopen]
            exact hpath
      | mark mk =>
        cases mk with
        | minus =>
          refine extends_advance ((ih hlow hlow' _ (hc.behind rfl)).bind fun e c hc => ?_)
          exact extends_spanFrom fun span => extends_pure _ hc.succ
        | openBracket => cases hc.1.not_opener
        | openBrace => cases hc.1.not_opener
        | openParen => cases hc.1.not_opener
        | _ => exact hinvalid

theorem extends_expression (hF : k ≤ F.fileEnd) (hF' : k ≤ F'.fileEnd) :
    ExtendsIn ws F F' k n expression expression := by
  rintro c ⟨hline, hlength⟩
  have hlow : c.rest.length ≤ 2 * c.rest.length + 2 := by omega
  have hlow' : c.rest.length ≤ 2 * (c.extend ws).rest.length + 2 := by
    simp only [Cursor.extend, List.length_append]
    omega
  have hread := extends_value ws hF hF' hlow hlow' c ⟨hline, Nat.le_refl _⟩
  exact (hread.imp fun ts h => ⟨h.1, h.2.trans hlength⟩).congr rfl rfl

/-! ## Items -/

theorem extends_endOfItem (hc : OnLine k n ts) :
    Extends ws F F' (· = []) endOfItem endOfItem ⟨last, ts⟩ := by
  rcases ts with - | ⟨⟨kind, span⟩, ts⟩
  · cases hc.1
  · have hreport : Extends ws F F' (· = [])
        (report .missingNewline >>= fun _ => move Cursor.recoverLine)
        (report .missingNewline >>= fun _ => move Cursor.recoverLine) ⟨last, ⟨kind, span⟩ :: ts⟩ :=
      (extends_report _ hc).bind fun _ c hc => extends_recoverLine hc.1
    refine extends_peekKind ?_
    cases kind with
    | mark mk =>
      cases mk with
      | newline =>
        have hnil := hc.1.eq_nil rfl
        subst hnil
        exact ⟨rfl, rfl⟩
      | closeBrace => cases hc.1.not_closer
      | _ => exact hreport
    | _ => exact hreport

theorem labelsFrom_extend (ws : List Token) (hline : FlatLine k ts) (last : Pos) :
    labelsFrom last (ts ++ ws) = ⟨(labelsFrom last ts).value, (labelsFrom last ts).next.extend ws,
        (labelsFrom last ts).faults⟩ ∧
      OnLine k ts.length (labelsFrom last ts).next.rest := by
  induction hline generalizing last with
  | @ending t ht hbyte =>
    rcases t with ⟨kind, span⟩
    cases ht
    exact ⟨rfl, .ending rfl hbyte, Nat.le_refl _⟩
  | @cons t ts ht hbyte hts ih =>
    rcases t with ⟨kind, span⟩
    rcases ih span.stop with ⟨hsame, hleft⟩
    -- A quoted and a bare label are read alike.
    have hlabel : ∀ text, OnLine k (ts.length + 1) (labelsFrom span.stop ts).next.rest ∧
        (⟨⟨text, span⟩ :: (labelsFrom span.stop (ts ++ ws)).value,
            (labelsFrom span.stop (ts ++ ws)).next, []⟩ : Parsed (List Label)) =
          ⟨⟨text, span⟩ :: (labelsFrom span.stop ts).value,
            (labelsFrom span.stop ts).next.extend ws, []⟩ := by
      intro text
      rw [hsame]
      exact ⟨hleft.succ, rfl⟩
    cases kind with
    | str text => exact ⟨(hlabel text).2, (hlabel text).1⟩
    | ident text => exact ⟨(hlabel text).2, (hlabel text).1⟩
    | _ => exact ⟨rfl, .cons ht hbyte hts, Nat.le_refl _⟩

theorem extends_labels : ExtendsIn ws F F' k n labels labels := by
  rintro ⟨last, ts⟩ ⟨hline, hlength⟩
  rcases labelsFrom_extend ws hline last with ⟨hsame, hleft⟩
  exact ⟨hsame, hleft.1, hleft.2.trans hlength⟩

theorem extends_skipItem (fault : SyntaxFault) (hc : OnLine k n ts) :
    Extends ws F F' (· = []) (skipItem fault) (skipItem fault) ⟨last, ts⟩ :=
  (extends_report _ hc).bind fun _ _ hc => (extends_recoverLine hc.1).bind fun _ _ hc =>
    extends_pure none hc

theorem extends_attributeBody {name : String} {span : Span} {u : Token} (hF : k ≤ F.fileEnd)
    (hF' : k ≤ F'.fileEnd) (hc : OnLine k (n + 1) (u :: ts)) (hu : u.kind.isNewline = false) :
    Extends ws F F' (· = []) (attributeBody name span) (attributeBody name span)
      ⟨last, u :: ts⟩ := by
  refine extends_advance ((extends_expression hF hF' _ (hc.behind hu)).bind fun e c hc => ?_)
  exact (extends_endOfItem hc).bind fun _ c hc => extends_pure (Item.attr ⟨name, span, e⟩) hc

/-- An item takes its line, whatever readers there are for the items of blocks. -/
theorem extends_itemOf {items items' : Parser (List Item)} (hF : k ≤ F.fileEnd)
    (hF' : k ≤ F'.fileEnd) (hline : FlatLine k ts) :
    Extends ws F F' (· = []) (itemOf items) (itemOf items') ⟨last, ts⟩ := by
  rcases ts with - | ⟨⟨kind, span⟩, ts⟩
  · cases hline
  · have hc : OnLine k (ts.length + 1) (⟨kind, span⟩ :: ts) := ⟨hline, Nat.le_refl _⟩
    unfold itemOf
    refine extends_peek ?_
    cases kind with
    | ident name =>
      rcases ts with - | ⟨u, us⟩
      · cases hline.behind rfl
      · refine extends_advance (extends_atMark ?_)
        cases hequals : u.kind == .mark .equals with
        | true =>
          have hu : u.kind.isNewline = false := by
            rw [beq_iff_eq.1 hequals]
            rfl
          exact (extends_attributeBody hF hF' (hc.behind rfl) hu).bind fun item c hc =>
            extends_pure (some item) hc
        | false =>
          refine (extends_labels _ (hc.behind rfl)).bind fun labels c hc => ?_
          rcases c with ⟨last, - | ⟨v, vs⟩⟩
          · cases hc.1
          · -- Without a brace on the line no block can open, and the rest of it is skipped.
            have hopen : (v.kind == .mark .openBrace) = false := by
              refine beq_eq_false_iff_ne.2 fun hbrace => ?_
              have hflat := hc.1.not_opener
              rw [hbrace] at hflat
              cases hflat
            refine extends_atMark ?_
            rw [hopen]
            cases labels.isEmpty with
            | true => exact extends_skipItem .invalidDefinition hc
            | false => exact extends_skipItem .invalidBlock hc
    | _ => exact extends_skipItem .definitionRequired hc

/-- The item of a line is read alike in every text. -/
theorem exists_item (hline : FlatLine k ts) (last : Pos) :
    ∃ item stop fs, ∀ F : Frame, k ≤ F.fileEnd → ∀ items ws,
      itemOf items F ⟨last, ts ++ ws⟩ = ⟨item, ⟨stop, ws⟩, fs⟩ := by
  -- What is read of the line alone, in a frame that ends behind it, is read everywhere.
  have hread : ∀ F : Frame, k ≤ F.fileEnd → ∀ items ws,
      Extends ws ⟨.point .start, k⟩ F (· = []) (itemOf (pure [])) (itemOf items) ⟨last, ts⟩ :=
    fun F hF items ws => extends_itemOf (Nat.le_refl k) hF hline
  refine ⟨(itemOf (pure []) ⟨.point .start, k⟩ ⟨last, ts⟩).value,
    (itemOf (pure []) ⟨.point .start, k⟩ ⟨last, ts⟩).next.last,
    (itemOf (pure []) ⟨.point .start, k⟩ ⟨last, ts⟩).faults, fun F hF items ws => ?_⟩
  have hrun := (hread F hF items ws).run
  rw [Cursor.extend, Cursor.extend, (hread F hF items ws).left, List.nil_append] at hrun
  exact hrun

end

end Parser

end Overlay.Hcl
