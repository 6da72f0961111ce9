import Overlay.Proofs.Hcl.Lexeme
import Overlay.Proofs.Text.Position

/-!
# Tokens and their places

* What a lexeme stands for does not depend on its place: a change of places that goes along with
  walking changes the spans of its tokens and faults and nothing else (`ofLexemes_map`).
* Every span is that of a stretch of the text (`ofLexemes_isStretch`), and tokens stand one behind
  the other (`ofLexemes_inOrder`).
* Every token of a text is the one of a lexeme at the front of some text (`exists_next`), and its kind
  says what that lexeme is (`tells_of_mem`).
-/

namespace Overlay.Hcl

/-! ## Changing places -/

/-- The item with its span changed by `f`. -/
def Located.mapSpan (f : Span → Span) (x : Located α) : Located α := ⟨x.item, f x.span⟩

/-- The token with its span changed by `f`. -/
def Token.mapSpan (f : Span → Span) (t : Token) : Token := ⟨t.kind, f t.span⟩

/-- The tokens and faults with their spans changed by `f`. -/
def Tokens.mapSpans (f : Span → Span) (ts : Tokens) : Tokens :=
  ⟨ts.tokens.map (Token.mapSpan f), ts.faults.map (Located.mapSpan f)⟩

variable {g : Pos → Pos} {p : Pos}

theorem Template.decodeFrom_map (hg : Pos.SteadyFrom g p) (escapes : Bool) (n : Nat)
    (cs : List Char) :
    decodeFrom escapes (g p) n cs =
      ⟨(decodeFrom escapes p n cs).text,
        (decodeFrom escapes p n cs).faults.map (Located.mapSpan (Span.map g))⟩ := by
  induction cs generalizing p n with
  | nil => cases n <;> rfl
  | cons c cs ih =>
    have hrest := ih (hg.behind [c])
    cases n with
    | zero =>
      simp only [decodeFrom, Pos.advanceAll_cons, Pos.advanceAll_nil, hg.advance] at hrest ⊢
      have hpiece := hg (c :: cs.take (piece escapes c cs).further)
      rw [Pos.advanceAll_cons, Pos.advanceAll_cons] at hpiece
      simp only [hrest, ← hpiece, List.map_append]
      cases (piece escapes c cs).fault <;> rfl
    | succ n =>
      simp only [decodeFrom, Pos.advanceAll_cons, Pos.advanceAll_nil, hg.advance] at hrest ⊢
      exact hrest n

theorem Template.decode_map (hg : Pos.SteadyFrom g p) (escapes : Bool) (cs : List Char) :
    decode escapes (g p) cs =
      ⟨(decode escapes p cs).text,
        (decode escapes p cs).faults.map (Located.mapSpan (Span.map g))⟩ :=
  decodeFrom_map hg escapes 0 cs

theorem Template.decodeLines_map (hg : Pos.SteadyFrom g p) (lines : List (List Char)) :
    decodeLines (g p) lines =
      ((decodeLines p lines).1,
        (decodeLines p lines).2.map (Located.mapSpan (Span.map g))) := by
  induction lines generalizing p with
  | nil => rfl
  | cons line lines ih =>
    simp only [decodeLines, decode_map hg, ← hg _, ih (hg.behind _), List.map_append]

namespace Tokens

theorem mapSpans_append (f : Span → Span) (a b : Tokens) :
    (a.append b).mapSpans f = (a.mapSpans f).append (b.mapSpans f) := by
  simp only [mapSpans, append, List.map_append]

theorem ofLexeme_map (hg : Pos.SteadyFrom g p) (x : Lexeme) :
    ofLexeme (g p) x = (ofLexeme p x).mapSpans (Span.map g) := by
  rcases x with ⟨shape, text⟩
  have htext := hg text
  cases shape with
  | quoted closed =>
    have hinner := hg.behind ['"']
    rw [Pos.advanceAll_cons, Pos.advanceAll_nil] at hinner
    cases closed <;>
      simp [ofLexeme, mapSpans, ← htext, ← hg.advance, Template.decode_map hinner, Token.mapSpan,
        Located.mapSpan, Span.map]
  | heredoc doc =>
    rcases doc with ⟨indented, marker, lines, closed⟩
    cases closed <;>
      simp [ofLexeme, mapSpans, ← htext, ← hg _, Template.decodeLines_map (hg.behind _),
        Token.mapSpan, Located.mapSpan, Span.map]
  | blockComment closed =>
    cases closed <;> simp [ofLexeme, mapSpans, ← htext, Located.mapSpan, Span.map]
  | stray =>
    cases text <;> simp [ofLexeme, mapSpans, ← htext, Token.mapSpan, Located.mapSpan, Span.map]
  | _ => simp [ofLexeme, mapSpans, ← htext, Token.mapSpan, Located.mapSpan, Span.map]

/-- What lexemes stand for does not depend on their place. -/
theorem ofLexemes_map (hg : Pos.SteadyFrom g p) (xs : List Lexeme) :
    ofLexemes (g p) xs = (ofLexemes p xs).mapSpans (Span.map g) := by
  induction xs generalizing p with
  | nil => rfl
  | cons x xs ih =>
    rw [ofLexemes, ofLexemes, mapSpans_append, ofLexeme_map hg, ← hg, ih (hg.behind _)]

end Tokens

/-! ## Stretches -/

theorem Template.decodeFrom_isStretch (escapes : Bool) (p : Pos) (n : Nat) (cs : List Char) :
    ∀ f ∈ (decodeFrom escapes p n cs).faults, f.span.IsStretch p cs := by
  induction cs generalizing p n with
  | nil =>
    cases n <;> exact fun _ h => absurd h List.not_mem_nil
  | cons c cs ih =>
    have hrest : ∀ m, ∀ f ∈ (decodeFrom escapes (p.advance c) m cs).faults,
        f.span.IsStretch p (c :: cs) :=
      fun m f hf => (ih (p.advance c) m f hf).append_left [c]
    cases n with
    | succ n => exact hrest n
    | zero =>
      intro f hf
      rcases List.mem_append.1 hf with hfirst | hf
      · rcases Option.map_eq_some_iff.1 (Option.mem_toList.1 hfirst) with ⟨fault, -, rfl⟩
        exact ⟨[], c :: cs.take (piece escapes c cs).further,
          cs.drop (piece escapes c cs).further, by simp, rfl⟩
      · exact hrest _ f hf

theorem Template.decodeLines_isStretch {lines : List (List Char)} {body : List Char}
    (h : Lexeme.Covers lines body) (p : Pos) :
    ∀ f ∈ (decodeLines p lines).2, f.span.IsStretch p body := by
  induction h generalizing p with
  | nil body => exact fun _ h => absurd h List.not_mem_nil
  | last line =>
    intro f hf
    have hline : f ∈ (decode false p line).faults := by simpa [decodeLines] using hf
    exact decodeFrom_isStretch false p 0 line f hline
  | cons line _ ih =>
    intro f hf
    rcases List.mem_append.1 hf with hline | hlines
    · exact (decodeFrom_isStretch false p 0 line f hline).append_right _
    · rw [← List.singleton_append, ← List.append_assoc]
      exact (ih _ f hlines).append_left _

namespace Tokens

/-- Every span of the tokens and faults passes `P`. -/
def All (P : Span → Prop) (ts : Tokens) : Prop :=
  (∀ t ∈ ts.tokens, P t.span) ∧ ∀ f ∈ ts.faults, P f.span

theorem All.append {P : Span → Prop} {a b : Tokens} (ha : a.All P) (hb : b.All P) :
    (a.append b).All P :=
  ⟨List.forall_mem_append.2 ⟨ha.1, hb.1⟩, List.forall_mem_append.2 ⟨ha.2, hb.2⟩⟩

theorem All.imp {P Q : Span → Prop} {a : Tokens} (h : ∀ s, P s → Q s) (ha : a.All P) : a.All Q :=
  ⟨fun t ht => h _ (ha.1 t ht), fun f hf => h _ (ha.2 f hf)⟩

theorem ofLexeme_isStretch {x : Lexeme} (hx : x.Sound) (p : Pos) :
    (ofLexeme p x).All (Span.IsStretch p x.text) := by
  have hself := Span.isStretch_self p x.text
  rcases x with ⟨shape, text⟩
  cases shape with
  | quoted closed =>
    rcases hx.quoted closed rfl with ⟨rest, rfl⟩
    -- The inside starts behind the first quote, with and without a last one.
    have hinner : ∀ inner, inner <+: rest →
        ∀ f ∈ (Template.decode true (p.advance '"') inner).faults,
          f.span.IsStretch p ('"' :: rest) := by
      rintro inner ⟨more, rfl⟩ f hf
      have hstretch := Template.decodeFrom_isStretch true _ 0 inner f hf
      exact (hstretch.append_right more).append_left ['"']
    cases closed with
    | true =>
      have hfaults := hinner _ (List.dropLast_prefix rest)
      exact ⟨by simpa [ofLexeme] using hself, by simpa [ofLexeme] using hfaults⟩
    | false =>
      have hfaults := hinner rest List.prefix_rfl
      refine ⟨by simpa [ofLexeme] using hself, List.forall_mem_append.2 ⟨hfaults, ?_⟩⟩
      simpa using hself
  | heredoc doc =>
    rcases hx.heredoc doc rfl with ⟨front, body, hfront, rfl, hcovers⟩
    -- The lines lie in the body, behind the introducer and the end of its line.
    have hlines : ∀ f ∈ (Template.decodeLines (p.advanceAll (front ++ ['\n'])) doc.lines).2,
        f.span.IsStretch p (front ++ '\n' :: body) := by
      intro f hf
      have hbody := Template.decodeLines_isStretch hcovers _ f hf
      have hall := hbody.append_left (front ++ ['\n'])
      rwa [List.append_assoc] at hall
    have hintro : (front ++ '\n' :: body).takeWhile (· ≠ '\n') = front := by
      have hall : ∀ c ∈ front, decide (c ≠ '\n') = true := by
        intro c hc
        exact decide_eq_true fun h => hfront (h ▸ hc)
      rw [List.takeWhile_append_of_pos hall]
      simp
    refine ⟨by simpa [ofLexeme] using hself, ?_⟩
    simp only [ofLexeme, hintro]
    refine List.forall_mem_append.2 ⟨hlines, ?_⟩
    cases doc.closed with
    | true => simp
    | false => simpa using hself
  | blockComment closed =>
    cases closed <;> simp [ofLexeme, All, hself]
  | stray =>
    cases text <;> simp_all [ofLexeme, All]
  | _ => simp [ofLexeme, All, hself]

/-- Every span is that of a stretch of the text. -/
theorem ofLexemes_isStretch {xs : List Lexeme} (hxs : ∀ x ∈ xs, x.Sound) (p : Pos) :
    (ofLexemes p xs).All (Span.IsStretch p (xs.flatMap Lexeme.text)) := by
  induction xs generalizing p with
  | nil => exact ⟨fun _ h => absurd h List.not_mem_nil, fun _ h => absurd h List.not_mem_nil⟩
  | cons x xs ih =>
    rcases List.forall_mem_cons.1 hxs with ⟨hx, hxs⟩
    rw [List.flatMap_cons]
    exact ((ofLexeme_isStretch hx p).imp fun _ h => h.append_right _).append
      ((ih hxs _).imp fun _ h => h.append_left _)

/-! ## Order -/

/-- The tokens stand one behind the other, the first one at `p` or behind it, and none is empty. -/
def InOrder (p : Pos) : List Token → Prop
  | [] => True
  | t :: ts => p ≤ t.span.start ∧ t.span.start ≤ t.span.stop ∧
      t.span.start.byte < t.span.stop.byte ∧ InOrder t.span.stop ts

theorem InOrder.of_le {p q : Pos} {ts : List Token} (h : InOrder q ts) (hle : p ≤ q) :
    InOrder p ts := by
  cases ts with
  | nil => trivial
  | cons t ts => exact ⟨Pos.le_trans hle h.1, h.2⟩

theorem InOrder.left {p : Pos} {xs ys : List Token} (h : InOrder p (xs ++ ys)) : InOrder p xs := by
  induction xs generalizing p with
  | nil => trivial
  | cons x xs ih => exact ⟨h.1, h.2.1, h.2.2.1, ih h.2.2.2⟩

/-- Each of the tokens ends in front of those behind it. -/
theorem InOrder.pairwise {p : Pos} {ts : List Token} (h : InOrder p ts) :
    (∀ t ∈ ts, p ≤ t.span.start) ∧ ts.Pairwise fun t u => t.span.stop ≤ u.span.start := by
  induction ts generalizing p with
  | nil => exact ⟨fun _ h => absurd h List.not_mem_nil, .nil⟩
  | cons t ts ih =>
    rcases h with ⟨hstart, hspan, -, hrest⟩
    rcases ih hrest with ⟨hbehind, hpairwise⟩
    refine ⟨List.forall_mem_cons.2 ⟨hstart, fun u hu => ?_⟩, .cons hbehind hpairwise⟩
    exact Pos.le_trans hstart (Pos.le_trans hspan (hbehind u hu))

theorem InOrder.byte_lt {p : Pos} {ts : List Token} (h : InOrder p ts) :
    ∀ t ∈ ts, t.span.start.byte < t.span.stop.byte := by
  induction ts generalizing p with
  | nil => exact fun _ ht => absurd ht List.not_mem_nil
  | cons t ts ih => exact List.forall_mem_cons.2 ⟨h.2.2.1, ih h.2.2.2⟩

theorem ofLexeme_tokens (p : Pos) (x : Lexeme) : (ofLexeme p x).tokens = [] ∨
    ∃ kind, (ofLexeme p x).tokens = [⟨kind, p, p.advanceAll x.text⟩] := by
  rcases x with ⟨shape, text⟩
  cases shape with
  | stray =>
    cases text with
    | nil => exact .inl rfl
    | cons c cs => exact .inr ⟨_, rfl⟩
  | blank => exact .inl rfl
  | lineComment => exact .inl rfl
  | blockComment => exact .inl rfl
  | _ => exact .inr ⟨_, rfl⟩

theorem ofLexemes_inOrder {xs : List Lexeme} (hxs : ∀ x ∈ xs, x.Sound) (p : Pos) :
    InOrder p (ofLexemes p xs).tokens := by
  induction xs generalizing p with
  | nil => trivial
  | cons x xs ih =>
    rcases List.forall_mem_cons.1 hxs with ⟨hx, hxs⟩
    have hle := Pos.le_advanceAll p x.text
    have hrest := ih hxs (p.advanceAll x.text)
    rw [ofLexemes, append]
    rcases ofLexeme_tokens p x with hnone | ⟨kind, hone⟩
    · rw [hnone]
      exact hrest.of_le hle
    · -- A lexeme has a character, and a character has a byte.
      have hbyte : p.byte < (p.advanceAll x.text).byte := by
        rcases List.exists_cons_of_ne_nil hx.text_ne_nil with ⟨c, cs, htext⟩
        have hpos := c.utf8Size_pos
        rw [Pos.advanceAll_byte, htext, Text.byteLength_cons]
        omega
      rw [hone]
      exact ⟨Pos.le_refl p, hle, hbyte, hrest⟩

/-! ## Whole texts -/

/-- Every span of the tokens and faults of a text is that of a stretch of it. -/
theorem ofText_isStretch (text : String) :
    (ofText text).All (Span.IsStretch .start text.toList) := by
  have hall := ofLexemes_isStretch (Lexeme.split_sound text.toList) .start
  rwa [Lexeme.flatMap_text_split] at hall

/-- The tokens of a text stand one behind the other. -/
theorem ofText_inOrder (text : String) : InOrder .start (ofText text).tokens :=
  ofLexemes_inOrder (Lexeme.split_sound text.toList) .start

end Tokens

/-! ## Tokens and their lexemes -/

/-- What a token of this kind says about its lexeme: a name and a number have its text. -/
def TokenKind.Tells (x : Lexeme) : TokenKind → Prop
  | .ident name => x.shape = .word ∧ name = String.ofList x.text
  | .number text => x.shape = .number ∧ text = String.ofList x.text
  | .mark m => x.shape = .mark m
  | .str _ | .heredoc _ | .stray _ => True

theorem Tokens.tells_of_mem {p : Pos} {x : Lexeme} {t : Token}
    (ht : t ∈ (ofLexeme p x).tokens) : t.kind.Tells x := by
  rcases x with ⟨shape, text⟩
  cases shape with
  | blank | lineComment | blockComment => cases ht
  | word | number =>
    rcases List.mem_singleton.1 ht with rfl
    exact ⟨rfl, rfl⟩
  | mark =>
    rcases List.mem_singleton.1 ht with rfl
    rfl
  | quoted | heredoc | brokenHeredoc =>
    rcases List.mem_singleton.1 ht with rfl
    trivial
  | stray =>
    cases text with
    | nil => cases ht
    | cons c cs =>
      rcases List.mem_singleton.1 ht with rfl
      trivial

/-- Every token is the one of a lexeme at the front of a text. -/
theorem Tokens.exists_next {p : Pos} {cs : List Char} {t : Token}
    (ht : t ∈ (ofLexemes p (Lexeme.split cs)).tokens) :
    ∃ q c ds, t ∈ (ofLexeme q (Lexeme.next c ds)).tokens := by
  induction cs using Lexeme.split_induction generalizing p with
  | nil => cases ht
  | cons c cs ih =>
    rw [Lexeme.split_cons] at ht
    rcases List.mem_append.1 ht with hfirst | hrest
    · exact ⟨p, c, cs, hfirst⟩
    · exact ih hrest

end Overlay.Hcl
