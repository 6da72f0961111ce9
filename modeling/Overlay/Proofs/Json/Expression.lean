import Overlay.Proofs.Hcl.Recognition
import Overlay.Proofs.Json.Carried
import Overlay.Proofs.Numeric.Layout
import Overlay.Proofs.Source.Plain
import Overlay.Value.OfJson

/-!
# JSON documents read as expressions

A JSON document without blanks is an expression of the configuration language.

* `Cuts` says which lexemes a text is cut into, whatever stands behind it.
* `Conveys` says of lexemes that their tokens derive a tree wherever they stand, and what the tree
  means. Each form of a document puts the lexemes of its parts together.
* `render_conveyed`: the text of a document derives an expression that carries the document's value,
  unless a string in it does not survive and is reported.
-/

namespace Overlay

open Hcl (Lexeme Mark Token Tokens Expr Entry Apart IsExpr IsItems IsEntry IsEntries evaluateItems)
open Numeric (Binary64 Layout Number Numeral)

/-! ## Cutting -/

namespace Hcl

/-- Whether the text is cut into the lexemes, wherever nothing behind it goes on with the last. -/
def Cuts (text : List Char) (xs : List Lexeme) : Prop :=
  ∀ rest, Apart rest → Lexeme.split (text ++ rest) = xs ++ Lexeme.split rest

section

variable {text more : List Char} {xs ys : List Lexeme} {c : Char} {m : Mark}

theorem cuts_nil : Cuts [] [] := fun _ _ => rfl

theorem cuts_word (hc : Lexeme.startsWord c = true)
    (hmore : ∀ d ∈ more, Lexeme.continuesWord d = true) :
    Cuts (c :: more) [⟨.word, c :: more⟩] := by
  intro rest hrest
  apply Lexeme.split_of_tail
  rw [Lexeme.tail_word hc, takeWhile_append_apart hmore fun d ds heq => (hrest d ds heq).1]

theorem cuts_numeral {n : Numeral} (hn : n.Sound) : Cuts n.text [⟨.number, n.text⟩] := by
  rcases hn.text_eq_cons with ⟨c, more, htext, hc⟩
  intro rest hrest
  rw [htext]
  apply Lexeme.split_of_tail
  rw [Lexeme.tail_number hc, Lexeme.numberTail_numeral hn htext hrest]

theorem cuts_isWord {name : String} (h : Value.IsWord name) :
    Cuts name.toList [⟨.word, name.toList⟩] := by
  rcases h with ⟨c, cs, htext, hc, hcs⟩
  rw [htext]
  exact cuts_word hc hcs

/-- A mark in front of a text. -/
theorem cuts_mark (hmark : Mark.ofChar? c = some m) (h : Cuts text xs) :
    Cuts (c :: text) (⟨.mark m, [c]⟩ :: xs) := by
  intro rest hrest
  have hsplit := @Lexeme.split_of_tail c [] (text ++ rest) _ (Lexeme.tail_mark hmark _)
  rw [List.nil_append] at hsplit
  rw [List.cons_append, hsplit, h rest hrest]
  rfl

/-- Whether the mark ends a word or number in front of it. -/
def Separates (c : Char) (m : Mark) : Prop :=
  Mark.ofChar? c = some m ∧ Lexeme.continuesWord c = false ∧ c ≠ '.'

/-- A mark between two texts. -/
theorem Cuts.mark (h : Cuts text xs) (hc : Separates c m) (hmore : Cuts more ys) :
    Cuts (text ++ c :: more) (xs ++ ⟨.mark m, [c]⟩ :: ys) := by
  intro rest hrest
  have hbehind := cuts_mark hc.1 hmore rest hrest
  have hfront := h (c :: more ++ rest) (apart_cons hc.2.1 hc.2.2 _)
  rw [List.append_assoc, hfront, hbehind, List.append_assoc]

theorem separates_comma : Separates ',' .comma := ⟨rfl, by decide +kernel, by decide⟩

theorem separates_colon : Separates ':' .colon := ⟨rfl, by decide +kernel, by decide⟩

theorem separates_closeBracket : Separates ']' .closeBracket := ⟨rfl, by decide +kernel, by decide⟩

theorem separates_closeBrace : Separates '}' .closeBrace := ⟨rfl, by decide +kernel, by decide⟩

end

/-- The tokens around a mark. -/
theorem Tokens.ofLexemes_mark (p : Pos) (xs ys : List Lexeme) (m : Mark) (c : Char) :
    ∃ t q, t.kind = .mark m ∧ ofLexemes p (xs ++ ⟨.mark m, [c]⟩ :: ys) =
      ⟨(ofLexemes p xs).tokens ++ t :: (ofLexemes q ys).tokens,
        (ofLexemes p xs).faults ++ (ofLexemes q ys).faults⟩ := by
  rw [ofLexemes_append]
  exact ⟨⟨.mark m, _⟩, _, rfl, rfl⟩

end Hcl

namespace Json

/-! ## What lexemes convey -/

/-- Whether the lexemes have no faults if something survives, and whether without faults their
tokens derive a tree that means what is said, wherever they stand. -/
structure Conveys {α : Type} (IsTree : List Token → α → Prop) (Means : α → Prop) (survives : Prop)
    (xs : List Lexeme) : Prop where
  clean : survives → ∀ p, (Tokens.ofLexemes p xs).faults = []
  derives : ∀ p, (Tokens.ofLexemes p xs).faults = [] →
    ∃ a, IsTree (Tokens.ofLexemes p xs).tokens a ∧ Means a

open Value.textSize (itemsSize entriesSize)

/-- Lexemes of an expression. -/
abbrev ConveysValue (survives : Prop) (v : Value) : List Lexeme → Prop :=
  Conveys IsExpr (fun e => Carries survives Value.textSize e.evaluate v) survives

/-- Lexemes of items with commas between them. -/
abbrev ConveysItems (survives : Prop) (vs : List Value) : List Lexeme → Prop :=
  Conveys IsItems (fun es => Carries survives itemsSize (evaluateItems es) vs) survives

/-- Lexemes of a key. -/
abbrev ConveysKey (key : String) : List Lexeme → Prop :=
  Conveys Hcl.IsKey
    (fun k => ∃ text, k.evaluate = .pure (some text) ∧
      Kept (TextSurvives key.toList) String.length text key)
    (TextSurvives key.toList)

/-- Lexemes of an entry. -/
abbrev ConveysEntry (survives : Prop) (key : String) (v : Value) : List Lexeme → Prop :=
  Conveys IsEntry (fun e => CarriesEntry survives e key v) survives

/-- Lexemes of entries with commas between them. -/
abbrev ConveysEntries (survives : Prop) (entries : List (String × Value)) : List Lexeme → Prop :=
  Conveys IsEntries (fun es => CarriesEntries survives es entries) survives

section

variable {A B : Prop} {v : Value} {vs : List Value} {key : String}
  {entries : List (String × Value)} {xs ys : List Lexeme}

/-! ### Words and numbers -/

/-- A lexeme without faults that is an expression. -/
theorem conveys_lexeme {x : Lexeme}
    (hx : ∀ p, ∃ t e, Tokens.ofLexeme p x = ⟨[t], []⟩ ∧ IsExpr [t] e ∧ e.evaluate = .pure v) :
    ConveysValue True v [x] := by
  have hsingle : ∀ p, ∃ t e, Tokens.ofLexemes p [x] = ⟨[t], []⟩ ∧ IsExpr [t] e ∧
      e.evaluate = .pure v := by
    intro p
    rcases hx p with ⟨t, e, htokens, he⟩
    refine ⟨t, e, ?_, he⟩
    rw [Tokens.ofLexemes, htokens]
    rfl
  constructor
  · intro _ p
    rcases hsingle p with ⟨t, e, htokens, -⟩
    rw [htokens]
  · intro p _
    rcases hsingle p with ⟨t, e, htokens, he, hvalue⟩
    rw [htokens]
    refine ⟨e, he, ?_⟩
    rw [hvalue]
    exact carries_pure _ v

theorem conveys_null : ConveysValue True .null [⟨.word, "null".toList⟩] :=
  conveys_lexeme fun _ => ⟨_, _, rfl, .nullLit rfl, rfl⟩

theorem conveys_bool (b : Bool) :
    ConveysValue True (.bool b) [⟨.word, (if b then "true" else "false").toList⟩] := by
  cases b with
  | true => exact conveys_lexeme fun _ => ⟨_, _, rfl, .trueLit rfl, rfl⟩
  | false => exact conveys_lexeme fun _ => ⟨_, _, rfl, .falseLit rfl, rfl⟩

theorem conveys_number {text : List Char} {x : Number}
    (h : Number.parse? (String.ofList text) = some x) :
    ConveysValue True (.number x) [⟨.number, text⟩] := by
  refine conveys_lexeme fun p => ⟨_, _, rfl, .number rfl, ?_⟩
  unfold Expr.evaluate
  rw [h]

/-- A minus sign in front of an expression that cannot fail. -/
theorem conveys_minus {w : Value} (h : ConveysValue True v xs)
    (hw : ∀ span, Expr.negated (.pure v) span = .pure w) :
    ConveysValue True w (⟨.mark .minus, ['-']⟩ :: xs) := by
  constructor
  · intro _ p
    rcases Tokens.ofLexemes_mark p [] xs .minus '-' with ⟨t, q, -, hall⟩
    rw [List.nil_append] at hall
    rw [hall, h.clean trivial q]
    rfl
  · intro p _
    rcases Tokens.ofLexemes_mark p [] xs .minus '-' with ⟨t, q, ht, hall⟩
    rw [List.nil_append] at hall
    rcases h.derives q (h.clean trivial q) with ⟨e, he, hvalue⟩
    rw [hall]
    refine ⟨_, .negate ht he, ?_⟩
    unfold Expr.evaluate
    rw [hvalue.eq_pure trivial, hw]
    exact carries_pure _ w

/-! ### Strings -/

/-- The lexeme of a JSON string. -/
def stringLexeme (s : String) : Lexeme :=
  ⟨.quoted true, '"' :: (s.toList.flatMap encodeChar ++ ['"'])⟩

theorem cuts_quote (s : String) : Hcl.Cuts (quote s).toList [stringLexeme s] := by
  intro rest _
  have htail : Lexeme.tail '"' ((s.toList.flatMap encodeChar ++ ['"']) ++ rest) =
      (.quoted true, s.toList.flatMap encodeChar ++ ['"']) := by
    rw [List.append_assoc]
    show (Hcl.Shape.quoted (Lexeme.quotedTail _).2, (Lexeme.quotedTail _).1) = _
    rw [List.singleton_append, quotedTail_encode]
  have hquote : (quote s).toList = '"' :: (s.toList.flatMap encodeChar ++ ['"']) :=
    String.toList_ofList
  rw [hquote]
  exact Lexeme.split_of_tail htail

/-- The token of a JSON string, and what is left of the string in it. -/
theorem string_token (s : String) (p : Pos) :
    ∃ t text, (Tokens.ofLexemes p [stringLexeme s]).tokens = [t] ∧ t.kind = .str text ∧
      (¬TextSurvives s.toList ∧ (Tokens.ofLexemes p [stringLexeme s]).faults ≠ [] ∨
        (Tokens.ofLexemes p [stringLexeme s]).faults = [] ∧
          Kept (TextSurvives s.toList) String.length text s) := by
  have hheard := decode_heard s.toList (p.advance '"')
  have htokens : Tokens.ofLexemes p [stringLexeme s] =
      ⟨[⟨.str (String.ofList (Hcl.Template.decode true (p.advance '"')
          (s.toList.flatMap encodeChar)).text), ⟨p, p.advanceAll (stringLexeme s).text⟩⟩],
        (Hcl.Template.decode true (p.advance '"') (s.toList.flatMap encodeChar)).faults⟩ := by
    have hinner : (s.toList.flatMap encodeChar ++ ['"']).dropLast = s.toList.flatMap encodeChar :=
      List.dropLast_concat
    simp only [Tokens.ofLexemes, Tokens.ofLexeme, Tokens.append, stringLexeme, if_true,
      List.append_nil, List.tail_cons, hinner]
  rw [htokens]
  refine ⟨_, _, rfl, rfl, ?_⟩
  rcases hheard with hfault | ⟨hfaults, ⟨hsurvives, htext⟩ | ⟨hspoiled, hlt⟩⟩
  · exact .inl hfault
  · refine .inr ⟨hfaults, .inl ⟨hsurvives, ?_⟩⟩
    rw [htext, String.ofList_toList]
  · refine .inr ⟨hfaults, .inr ⟨hspoiled, ?_⟩⟩
    rw [String.length_ofList, ← String.length_toList]
    exact hlt

/-- Whatever is made of a string's token is made of what is left of the string. -/
theorem conveys_token {α : Type} {IsTree : List Token → α → Prop} {Means : α → Prop} (s : String)
    (hmake : ∀ t text, t.kind = .str text → Kept (TextSurvives s.toList) String.length text s →
      ∃ a, IsTree [t] a ∧ Means a) :
    Conveys IsTree Means (TextSurvives s.toList) [stringLexeme s] := by
  constructor
  · intro hsurvives p
    rcases string_token s p with ⟨t, text, -, -, ⟨hspoiled, -⟩ | ⟨hfaults, -⟩⟩
    · exact absurd hsurvives hspoiled
    · exact hfaults
  · intro p hclean
    rcases string_token s p with ⟨t, text, htokens, ht, ⟨-, hfault⟩ | ⟨-, hkept⟩⟩
    · exact absurd hclean hfault
    · rw [htokens]
      exact hmake t text ht hkept

theorem conveys_string (s : String) :
    ConveysValue (TextSurvives s.toList) (.string s) [stringLexeme s] := by
  apply conveys_token
  intro t text ht hkept
  refine ⟨_, .string ht, .inr ⟨.string text, rfl, ?_⟩⟩
  rcases hkept with ⟨hsurvives, rfl⟩ | hlt
  · exact .inl ⟨hsurvives, rfl⟩
  · exact .inr hlt

theorem conveys_key (key : String) : ConveysKey key [stringLexeme key] := by
  apply conveys_token
  intro t text ht hkept
  have hstart : Hcl.startsKeyExpr t.kind = true := by
    rw [ht]
    rfl
  exact ⟨_, .expr hstart (.string ht), text, rfl, hkept⟩

/-! ### Forms with parts -/

/-- Two parts with a mark between them. -/
theorem Conveys.between {α β γ : Type} {IsLeft : List Token → α → Prop} {MeansLeft : α → Prop}
    {IsRight : List Token → β → Prop} {MeansRight : β → Prop} {IsTree : List Token → γ → Prop}
    {Means : γ → Prop} {m : Mark} (c : Char) (hx : Conveys IsLeft MeansLeft A xs)
    (hy : Conveys IsRight MeansRight B ys)
    (hmake : ∀ ts us t a b, t.kind = .mark m → IsLeft ts a → MeansLeft a → IsRight us b →
      MeansRight b → ∃ e, IsTree (ts ++ t :: us) e ∧ Means e) :
    Conveys IsTree Means (A ∧ B) (xs ++ ⟨.mark m, [c]⟩ :: ys) := by
  constructor
  · intro hsurvive p
    rcases Tokens.ofLexemes_mark p xs ys m c with ⟨t, q, -, hall⟩
    rw [hall, hx.clean hsurvive.1 p, hy.clean hsurvive.2 q]
    rfl
  · intro p hclean
    rcases Tokens.ofLexemes_mark p xs ys m c with ⟨t, q, ht, hall⟩
    rw [hall] at hclean ⊢
    rcases List.append_eq_nil_iff.1 hclean with ⟨hleft, hright⟩
    rcases hx.derives p hleft with ⟨a, ha, hmeans⟩
    rcases hy.derives q hright with ⟨b, hb, hmeans'⟩
    exact hmake _ _ t a b ht ha hmeans hb hmeans'

/-- A part between two marks. -/
theorem Conveys.enclosed {α β : Type} {IsPart : List Token → α → Prop} {MeansPart : α → Prop}
    {IsTree : List Token → β → Prop} {Means : β → Prop} {m n : Mark} (c d : Char)
    (hx : Conveys IsPart MeansPart A xs)
    (hmake : ∀ o ts t a, o.kind = .mark m → IsPart ts a → MeansPart a → t.kind = .mark n →
      ∃ e, IsTree (o :: ts ++ [t]) e ∧ Means e) :
    Conveys IsTree Means A (⟨.mark m, [c]⟩ :: (xs ++ [⟨.mark n, [d]⟩])) := by
  -- Each bracket is one token and gives no fault, so the faults are those of the parts.
  have hall : ∀ p, ∃ o q t, o.kind = .mark m ∧ t.kind = .mark n ∧
      Tokens.ofLexemes p (⟨.mark m, [c]⟩ :: (xs ++ [⟨.mark n, [d]⟩])) =
        ⟨o :: (Tokens.ofLexemes q xs).tokens ++ [t], (Tokens.ofLexemes q xs).faults⟩ := by
    intro p
    rcases Tokens.ofLexemes_mark p [] (xs ++ [⟨.mark n, [d]⟩]) m c with ⟨o, q, ho, hopen⟩
    rcases Tokens.ofLexemes_mark q xs [] n d with ⟨t, r, ht, hclose⟩
    rw [List.nil_append] at hopen
    refine ⟨o, q, t, ho, ht, ?_⟩
    rw [hopen, hclose]
    show Tokens.mk _ ([] ++ (_ ++ [])) = _
    rw [List.append_nil]
    rfl
  constructor
  · intro hsurvives p
    rcases hall p with ⟨o, q, t, -, -, htokens⟩
    rw [htokens]
    exact hx.clean hsurvives q
  · intro p hclean
    rcases hall p with ⟨o, q, t, ho, ht, htokens⟩
    rw [htokens] at hclean ⊢
    rcases hx.derives q hclean with ⟨a, ha, hmeans⟩
    exact hmake o _ t a ho ha hmeans ht

theorem conveys_entry (hv : ConveysValue A v xs) :
    ConveysEntry (TextSurvives key.toList ∧ A) key v
      ([stringLexeme key] ++ ⟨.mark .colon, [':']⟩ :: xs) := by
  apply (conveys_key key).between ':' hv
  intro ks us t k e ht hk hkey he hvalue
  refine ⟨.mk k e, .mk hk (.inr ht) he, ?_⟩
  rcases hkey with ⟨text, htext, hkept⟩
  rcases hvalue with ⟨hspoiled, hfault⟩ | ⟨w, hw, hkept'⟩
  · exact .inl ⟨fun h => hspoiled h.2, hfault⟩
  · exact .inr ⟨text, w, htext, hw, hkept.both (f := Prod.mk) (fun _ _ => rfl) hkept'⟩

theorem conveys_items_nil : ConveysItems True [] [] :=
  ⟨fun _ _ => rfl, fun _ _ => ⟨[], .none, carries_pure _ []⟩⟩

theorem conveys_items_last (hv : ConveysValue A v xs) : ConveysItems (A ∧ True) [v] xs := by
  constructor
  · exact fun hsurvives => hv.clean hsurvives.1
  · intro p hclean
    rcases hv.derives p hclean with ⟨e, he, hvalue⟩
    exact ⟨[e], .last he, carries_cons hvalue (carries_pure _ [])⟩

theorem conveys_items_cons (hv : ConveysValue A v xs) (hvs : ConveysItems B vs ys) :
    ConveysItems (A ∧ B) (v :: vs) (xs ++ ⟨.mark .comma, [',']⟩ :: ys) := by
  apply hv.between ',' hvs
  intro ts us t e es ht he hvalue hes hvalues
  refine ⟨e :: es, ?_, carries_cons hvalue hvalues⟩
  have hitems := IsItems.cons he Hcl.lineEnds_nil ht Hcl.lineEnds_nil hes
  rwa [List.append_nil, List.append_assoc, List.singleton_append] at hitems

theorem conveys_entries_nil : ConveysEntries True [] [] :=
  ⟨fun _ _ => rfl, fun _ _ => ⟨[], .none Hcl.lineEnds_nil, carriesEntries_nil⟩⟩

theorem conveys_entries_last (he : ConveysEntry A key v xs) :
    ConveysEntries (A ∧ True) [(key, v)] xs := by
  constructor
  · exact fun hsurvives => he.clean hsurvives.1
  · intro p hclean
    rcases he.derives p hclean with ⟨e, hentry, hmeans⟩
    exact ⟨[e], .last Hcl.lineEnds_nil hentry, carriesEntries_cons hmeans carriesEntries_nil⟩

theorem conveys_entries_cons (he : ConveysEntry A key v xs) (hes : ConveysEntries B entries ys) :
    ConveysEntries (A ∧ B) ((key, v) :: entries) (xs ++ ⟨.mark .comma, [',']⟩ :: ys) := by
  apply he.between ',' hes
  intro ts us t e es ht hentry hmeans hentries hmeans'
  exact ⟨e :: es, .cons Hcl.lineEnds_nil hentry (.inl ht) hentries,
    carriesEntries_cons hmeans hmeans'⟩

theorem conveys_tuple (hvs : ConveysItems A vs xs) :
    ConveysValue A (.tuple vs)
      (⟨.mark .openBracket, ['[']⟩ :: (xs ++ [⟨.mark .closeBracket, [']']⟩])) := by
  apply hvs.enclosed '[' ']'
  intro o ts t es ho hes hvalues ht
  have hlist : Hcl.IsList ([] ++ ts ++ []) es := .mk Hcl.lineEnds_nil hes Hcl.lineEnds_nil
  rw [List.append_nil, List.nil_append] at hlist
  refine ⟨_, .tuple ho hlist ht, ?_⟩
  unfold Expr.evaluate
  exact hvalues.map (f := Value.tuple) fun _ => rfl

theorem conveys_object (hes : ConveysEntries A entries xs) (hasc : Dict.Ascending entries) :
    ConveysValue A (.object entries)
      (⟨.mark .openBrace, ['{']⟩ :: (xs ++ [⟨.mark .closeBrace, ['}']⟩])) := by
  apply hes.enclosed '{' '}'
  intro o ts t es ho hes hmeans ht
  refine ⟨_, .object ho hes ht, ?_⟩
  unfold Expr.evaluate
  exact (carries_entries hmeans hasc).map (f := Value.object) fun _ => rfl

end

/-! ## Documents -/

/-- Whether all strings and all names in a document survive. -/
def Survives : Json → Prop
  | null | bool _ | integer _ | float _ => True
  | string s => TextSurvives s.toList
  | array items => itemsSurvive items
  | object members => membersSurvive members
where
  /-- Whether all items survive. -/
  itemsSurvive : List Json → Prop
  | [] => True
  | x :: xs => x.Survives ∧ itemsSurvive xs
  /-- Whether all names and all values survive. -/
  membersSurvive : List (String × Json) → Prop
  | [] => True
  | (name, x) :: rest => (TextSurvives name.toList ∧ x.Survives) ∧ membersSurvive rest

/-- Whether a text is cut into lexemes of the value of a number's text. -/
def NumberConveyed (text : List Char) : Prop :=
  ∃ xs, Hcl.Cuts text xs ∧ ConveysValue True (Value.ofNumberText (String.ofList text)) xs

/-- A sign and a numeral. -/
theorem numeral_conveyed (negative : Bool) {n : Numeral} (hn : n.Sound) (hfits : n.Fits) :
    NumberConveyed ((if negative then ['-'] else []) ++ n.text) := by
  rcases Numeral.parse?_minus hn hfits with ⟨x, hplain, hminus⟩
  have hnumber := conveys_number hplain
  cases negative with
  | true =>
    refine ⟨_, Hcl.cuts_mark rfl (Hcl.cuts_numeral hn), ?_⟩
    have hvalue : Value.ofNumberText (String.ofList ('-' :: n.text)) = .number x.negate := by
      unfold Value.ofNumberText
      rw [hminus]
      rfl
    show ConveysValue True (Value.ofNumberText (String.ofList ('-' :: n.text))) _
    rw [hvalue]
    exact conveys_minus hnumber fun _ => rfl
  | false =>
    refine ⟨_, Hcl.cuts_numeral hn, ?_⟩
    have hvalue : Value.ofNumberText (String.ofList n.text) = .number x := by
      unfold Value.ofNumberText
      rw [hplain]
      rfl
    show ConveysValue True (Value.ofNumberText (String.ofList n.text)) _
    rw [hvalue]
    exact hnumber

/-- What is no finite number is written as `null`, with or without a sign. -/
theorem null_conveyed (negative : Bool) :
    NumberConveyed ((if negative then ['-'] else []) ++ "null".toList) := by
  have hcuts := Hcl.cuts_isWord Value.isWord_null
  cases negative with
  -- No number is called `null`, so its text means null, and a minus in front keeps it that.
  | true =>
    have hnone : Number.parse? (String.ofList ('-' :: "null".toList)) = none := by decide +kernel
    have hvalue : Value.ofNumberText (String.ofList ('-' :: "null".toList)) = .null := by
      unfold Value.ofNumberText
      rw [hnone]
      rfl
    refine ⟨_, Hcl.cuts_mark rfl hcuts, ?_⟩
    show ConveysValue True (Value.ofNumberText (String.ofList ('-' :: "null".toList))) _
    rw [hvalue]
    exact conveys_minus conveys_null fun _ => rfl
  | false =>
    have hnone : Number.parse? (String.ofList "null".toList) = none := by decide +kernel
    have hvalue : Value.ofNumberText (String.ofList "null".toList) = .null := by
      unfold Value.ofNumberText
      rw [hnone]
      rfl
    refine ⟨_, hcuts, ?_⟩
    show ConveysValue True (Value.ofNumberText (String.ofList "null".toList)) _
    rw [hvalue]
    exact conveys_null

theorem integer_conveyed (n : Int) : NumberConveyed (toString n).toList := by
  have htext : (toString n).toList = (if decide (n < 0) then ['-'] else []) ++
      Numeral.text ⟨Numeric.digits n.natAbs, [], none, false⟩ := by
    rw [Numeric.toList_toString]
    simp [Numeric.integerText, Numeric.signText, Numeral.text, Numeral.fractionText,
      Numeral.exponentText]
  rw [htext]
  apply numeral_conveyed
  · constructor
    · exact Numeric.digits_ne_nil _
    · exact fun c hc => Numeric.isDigit_of_mem_digits hc
    · exact fun c hc => absurd hc (List.not_mem_nil)
  · constructor
    · show Numeric.FitsInt64 0
      decide
    · show Numeric.FitsInt64 (0 - 0)
      decide

theorem float_conveyed (x : Binary64) : NumberConveyed (Layout.json.render x).toList := by
  by_cases hfinite : x.IsFinite
  · rcases Layout.json.exists_numeral hfinite with ⟨n, hn, hfits, htext⟩
    rw [htext]
    exact numeral_conveyed x.negative hn hfits
  · -- NaN has no sign in the text, an infinity has its own.
    have htext : ∃ negative : Bool, (Layout.json.render x).toList =
        (if negative then ['-'] else []) ++ "null".toList := by
      unfold Layout.render
      by_cases hnan : x.isNaN = true
      · rw [if_pos hnan]
        exact ⟨false, rfl⟩
      · have hinfinite : x.isInfinite = true := by
          by_contra hinfinite
          exact hfinite ⟨by simpa using hnan, by simpa using hinfinite⟩
        rw [if_neg hnan, if_pos hinfinite]
        refine ⟨x.negative, ?_⟩
        cases x.negative with
        | true => rfl
        | false => rfl
    rcases htext with ⟨negative, htext⟩
    rw [htext]
    exact null_conveyed negative

theorem toList_member (name : String) (x : Json) :
    (quote name ++ ":" ++ x.render).toList = (quote name).toList ++ ':' :: x.render.toList := by
  rw [String.toList_append, String.toList_append, List.append_assoc]
  rfl

mutual

/-- The text of a document is cut into lexemes of an expression that carries its value. -/
theorem render_conveyed : ∀ j : Json, j.Ordered →
    ∃ xs, Hcl.Cuts j.render.toList xs ∧ ConveysValue j.Survives (Value.ofJson j) xs
  | .null, _ => ⟨_, Hcl.cuts_isWord Value.isWord_null, conveys_null⟩
  | .bool true, _ => ⟨_, Hcl.cuts_isWord Value.isWord_true, conveys_bool true⟩
  | .bool false, _ => ⟨_, Hcl.cuts_isWord Value.isWord_false, conveys_bool false⟩
  | .integer n, _ => by
    rcases integer_conveyed n with ⟨xs, hcuts, hnumber⟩
    rw [String.ofList_toList] at hnumber
    exact ⟨xs, hcuts, hnumber⟩
  | .float x, _ => by
    rcases float_conveyed x with ⟨xs, hcuts, hnumber⟩
    rw [String.ofList_toList] at hnumber
    exact ⟨xs, hcuts, hnumber⟩
  | .string s, _ => ⟨_, cuts_quote s, conveys_string s⟩
  | .array items, hj => by
    rcases items_conveyed items hj with ⟨xs, hcuts, hitems⟩
    refine ⟨_, ?_, conveys_tuple hitems⟩
    have hbrackets := Hcl.cuts_mark (c := '[') rfl
      (hcuts.mark Hcl.separates_closeBracket Hcl.cuts_nil)
    show Hcl.Cuts ("[" ++ ",".intercalate (render.renderItems items) ++ "]").toList _
    rw [String.toList_append, String.toList_append]
    exact hbrackets
  | .object members, hj => by
    rcases members_conveyed members hj.2 with ⟨xs, hcuts, hentries⟩
    -- The keys of the members, in order, are the keys of the value.
    have hasc : Dict.Ascending (Value.ofJson.ofMembers members) := by
      unfold Dict.Ascending
      rw [Value.keys_ofMembers]
      exact hj.1
    refine ⟨_, ?_, conveys_object hentries hasc⟩
    have hbraces := Hcl.cuts_mark (c := '{') rfl
      (hcuts.mark Hcl.separates_closeBrace Hcl.cuts_nil)
    show Hcl.Cuts ("\x7b" ++ ",".intercalate (render.renderMembers members) ++ "\x7d").toList _
    rw [String.toList_append, String.toList_append]
    exact hbraces

theorem items_conveyed : ∀ items : List Json, Ordered.itemsOrdered items →
    ∃ xs, Hcl.Cuts (",".intercalate (render.renderItems items)).toList xs ∧
      ConveysItems (Survives.itemsSurvive items) (Value.ofJson.ofItems items) xs
  | [], _ => ⟨_, Hcl.cuts_nil, conveys_items_nil⟩
  | [x], hitems => by
    rcases render_conveyed x hitems.1 with ⟨xs, hcuts, hvalue⟩
    refine ⟨xs, ?_, conveys_items_last hvalue⟩
    show Hcl.Cuts (",".intercalate [x.render]).toList xs
    rw [String.intercalate_singleton]
    exact hcuts
  | x :: y :: rest, hitems => by
    rcases render_conveyed x hitems.1 with ⟨xs, hcuts, hvalue⟩
    rcases items_conveyed (y :: rest) hitems.2 with ⟨ys, hmore, hvalues⟩
    refine ⟨_, ?_, conveys_items_cons hvalue hvalues⟩
    show Hcl.Cuts (",".intercalate (x.render :: y.render :: render.renderItems rest)).toList _
    rw [String.intercalate_cons_cons, String.toList_append, String.toList_append,
      List.append_assoc]
    exact hcuts.mark Hcl.separates_comma hmore

theorem members_conveyed : ∀ members : List (String × Json), Ordered.membersOrdered members →
    ∃ xs, Hcl.Cuts (",".intercalate (render.renderMembers members)).toList xs ∧
      ConveysEntries (Survives.membersSurvive members) (Value.ofJson.ofMembers members) xs
  | [], _ => ⟨_, Hcl.cuts_nil, conveys_entries_nil⟩
  | [(name, x)], hmembers => by
    rcases render_conveyed x hmembers.1 with ⟨xs, hcuts, hvalue⟩
    refine ⟨_, ?_, conveys_entries_last (conveys_entry hvalue)⟩
    show Hcl.Cuts (",".intercalate [quote name ++ ":" ++ x.render]).toList _
    rw [String.intercalate_singleton, toList_member]
    exact (cuts_quote name).mark Hcl.separates_colon hcuts
  | (name, x) :: (name', y) :: rest, hmembers => by
    rcases render_conveyed x hmembers.1 with ⟨xs, hcuts, hvalue⟩
    rcases members_conveyed ((name', y) :: rest) hmembers.2 with ⟨ys, hmore, hentries⟩
    refine ⟨_, ?_, conveys_entries_cons (conveys_entry hvalue) hentries⟩
    have hentry := (cuts_quote name).mark Hcl.separates_colon hcuts
    show Hcl.Cuts (",".intercalate ((quote name ++ ":" ++ x.render) ::
      (quote name' ++ ":" ++ y.render) :: render.renderMembers rest)).toList _
    rw [String.intercalate_cons_cons, String.toList_append, String.toList_append, toList_member,
      List.append_assoc]
    exact hentry.mark Hcl.separates_comma hmore

end

end Json

end Overlay
