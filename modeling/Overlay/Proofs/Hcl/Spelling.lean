import Overlay.Identifier
import Overlay.Proofs.Hcl.Lexeme
import Overlay.Proofs.Hcl.Quoting
import Overlay.Proofs.Numeric.Rendering

/-!
# Texts and the tokens that they spell

Which tokens a text has that is put together from words, numbers, quoted strings and marks.

* `Reads` says of a whole text what kinds its tokens have and which faults are in it. Each lemma of
  its section puts one lexeme in front of a text.
* A word or number ends where the text behind it does not go on with it: that text is `Apart`.
* `Spells` says of a piece of text that it adds tokens, and no faults, to every text behind it that
  is `Apart`.
-/

namespace Overlay.Hcl

open Numeric (AreDigits Numeral NumberText Sign Unsigned WrittenExponent)

/-! ## Characters -/

/-- A property of every character below 128. -/
theorem forall_ascii (P : Char → Prop) (h : ∀ n < 128, P (Char.ofNat n)) (c : Char)
    (hc : c.toNat < 128) : P c := by
  have hself : Char.ofNat c.toNat = c := Char.ofNat_toNat c
  rw [← hself]
  exact h _ hc

theorem toNat_lt_of_le {c d : Char} (h : c ≤ d) (hd : d.toNat < 128) : c.toNat < 128 :=
  lt_of_le_of_lt (UInt32.le_iff_toNat_le.1 h) hd

theorem toNat_lt_of_continuesIdentifier {c : Char} (h : continuesIdentifier c = true) :
    c.toNat < 128 := by
  simp only [continuesIdentifier, startsIdentifier, isAsciiLetter, Bool.or_eq_true,
    Bool.and_eq_true, decide_eq_true_eq, beq_iff_eq] at h
  rcases h with (((⟨-, h⟩ | ⟨-, h⟩) | rfl) | ⟨-, h⟩) | rfl
  · exact toNat_lt_of_le h (by decide)
  · exact toNat_lt_of_le h (by decide)
  · decide
  · exact toNat_lt_of_le h (by decide)
  · decide

/-- What identifiers and numbers are made of, in the lexer's words. -/
theorem ascii_kinds {c : Char} (hc : c.toNat < 128) :
    (continuesIdentifier c = true → Lexeme.continuesWord c = true) ∧
      (startsIdentifier c = true → Lexeme.startsWord c = true) ∧
      (Lexeme.isDigit c = true → Lexeme.isSpace c = false ∧ c ≠ '#' ∧
        Lexeme.startsWord c = false ∧ Lexeme.continuesWord c = true) := by
  refine forall_ascii (fun c =>
    (continuesIdentifier c = true → Lexeme.continuesWord c = true) ∧
      (startsIdentifier c = true → Lexeme.startsWord c = true) ∧
      (Lexeme.isDigit c = true → Lexeme.isSpace c = false ∧ c ≠ '#' ∧
        Lexeme.startsWord c = false ∧ Lexeme.continuesWord c = true)) ?_ c hc
  decide +kernel

/-- What goes on with an identifier goes on with a word. -/
theorem continuesWord_of_continuesIdentifier {c : Char} (h : continuesIdentifier c = true) :
    Lexeme.continuesWord c = true :=
  (ascii_kinds (toNat_lt_of_continuesIdentifier h)).1 h

theorem startsWord_of_startsIdentifier {c : Char} (h : startsIdentifier c = true) :
    Lexeme.startsWord c = true := by
  have hcontinues : continuesIdentifier c = true := by simp [continuesIdentifier, h]
  exact (ascii_kinds (toNat_lt_of_continuesIdentifier hcontinues)).2.1 h

/-- A digit starts a number and goes on with a word. -/
theorem isDigit_cases {c : Char} (h : Lexeme.isDigit c = true) :
    Lexeme.isSpace c = false ∧ c ≠ '#' ∧ Lexeme.startsWord c = false ∧
      Lexeme.continuesWord c = true := by
  have hlt : c.toNat < 128 := by
    simp only [Lexeme.isDigit, Bool.and_eq_true, decide_eq_true_eq] at h
    exact toNat_lt_of_le h.2 (by decide)
  exact (ascii_kinds hlt).2.2 h

/-- Whether the text does not go on with a word or number in front of it. -/
def Apart (rest : List Char) : Prop :=
  ∀ c cs, rest = c :: cs → Lexeme.continuesWord c = false ∧ c ≠ '.'

theorem apart_nil : Apart [] := by
  rintro c cs ⟨⟩

theorem apart_cons {c : Char} (h : Lexeme.continuesWord c = false) (hpoint : c ≠ '.')
    (cs : List Char) : Apart (c :: cs) := by
  rintro d ds heq
  cases heq
  exact ⟨h, hpoint⟩

theorem Apart.isDigit {rest : List Char} (h : Apart rest) {c : Char} {cs : List Char}
    (hrest : rest = c :: cs) : Lexeme.isDigit c = false := by
  by_contra hdigit
  have hc := (isDigit_cases (c := c) (by simpa using hdigit)).2.2.2
  rw [(h c cs hrest).1] at hc
  cases hc

theorem takeWhile_append_apart {p : Char → Bool} {xs rest : List Char} (h : ∀ c ∈ xs, p c = true)
    (hrest : ∀ c cs, rest = c :: cs → p c = false) : (xs ++ rest).takeWhile p = xs := by
  rw [List.takeWhile_append_of_pos h]
  cases rest with
  | nil => rw [List.takeWhile_nil, List.append_nil]
  | cons c cs => rw [List.takeWhile_cons, hrest c cs rfl, if_neg Bool.false_ne_true,
      List.append_nil]

/-! ## Lexemes at the front -/

namespace Lexeme

/-- The lexeme at the front is cut off, and the cutting goes on behind it. -/
theorem split_of_tail {c : Char} {more rest : List Char} {shape : Shape}
    (h : tail c (more ++ rest) = (shape, more)) :
    split (c :: (more ++ rest)) = ⟨shape, c :: more⟩ :: split rest := by
  rw [split_cons, next, h, List.drop_left]

theorem tail_mark {c : Char} {m : Mark} (h : Mark.ofChar? c = some m) (cs : List Char) :
    tail c cs = (.mark m, []) := by
  unfold Mark.ofChar? at h
  split at h <;> cases h <;> rfl

/-- Spaces at the front are cut off as one lexeme. -/
theorem split_blank {c : Char} (h : isSpace c = true) (cs : List Char) :
    split (c :: cs) = ⟨.blank, c :: cs.takeWhile isSpace⟩ :: split (cs.dropWhile isSpace) := by
  have htail : tail c (cs.takeWhile isSpace ++ cs.dropWhile isSpace) =
      (.blank, cs.takeWhile isSpace) := by
    rw [List.takeWhile_append_dropWhile, tail_blank h]
  have hsplit := split_of_tail htail
  rwa [List.takeWhile_append_dropWhile] at hsplit

theorem tail_quoted (cs rest : List Char) :
    tail '"' ((Quoted.encodeBody cs ++ ['"']) ++ rest) =
      (.quoted true, Quoted.encodeBody cs ++ ['"']) := by
  have h : tail '"' (Quoted.encodeBody cs ++ '"' :: rest) =
      (.quoted (quotedTail (Quoted.encodeBody cs ++ '"' :: rest)).2,
        (quotedTail (Quoted.encodeBody cs ++ '"' :: rest)).1) := rfl
  rw [List.append_assoc, List.singleton_append, h, quotedTail_encodeBody]

theorem tail_lineComment {line : List Char} (h : '\n' ∉ line) (rest : List Char) :
    tail '#' (line ++ '\n' :: rest) = (.lineComment, line) := by
  have htail : tail '#' (line ++ '\n' :: rest) =
      (.lineComment, (line ++ '\n' :: rest).takeWhile (· ≠ '\n')) := rfl
  rw [htail, takeWhile_append_apart]
  · intro c hc
    simp only [decide_eq_true_eq]
    rintro rfl
    exact h hc
  · intro c cs heq
    cases heq
    decide

theorem tail_number {c : Char} (h : isDigit c = true) (cs : List Char) :
    tail c cs = (.number, numberTail cs) := by
  rcases isDigit_cases h with ⟨hspace, hhash, hword, -⟩
  unfold tail
  rw [if_neg (by simp [hspace]), if_neg hhash, if_neg (by simp [hword]), if_pos h]

theorem fraction_pointed {ds rest : List Char} (hds : AreDigits ds)
    (hdigit : ∀ c cs, rest = c :: cs → isDigit c = false) (hpoint : ∀ cs, rest ≠ '.' :: cs) :
    fraction ((if ds = [] then [] else '.' :: ds) ++ rest) = if ds = [] then [] else '.' :: ds := by
  have hall : ∀ c ∈ ds, isDigit c = true := hds
  split_ifs with hempty
  · rw [List.nil_append, fraction]
    exact hpoint
  · rw [List.cons_append, fraction, takeWhile_append_apart hall hdigit]
    simp [hempty]

theorem sign_text {s : Sign} {cs : List Char} (h : s = .absent → Unsigned cs) :
    sign (s.text ++ cs) = s.text := by
  cases s with
  | plus => rfl
  | minus => rfl
  | absent =>
    have hcs := h rfl
    rw [Sign.text, List.nil_append]
    cases cs with
    | nil => rfl
    | cons c cs =>
      rcases Numeric.unsigned_cons.1 hcs with ⟨hminus, hplus⟩
      rw [sign]
      · exact fun ds heq => hplus (List.cons.inj heq).1
      · exact fun ds heq => hminus (List.cons.inj heq).1

theorem exponent_exponentText {n : NumberText} (hn : n.Sound) {rest : List Char} (h : Apart rest) :
    exponent (n.exponentText ++ rest) = n.exponentText := by
  unfold NumberText.exponentText
  cases hexponent : n.exponent with
  | none =>
    cases rest with
    | nil => rfl
    | cons c cs =>
      have hc := (h c cs rfl).1
      rw [Option.map_none, Option.getD_none, List.nil_append, exponent, if_neg]
      rintro (rfl | rfl) <;> exact absurd hc (by decide +kernel)
  | some e =>
    rcases hn.exponent e hexponent with ⟨hne, hdigits⟩
    have hall : ∀ c ∈ e.digits, isDigit c = true := hdigits
    -- The digits stand between the sign and `rest`, so no second sign can be read.
    have hunsigned : Unsigned (e.digits ++ rest) := by
      rcases List.exists_cons_of_ne_nil hne with ⟨d, ds, hds⟩
      have hfirst := hdigits.unsigned
      rw [hds] at hfirst ⊢
      exact hfirst
    have hletter : (if e.capital then 'E' else 'e') = 'e' ∨
        (if e.capital then 'E' else 'e') = 'E' := by
      cases e.capital <;> decide
    rw [Option.map_some, Option.getD_some, WrittenExponent.text, List.cons_append,
      List.append_assoc, exponent, if_pos hletter, sign_text fun _ => hunsigned]
    dsimp only
    rw [List.drop_left, takeWhile_append_apart hall fun c cs => h.isDigit]
    simp [hne]

/-- A number goes on to the end of its text. -/
theorem numberTail_text {n : NumberText} (hn : n.Sound) {c : Char} {more rest : List Char}
    (htext : n.text = c :: more) (h : Apart rest) : numberTail (more ++ rest) = more := by
  cases hwhole : n.whole with
  | nil => exact absurd hwhole hn.nonempty
  | cons d ds =>
    let f := if n.fraction = [] then [] else '.' :: n.fraction
    have hmore : more = ds ++ f ++ n.exponentText := by
      rw [NumberText.text, NumberText.mantissa, hwhole] at htext
      exact (List.cons.inj htext).2.symm
    have hds : ∀ c ∈ ds, isDigit c = true :=
      fun c hc => hn.whole c (hwhole ▸ List.mem_cons_of_mem _ hc)
    -- Neither an exponent nor the text behind the number goes on with digits or a point.
    have hexponent : ∀ c cs, n.exponentText ++ rest = c :: cs → isDigit c = false ∧ c ≠ '.' := by
      intro c cs heq
      unfold NumberText.exponentText at heq
      cases hwritten : n.exponent with
      | none =>
        rw [hwritten] at heq
        exact ⟨h.isDigit heq, (h c cs heq).2⟩
      | some e =>
        rw [hwritten] at heq
        rw [← (List.cons.inj heq).1]
        cases e.capital <;> decide
    have hfraction : ∀ c cs, f ++ (n.exponentText ++ rest) = c :: cs → isDigit c = false := by
      intro c cs heq
      simp only [f] at heq
      split_ifs at heq
      · exact (hexponent c cs heq).1
      · cases heq
        decide
    have hpoint : ∀ cs, n.exponentText ++ rest ≠ '.' :: cs :=
      fun cs heq => (hexponent '.' cs heq).2 rfl
    have hdrop : (ds ++ (f ++ (n.exponentText ++ rest))).drop (ds.length + f.length) =
        n.exponentText ++ rest := by
      rw [← List.append_assoc, List.drop_left' (List.length_append)]
    have hread : fraction (f ++ (n.exponentText ++ rest)) = f :=
      fraction_pointed hn.fraction (fun c cs heq => (hexponent c cs heq).1) hpoint
    rw [hmore, List.append_assoc, List.append_assoc, numberTail,
      takeWhile_append_apart hds hfraction, List.drop_left, hread, hdrop, exponent_exponentText hn h]

/-- A number goes on to the end of its numeral. -/
theorem numberTail_numeral {n : Numeral} (hn : n.Sound) {c : Char} {more rest : List Char}
    (htext : n.text = c :: more) (h : Apart rest) : numberTail (more ++ rest) = more :=
  numberTail_text hn.toText (n.text_toText.trans htext) h

end Lexeme

/-! ## Quoted strings -/

/-- A quoted text is one token that is decoded to the text. -/
theorem Tokens.ofLexeme_quoted (p : Pos) (cs : List Char) :
    ofLexeme p ⟨.quoted true, Quoted.encode cs⟩ =
      ⟨[⟨.str (String.ofList cs), ⟨p, p.advanceAll (Quoted.encode cs)⟩⟩], []⟩ := by
  have hinner : (Quoted.encode cs).tail.dropLast = Quoted.encodeBody cs := List.dropLast_concat
  simp only [ofLexeme, if_true, hinner, Template.decode_encodeBody]
  rfl

/-- The characters of a quoted text are cut into one lexeme. -/
theorem Lexeme.split_encode (cs : List Char) :
    split (Quoted.encode cs) = [⟨.quoted true, Quoted.encode cs⟩] := by
  have hsplit := split_of_tail (tail_quoted cs [])
  rwa [List.append_nil] at hsplit

/-- A text that is written as a quoted string is one token, from the first character to the last,
that is decoded to the text. Nothing is wrong in it. -/
theorem Tokens.ofText_quote (s : String) :
    ofText (Quoted.quote s) = ⟨[⟨.str s, ⟨.start, .endOf (Quoted.quote s)⟩⟩], []⟩ := by
  have hquote : (Quoted.quote s).toList = Quoted.encode s.toList := String.toList_ofList
  rw [ofText, hquote, Lexeme.split_encode, ofLexemes, ofLexeme_quoted, String.ofList_toList,
    Pos.endOf, hquote]
  rfl

/-! ## Whole texts -/

/-- The text has tokens of the kinds given and the faults given, wherever it stands. -/
def Reads (text : List Char) (kinds : List TokenKind) (faults : List LexicalFault := []) : Prop :=
  ∀ p, (Tokens.ofLexemes p (Lexeme.split text)).faults.map Located.item = faults ∧
    (Tokens.ofLexemes p (Lexeme.split text)).tokens.map Token.kind = kinds

namespace Reads

variable {rest : List Char} {kinds : List TokenKind} {faults : List LexicalFault}

theorem nil : Reads [] [] := fun _ => ⟨rfl, rfl⟩

/-- One lexeme in front of a text. -/
theorem lexeme (ks : List TokenKind) (fs : List LexicalFault) {c : Char} {more : List Char}
    {shape : Shape} (htail : Lexeme.tail c (more ++ rest) = (shape, more))
    (htokens : ∀ p, (Tokens.ofLexeme p ⟨shape, c :: more⟩).faults.map Located.item = fs ∧
      (Tokens.ofLexeme p ⟨shape, c :: more⟩).tokens.map Token.kind = ks)
    (h : Reads rest kinds faults) : Reads (c :: (more ++ rest)) (ks ++ kinds) (fs ++ faults) := by
  intro p
  rw [Lexeme.split_of_tail htail, Tokens.ofLexemes, Tokens.append]
  rcases htokens p with ⟨hfaults, hkinds⟩
  rcases h (p.advanceAll (c :: more)) with ⟨hrestFaults, hrestKinds⟩
  dsimp only
  rw [List.map_append, List.map_append, hfaults, hrestFaults, hkinds, hrestKinds]
  exact ⟨rfl, rfl⟩

theorem mark {c : Char} {m : Mark} (hmark : Mark.ofChar? c = some m) (h : Reads rest kinds faults) :
    Reads (c :: rest) (.mark m :: kinds) faults := by
  have htail : Lexeme.tail c ([] ++ rest) = (.mark m, []) := Lexeme.tail_mark hmark _
  have hfront := lexeme [.mark m] [] htail (fun _ => ⟨rfl, rfl⟩) h
  exact hfront

/-- A space adds nothing. -/
theorem space (h : Reads rest kinds faults) : Reads (' ' :: rest) kinds faults := by
  intro p
  have hbehind := h (p.advance ' ')
  rw [Lexeme.split_blank (by decide)]
  -- Spaces at the front of the text make one lexeme together with this one.
  cases rest with
  | nil => exact hbehind
  | cons c cs =>
    cases hc : Lexeme.isSpace c with
    | false =>
      rw [List.takeWhile_cons, List.dropWhile_cons, hc, if_neg Bool.false_ne_true,
        if_neg Bool.false_ne_true]
      exact hbehind
    | true =>
      rw [Lexeme.split_blank hc] at hbehind
      rw [List.takeWhile_cons, List.dropWhile_cons, hc, if_pos rfl, if_pos rfl]
      exact hbehind

theorem word {c : Char} {more : List Char} (hc : Lexeme.startsWord c = true)
    (hmore : ∀ d ∈ more, Lexeme.continuesWord d = true)
    (hrest : ∀ d ds, rest = d :: ds → Lexeme.continuesWord d = false)
    (h : Reads rest kinds faults) :
    Reads (c :: (more ++ rest)) (.ident (String.ofList (c :: more)) :: kinds) faults := by
  have htail : Lexeme.tail c (more ++ rest) = (.word, more) := by
    rw [Lexeme.tail_word hc, takeWhile_append_apart hmore hrest]
  exact lexeme [.ident (String.ofList (c :: more))] [] htail (fun _ => ⟨rfl, rfl⟩) h

theorem numeral {n : Numeral} (hn : n.Sound) (hrest : Apart rest) (h : Reads rest kinds faults) :
    Reads (n.text ++ rest) (.number (String.ofList n.text) :: kinds) faults := by
  rcases hn.text_eq_cons with ⟨c, more, htext, hc⟩
  have htail : Lexeme.tail c (more ++ rest) = (.number, more) := by
    rw [Lexeme.tail_number hc, Lexeme.numberTail_numeral hn htext hrest]
  rw [htext]
  exact lexeme [.number (String.ofList (c :: more))] [] htail (fun _ => ⟨rfl, rfl⟩) h

theorem quoted (cs : List Char) (h : Reads rest kinds faults) :
    Reads (Quoted.encode cs ++ rest) (.str (String.ofList cs) :: kinds) faults := by
  refine lexeme [.str (String.ofList cs)] [] (Lexeme.tail_quoted cs rest) (fun p => ?_) h
  have htokens := Tokens.ofLexeme_quoted p cs
  exact ⟨congrArg (fun x => x.faults.map Located.item) htokens,
    congrArg (fun x => x.tokens.map Token.kind) htokens⟩

/-- A comment leaves the end of its line. -/
theorem comment {line : List Char} (hline : '\n' ∉ line) (h : Reads rest kinds faults) :
    Reads ('#' :: (line ++ '\n' :: rest)) (.mark .newline :: kinds) faults :=
  lexeme [] [] (Lexeme.tail_lineComment hline rest) (fun _ => ⟨rfl, rfl⟩) (mark rfl h)

/-- The tokens of a text without faults. -/
theorem ofText {text : String} (h : Reads text.toList kinds) :
    (Tokens.ofText text).faults = [] ∧ (Tokens.ofText text).tokens.map Token.kind = kinds :=
  ⟨List.map_eq_nil_iff.1 (h .start).1, (h .start).2⟩

end Reads

/-! ## Pieces of text -/

/-- A piece of text adds tokens of the kinds given, and no faults, to every text that does not go on
with its last word or number. -/
def Spells (text : List Char) (kinds : List TokenKind) : Prop :=
  ∀ ⦃rest ks fs⦄, Apart rest → Reads rest ks fs → Reads (text ++ rest) (kinds ++ ks) fs

end Overlay.Hcl
