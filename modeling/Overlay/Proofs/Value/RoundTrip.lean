import Overlay.Hcl.Body
import Overlay.Proofs.Hcl.Token
import Overlay.Proofs.Value.Reading

/-!
# Literals read back

A literal is read as an expression that has the value which it stands for, unless a key in it is
written without quotes and is no word.

* `Strays` says of a text that it holds a character that starts no lexeme. Reading it reports an
  error.
* A key without quotes that is no word has such a character: it is alphabetic or a number, but
  neither a letter nor a number of the language (`strays_key`). What stands in front of it is cut
  into words, numbers, quoted strings and marks, so the literal around it has it too
  (`strays_literal`).
* `literal_read_back` puts both sides together.
-/

namespace Overlay

namespace Hcl

/-- A text without lexical faults that is read without others. -/
theorem Expr.parse_yields {text : String} {rest : List Token} {P : Expr → Prop}
    (hfaults : (Tokens.ofText text).faults = [])
    (h : (Parser.loneExpression (.ofText text)
      (.ofTokens .start (Tokens.ofText text).tokens)).Yields rest P) (filename : String) :
    (Expr.parse text filename).diagnostics = [] ∧ P (Expr.parse text filename).tree := by
  unfold Expr.parse Parser.readText
  dsimp only
  rw [Tokens.diagnostics, hfaults, h.faults]
  exact ⟨rfl, h.value⟩

/-! ## Characters that start no lexeme -/

/-- Every text has tokens, and neither their kinds nor its faults depend on its place. -/
theorem exists_reads (text : List Char) : ∃ ks fs, Reads text ks fs := by
  let ts := Tokens.ofLexemes .start (Lexeme.split text)
  refine ⟨ts.tokens.map Token.kind, ts.faults.map Located.item, fun p => ?_⟩
  have hmoved := Tokens.ofLexemes_map (Pos.rebase_steadyFrom .start p) (Lexeme.split text)
  rw [Pos.rebase_self] at hmoved
  rw [hmoved, Tokens.mapSpans, List.map_map, List.map_map]
  exact ⟨rfl, rfl⟩

/-- A character that is none of the language's own and starts no word starts no lexeme. -/
theorem Lexeme.tail_stray {c : Char} (hc : 128 ≤ c.toNat) (hword : startsWord c = false)
    (cs : List Char) : tail c cs = (.stray, []) := by
  -- Apart from the letters, all characters that a lexeme can start with are below 128.
  have hne : ∀ d : Char, d.toNat < 128 → c ≠ d := by
    rintro d hd rfl
    exact absurd hd (Nat.not_lt.2 hc)
  have hspace : isSpace c = false := by
    simp [isSpace, hne ' ' (by decide), hne '\t' (by decide), hne '\r' (by decide)]
  have hdigit : isDigit c = false := by
    by_contra hdigit
    simp only [isDigit, Bool.not_eq_false, Bool.and_eq_true, decide_eq_true_eq] at hdigit
    exact absurd (toNat_lt_of_le hdigit.2 (by decide)) (Nat.not_lt.2 hc)
  have hmark : Mark.ofChar? c = none := by
    unfold Mark.ofChar?
    split <;> first | rfl | exact absurd hc (by decide)
  unfold tail
  rw [if_neg (by simp [hspace]), if_neg (hne '#' (by decide)), if_neg (by simp [hword]),
    if_neg (by simp [hdigit]), if_neg (hne '"' (by decide)), hmark]
  split
  · next heq => cases heq
  · exact absurd rfl (hne '/' (by decide))
  · exact absurd rfl (hne '/' (by decide))
  · exact absurd rfl (hne '<' (by decide))
  · rfl

/-- Whether a character of the text starts no lexeme. -/
def Strays (text : List Char) : Prop :=
  ∃ ks fs c, Reads text ks fs ∧ .invalidCharacter c ∈ fs

namespace Strays

variable {rest : List Char}

theorem stray {c : Char} (hc : 128 ≤ c.toNat) (hword : Lexeme.startsWord c = false)
    (rest : List Char) : Strays (c :: rest) := by
  rcases exists_reads rest with ⟨ks, fs, hreads⟩
  have htail : Lexeme.tail c ([] ++ rest) = (.stray, []) := Lexeme.tail_stray hc hword _
  have hfront := Reads.lexeme [.stray c] [.invalidCharacter c] htail (fun _ => ⟨rfl, rfl⟩) hreads
  exact ⟨_, _, c, hfront, List.mem_cons_self⟩

theorem mark {c : Char} {m : Mark} (hmark : Mark.ofChar? c = some m) (h : Strays rest) :
    Strays (c :: rest) := by
  rcases h with ⟨ks, fs, d, hreads, hd⟩
  exact ⟨_, _, d, Reads.mark hmark hreads, hd⟩

theorem space (h : Strays rest) : Strays (' ' :: rest) := by
  rcases h with ⟨ks, fs, d, hreads, hd⟩
  exact ⟨_, _, d, Reads.space hreads, hd⟩

theorem word {c : Char} {more : List Char} (hc : Lexeme.startsWord c = true)
    (hmore : ∀ d ∈ more, Lexeme.continuesWord d = true)
    (hrest : ∀ d ds, rest = d :: ds → Lexeme.continuesWord d = false) (h : Strays rest) :
    Strays (c :: (more ++ rest)) := by
  rcases h with ⟨ks, fs, d, hreads, hd⟩
  exact ⟨_, _, d, Reads.word hc hmore hrest hreads, hd⟩

/-- A piece of text in front does not change it. -/
theorem behind {text : List Char} {kinds : List TokenKind} (htext : Spells text kinds)
    (hrest : Apart rest) (h : Strays rest) : Strays (text ++ rest) := by
  rcases h with ⟨ks, fs, d, hreads, hd⟩
  exact ⟨_, _, d, htext hrest hreads, hd⟩

/-- Reading such a text reports an error. -/
theorem hasErrors {text : String} (h : Strays text.toList) (filename : String) :
    (Expr.parse text filename).diagnostics.hasErrors = true := by
  rcases h with ⟨ks, fs, c, hreads, hc⟩
  rw [← (hreads .start).1] at hc
  rcases List.mem_map.1 hc with ⟨f, hf, -⟩
  have hmem : f.lexicalDiagnostic filename ∈ (Expr.parse text filename).diagnostics :=
    List.mem_append_left _ (List.mem_map_of_mem hf)
  rw [Diagnostics.hasErrors, List.any_eq_true]
  exact ⟨_, hmem, rfl⟩

end Strays

/-! ### Texts with such a character -/

/-- Whether the text has such a character whatever stands behind it. -/
def Straying (text : List Char) : Prop := ∀ rest, Strays (text ++ rest)

/-- Of some texts, the first one that is not cut into tokens has such a character. -/
inductive FirstStrays : List (List Char) → Prop
  | here {text : List Char} {texts : List (List Char)} (h : Straying text) :
    FirstStrays (text :: texts)
  | behind {text : List Char} {texts : List (List Char)} {kinds : List TokenKind}
    (h : Spells text kinds) (hmore : FirstStrays texts) : FirstStrays (text :: texts)

end Hcl

namespace Value

open Hcl (Token TokenKind Frame Straying Strays FirstStrays Spells apart_cons)

/-- Parts with a comma between them. -/
theorem straying_commaSeparated {texts : List (List Char)} (h : FirstStrays texts) :
    Straying (commaSeparated texts) := by
  -- The induction is on the parts in front of the one with such a character. A comma ends each of
  -- them, whatever its last word or number is.
  induction h with
  | @here text texts htext =>
    intro rest
    cases texts with
    | nil => exact htext rest
    | cons y texts =>
      rw [commaSeparated, List.append_assoc]
      exact htext _
  | @behind text texts kinds htext hmore ih =>
    intro rest
    cases texts with
    | nil => cases hmore
    | cons y texts =>
      have hcomma := Strays.mark (c := ',') rfl (ih rest).space
      rw [commaSeparated, List.append_assoc]
      exact hcomma.behind htext (apart_cons (by decide +kernel) (by decide) _)

/-! ## Keys -/

/-- Characters of keys without quotes that are the language's own belong to words. -/
theorem startsWord_of_bare {c : Char} (hc : c.toNat < 128)
    (h : (Text.isAlphabetic c || c == '_') = true) : Hcl.Lexeme.startsWord c = true := by
  have hall := Hcl.forall_ascii
    (fun c => (Text.isAlphabetic c || c == '_') = true → Hcl.Lexeme.startsWord c = true)
    (by decide +kernel)
  exact hall c hc h

theorem continuesWord_of_bare {c : Char} (hc : c.toNat < 128)
    (h : (Text.isAlphanumeric c || c == '_' || c == '-') = true) :
    Hcl.Lexeme.continuesWord c = true := by
  have hall := Hcl.forall_ascii
    (fun c => (Text.isAlphanumeric c || c == '_' || c == '-') = true →
      Hcl.Lexeme.continuesWord c = true) (by decide +kernel)
  exact hall c hc h

theorem startsWord_of_not_continuesWord {c : Char} (h : Hcl.Lexeme.continuesWord c = false) :
    Hcl.Lexeme.startsWord c = false := by
  simp only [Hcl.Lexeme.continuesWord, Bool.or_eq_false_iff] at h
  simp only [Hcl.Lexeme.startsWord, Bool.or_eq_false_iff]
  exact ⟨h.1.1.1, h.1.2⟩

/-- A key that is written without quotes and is no word. -/
theorem strays_key {key : String} (hbare : isBareKey key = true) (hword : ¬IsWord key) :
    Straying (literalKey key) := by
  have hself : literalKey key = key.toList := if_pos hbare
  rw [hself]
  intro rest
  unfold isBareKey at hbare
  cases htext : key.toList with
  | nil => simp [htext] at hbare
  | cons c cs =>
    simp only [htext, Bool.and_eq_true, List.all_eq_true] at hbare
    rcases hbare with ⟨⟨hc, hcs⟩, -⟩
    cases hstart : Hcl.Lexeme.startsWord c with
    | false =>
      -- The first character of the key starts no word.
      have hwide : 128 ≤ c.toNat := by
        by_contra hnarrow
        rw [startsWord_of_bare (Nat.lt_of_not_le hnarrow) hc] at hstart
        cases hstart
      exact Strays.stray hwide hstart (cs ++ rest)
    | true =>
      -- The word that the key starts with ends inside it.
      have hends : ∃ d ∈ cs, Hcl.Lexeme.continuesWord d = false := by
        by_contra hall
        push Not at hall
        exact hword ⟨c, cs, htext, hstart, fun d hd => eq_true_of_ne_false (hall d hd)⟩
      rcases hends with ⟨d, hmem, hd⟩
      rcases List.exists_of_eraseP (p := fun d => !Hcl.Lexeme.continuesWord d) hmem (by simp [hd])
        with ⟨d, front, back, hfront, hd, rfl, -⟩
      have hfront : ∀ x ∈ front, Hcl.Lexeme.continuesWord x = true := by simpa using hfront
      have hd : Hcl.Lexeme.continuesWord d = false := by simpa using hd
      have hwide : 128 ≤ d.toNat := by
        by_contra hnarrow
        have hbare := hcs d (List.mem_append_right front List.mem_cons_self)
        rw [continuesWord_of_bare (Nat.lt_of_not_le hnarrow) hbare] at hd
        cases hd
      have hstray : Strays (d :: (back ++ rest)) :=
        Strays.stray hwide (startsWord_of_not_continuesWord hd) _
      rw [List.cons_append, List.append_assoc]
      exact hstray.word hstart hfront (fun x xs heq => (List.cons.inj heq).1 ▸ hd)

/-! ## Literals -/

mutual

-- One case for each way in which a value is written. Of the items or entries the first one whose
-- keys are not all words has the character, and the key of an entry stands in front of its value.

/-- A literal with a key without quotes that is no word. -/
theorem strays_literal : ∀ v : Value, ¬v.HasWordKeys → Straying v.literalChars
  | null, h | unknown, h | capsule _, h | bool _, h | number _, h | string _, h => absurd trivial h
  | list items, h | set items, h | tuple items, h => by
    intro rest
    have hitems := straying_commaSeparated (firstStrays_items items h) (']' :: rest)
    have hopen := Strays.mark (c := '[') rfl hitems
    show Strays ('[' :: commaSeparated (literalChars.itemLiterals items) ++ [']'] ++ rest)
    rwa [List.append_assoc]
  | map entries, h | object entries, h => by
    intro rest
    have hentries := straying_commaSeparated (firstStrays_entries entries h) (' ' :: '}' :: rest)
    have hopen := Strays.mark (c := '{') rfl hentries.space
    cases entries with
    | nil => exact absurd trivial h
    | cons e entries =>
      show Strays ('{' :: ' ' :: commaSeparated _ ++ [' ', '}'] ++ rest)
      rwa [List.append_assoc]

theorem firstStrays_items : ∀ items : List Value, ¬HasWordKeys.itemsHave items →
    FirstStrays (literalChars.itemLiterals items)
  | [], h => absurd trivial h
  | v :: vs, h => by
    by_cases hv : v.HasWordKeys
    · exact .behind (spells_literal v hv) (firstStrays_items vs fun hvs => h ⟨hv, hvs⟩)
    · exact .here (strays_literal v hv)

theorem firstStrays_entries : ∀ entries : List (String × Value),
    ¬HasWordKeys.entriesHave entries → FirstStrays (literalChars.entryLiterals entries)
  | [], h => absurd trivial h
  | (key, v) :: rest, h => by
    by_cases hkey : isBareKey key = true → IsWord key
    · by_cases hv : v.HasWordKeys
      · exact .behind (spells_assigned (spells_key hkey) (spells_literal v hv))
          (firstStrays_entries rest fun hrest => h ⟨hkey, hv, hrest⟩)
      · refine .here fun behind => ?_
        have hequals := Strays.mark (c := '=') rfl (strays_literal v hv behind).space
        rw [List.append_assoc]
        exact hequals.space.behind (spells_key hkey) (apart_cons (by decide +kernel) (by decide) _)
    · rw [Classical.not_imp] at hkey
      refine .here fun behind => ?_
      rw [List.append_assoc]
      exact strays_key hkey.1 hkey.2 _

end

/-! ## Whole texts -/

/-- A literal with a line end neither in front of it nor behind it is read as one expression. -/
theorem loneExpression_literal {F : Frame} {last : Pos} {ts : List Token} {v : Value}
    (hv : v.Ordered) (hts : ts.map Token.kind = v.literalKinds) :
    (Hcl.Parser.loneExpression F ⟨last, ts⟩).Yields [] fun e => e.evaluate = .pure v.readBack := by
  rcases startsItem_of_literal hts [] with ⟨t, us, heq, -, hnewline⟩
  have hexpression := @expression_literal F last ts [] v hv hts
  rw [List.append_nil] at heq hexpression
  unfold Hcl.Parser.loneExpression
  rw [Hcl.Parser.newlines_bind, heq, Hcl.Parser.skipNewlines_of_ne hnewline, ← heq]
  refine Hcl.Parser.yields_bind hexpression fun e last he => ?_
  exact ⟨rfl, rfl, he⟩

/-- A value's literal is read without diagnostics, as an expression that evaluates without
diagnostics to the value with what no literal stands for as `null`, sequences as tuples and
dictionaries as objects. That is so if every key in the value that is written without quotes is a
word. Otherwise reading the literal reports an error. -/
theorem literal_read_back {v : Value} (hv : v.Ordered) (filename : String) :
    (v.HasWordKeys → (Hcl.Expr.parse v.literal filename).diagnostics = [] ∧
      (Hcl.Expr.parse v.literal filename).tree.evaluate = .pure v.readBack) ∧
    (¬v.HasWordKeys → (Hcl.Expr.parse v.literal filename).diagnostics.hasErrors = true) := by
  have htext : v.literal.toList = v.literalChars := String.toList_ofList
  constructor
  · intro hkeys
    have hreads : Hcl.Reads v.literal.toList v.literalKinds := by
      have hall := spells_literal v hkeys (fun _ _ h => by cases h) Hcl.Reads.nil
      rwa [List.append_nil, List.append_nil, ← htext] at hall
    rcases hreads.ofText with ⟨hfaults, hkinds⟩
    exact Hcl.Expr.parse_yields hfaults (loneExpression_literal hv hkinds) filename
  · intro hkeys
    have hstrays := strays_literal v hkeys []
    rw [List.append_nil, ← htext] at hstrays
    exact hstrays.hasErrors filename

theorem literal_read_back_nested :
    let v := object [("a-b", list [unknown, number (.infinite true)]),
      ("ключ", map [("true", string "${x}"), ("ⅷ 8", set [bool false])])]
    v.Ordered ∧ v.HasWordKeys ∧ (Hcl.Expr.parse v.literal "e.hcl").diagnostics = [] ∧
      (Hcl.Expr.parse v.literal "e.hcl").tree.evaluate =
        .pure (object [("a-b", tuple [null, null]),
          ("ключ", object [("true", string "${x}"), ("ⅷ 8", tuple [bool false])])]) := by
  intro v
  have hascending : ∀ (k l : String) {v w : Value}, k < l → Dict.Ascending [(k, v), (l, w)] :=
    fun k l _ _ h => List.pairwise_pair.2 h
  have hordered : v.Ordered :=
    ⟨hascending "a-b" "ключ" (by decide +kernel), ⟨trivial, trivial, trivial⟩,
      ⟨hascending "true" "ⅷ 8" (by decide +kernel), trivial, ⟨trivial, trivial⟩, trivial⟩, trivial⟩
  have hlatin : IsWord "a-b" := isWord_of_isIdentifier (by decide)
  have hletters : ['л', 'ю', 'ч'].all Hcl.Lexeme.continuesWord = true := by decide +kernel
  have hcyrillic : IsWord "ключ" :=
    ⟨'к', ['л', 'ю', 'ч'], rfl, by decide +kernel, List.all_eq_true.1 hletters⟩
  have htrue : isBareKey "true" = false := by decide +kernel
  have hspace : isBareKey "ⅷ 8" = false := by decide +kernel
  have hkeys : v.HasWordKeys :=
    ⟨fun _ => hlatin, ⟨trivial, trivial, trivial⟩, fun _ => hcyrillic,
      ⟨fun h => absurd h (by simp [htrue]), trivial, fun h => absurd h (by simp [hspace]),
        ⟨trivial, trivial⟩, trivial⟩, trivial⟩
  exact ⟨hordered, hkeys, (literal_read_back hordered "e.hcl").1 hkeys⟩

/-- A letter number is alphabetic, so it makes a key without quotes, but no letter of the
language. -/
theorem letterNumber_not_read_back :
    (object [("ⅷ", bool true)]).literal = "{ ⅷ = true }" ∧
      (Hcl.Expr.parse "{ ⅷ = true }" "e.hcl").diagnostics.hasErrors = true := by
  decide +kernel

end Value

end Overlay
