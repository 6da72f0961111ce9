import Overlay.Proofs.Hcl.Spelling
import Overlay.Value.Literal

/-!
# The tokens of literals

* `literalKinds` lists the kinds of the tokens that a value is written with.
* `spells_literal`: these are the tokens of its literal. Keys that are written without quotes have
  to be words (`HasWordKeys`).
-/

namespace Overlay.Value

open Hcl (TokenKind Reads Spells apart_cons)
open Numeric (Number Decimal)

/-! ## Keys -/

/-- Whether a key is one word of the language. -/
def IsWord (key : String) : Prop :=
  ∃ c cs, key.toList = c :: cs ∧ Hcl.Lexeme.startsWord c = true ∧
    ∀ d ∈ cs, Hcl.Lexeme.continuesWord d = true

instance : DecidablePred IsWord := fun name =>
  match htext : name.toList with
  | [] => isFalse fun ⟨_, _, h, _⟩ => by rw [htext] at h; cases h
  | c :: cs =>
    have hword : (Hcl.Lexeme.startsWord c && cs.all Hcl.Lexeme.continuesWord) = true ↔
        IsWord name := by
      rw [Bool.and_eq_true, List.all_eq_true]
      constructor
      · intro h
        exact ⟨c, cs, htext, h⟩
      · rintro ⟨d, ds, h, hword⟩
        rw [htext] at h
        cases h
        exact hword
    decidable_of_iff _ hword

theorem isWord_of_isIdentifier {name : String} (h : isIdentifier name = true) :
    IsWord name := by
  unfold isIdentifier at h
  cases htext : name.toList with
  | nil => simp [htext] at h
  | cons c cs =>
    simp only [htext, Bool.and_eq_true, List.all_eq_true] at h
    refine ⟨c, cs, htext, Hcl.startsWord_of_startsIdentifier h.1, ?_⟩
    exact fun d hd => Hcl.continuesWord_of_continuesIdentifier (h.2 d hd)

/-- Whether all keys in a value that are written without quotes are words. -/
def HasWordKeys : Value → Prop
  | null | unknown | bool _ | number _ | string _ | capsule _ => True
  | list items | set items | tuple items => itemsHave items
  | map entries | object entries => entriesHave entries
where
  /-- Whether it is so in all items. -/
  itemsHave : List Value → Prop
  | [] => True
  | v :: vs => v.HasWordKeys ∧ itemsHave vs
  /-- Whether it is so of all keys and in all values. -/
  entriesHave : List (String × Value) → Prop
  | [] => True
  | (key, v) :: rest => (isBareKey key = true → IsWord key) ∧ v.HasWordKeys ∧ entriesHave rest

/-! ## Kinds of tokens -/

/-- The token of a key. -/
def keyKind (key : String) : TokenKind := if isBareKey key then .ident key else .str key

/-- Parts with a comma between them. -/
def commaKinds : List (List TokenKind) → List TokenKind
  | [] => []
  | [x] => x
  | x :: y :: rest => x ++ .mark .comma :: commaKinds (y :: rest)

/-- The tokens of a number; an infinite one is written as `null`. -/
def numberKinds : Number → List TokenKind
  | .infinite _ => [.ident "null"]
  | .finite d =>
    (if d.negative then [.mark .minus] else []) ++ [.number (String.ofList d.numeral.text)]

/-- The tokens that a value is written with. -/
def literalKinds : Value → List TokenKind
  | null | unknown | capsule _ => [.ident "null"]
  | bool b => [.ident (if b then "true" else "false")]
  | number n => numberKinds n
  | string s => [.str s]
  | list items | set items | tuple items =>
    .mark .openBracket :: commaKinds (itemKinds items) ++ [.mark .closeBracket]
  | map entries | object entries =>
    .mark .openBrace :: commaKinds (entryKinds entries) ++ [.mark .closeBrace]
where
  /-- The tokens of the items. -/
  itemKinds : List Value → List (List TokenKind)
  | [] => []
  | v :: vs => v.literalKinds :: itemKinds vs
  /-- The tokens of the entries, each with its key, an equals sign and its value. -/
  entryKinds : List (String × Value) → List (List TokenKind)
  | [] => []
  | (key, v) :: rest => (keyKind key :: .mark .equals :: v.literalKinds) :: entryKinds rest

/-- Tokens between two others, by the kinds. -/
theorem exists_between {ts : List Hcl.Token} {first last : TokenKind} {inner : List TokenKind}
    (h : ts.map Hcl.Token.kind = first :: inner ++ [last]) :
    ∃ o us c, ts = o :: us ++ [c] ∧ o.kind = first ∧ us.map Hcl.Token.kind = inner ∧
      c.kind = last := by
  rcases List.map_eq_append_iff.1 h with ⟨front, back, rfl, hfront, hback⟩
  rcases List.map_eq_cons_iff.1 hfront with ⟨o, us, rfl, ho, hus⟩
  rcases List.map_eq_singleton_iff.1 hback with ⟨c, rfl, hc⟩
  exact ⟨o, us, c, rfl, ho, hus, hc⟩

/-! ## Tokens of the parts -/

section Parts

variable {text : List Char} {kinds : List TokenKind}

theorem isWord_null : IsWord "null" := isWord_of_isIdentifier (by decide +kernel)

theorem isWord_true : IsWord "true" := isWord_of_isIdentifier (by decide +kernel)

theorem isWord_false : IsWord "false" := isWord_of_isIdentifier (by decide +kernel)

theorem spells_word {name : String} (h : IsWord name) : Spells name.toList [.ident name] := by
  rcases h with ⟨c, cs, htext, hc, hcs⟩
  have hself : String.ofList (c :: cs) = name := by rw [← htext, String.ofList_toList]
  rw [htext, ← hself]
  intro rest ks fs hrest hreads
  exact Reads.word hc hcs (fun d ds heq => (hrest d ds heq).1) hreads

theorem spells_quoted (s : String) : Spells (Hcl.Quoted.encode s.toList) [.str s] := by
  intro rest ks fs _ hreads
  have hquoted := Reads.quoted s.toList hreads
  rwa [String.ofList_toList] at hquoted

theorem spells_numeral {n : Numeric.Numeral} (h : n.Sound) :
    Spells n.text [.number (String.ofList n.text)] :=
  fun _ _ _ hrest hreads => Reads.numeral h hrest hreads

/-- A mark in front of a piece of text. -/
theorem spells_mark {c : Char} {m : Hcl.Mark} (hmark : Hcl.Mark.ofChar? c = some m)
    (h : Spells text kinds) : Spells (c :: text) (.mark m :: kinds) :=
  fun _ _ _ hrest hreads => Reads.mark hmark (h hrest hreads)

/-- A mark at the end of a piece of text. -/
theorem spells_before_mark {c : Char} {m : Hcl.Mark} (h : Spells text kinds)
    (hmark : Hcl.Mark.ofChar? c = some m) (hword : Hcl.Lexeme.continuesWord c = false)
    (hpoint : c ≠ '.') : Spells (text ++ [c]) (kinds ++ [.mark m]) := by
  intro rest ks fs _ hreads
  rw [List.append_assoc, List.append_assoc]
  exact h (apart_cons hword hpoint rest) (Reads.mark hmark hreads)

theorem spells_number (n : Number) : Spells (number n).literalChars (numberKinds n) := by
  cases n with
  | infinite negative => exact spells_word isWord_null
  | finite d =>
    have hrender : (number (.finite d)).literalChars =
        (if d.negative then ['-'] else []) ++ d.numeral.text := Decimal.toList_render d
    have hnumeral := spells_numeral (Decimal.numeral_sound d)
    rw [hrender, numberKinds]
    cases d.negative with
    | true => exact spells_mark rfl hnumeral
    | false => exact hnumeral

theorem spells_key {key : String} (h : isBareKey key = true → IsWord key) :
    Spells (literalKey key) [keyKind key] := by
  unfold literalKey keyKind
  split_ifs with hbare
  · exact spells_word (h hbare)
  · exact spells_quoted key

/-- A name or key with an equals sign behind it. -/
theorem spells_assigned {name : List Char} {k : TokenKind} (hname : Spells name [k])
    (h : Spells text kinds) :
    Spells (name ++ ' ' :: '=' :: ' ' :: text) (k :: .mark .equals :: kinds) := by
  intro rest ks fs hrest hreads
  have hequals := Reads.mark (c := '=') rfl (Reads.space (h hrest hreads))
  rw [List.append_assoc]
  exact hname (apart_cons (by decide +kernel) (by decide) _) (Reads.space hequals)

/-- Parts with a comma and a space between them. -/
theorem spells_commaSeparated {texts : List (List Char)} {parts : List (List TokenKind)}
    (h : List.Forall₂ Spells texts parts) (hne : texts ≠ []) :
    Spells (commaSeparated texts) (commaKinds parts) := by
  induction h with
  | nil => exact absurd rfl hne
  | @cons x ks xs kss hx hxs ih =>
    cases hxs with
    | nil => exact hx
    | @cons y ls ys lss hy hys =>
      have hmore := ih (by simp)
      intro rest ls fs hrest hreads
      have hcomma := Reads.mark (c := ',') rfl (Reads.space (hmore hrest hreads))
      rw [commaSeparated, commaKinds, List.append_assoc, List.append_assoc]
      exact hx (apart_cons (by decide +kernel) (by decide) _) hcomma

/-- Parts between two marks. -/
theorem spells_enclosed {c d : Char} {m n : Hcl.Mark} {texts : List (List Char)}
    {parts : List (List TokenKind)} (hc : Hcl.Mark.ofChar? c = some m)
    (hd : Hcl.Mark.ofChar? d = some n) (hword : Hcl.Lexeme.continuesWord d = false)
    (hpoint : d ≠ '.') (h : List.Forall₂ Spells texts parts) :
    Spells (c :: commaSeparated texts ++ [d]) (.mark m :: commaKinds parts ++ [.mark n]) := by
  cases h with
  | nil => exact fun _ _ _ _ hreads => Reads.mark hc (Reads.mark hd hreads)
  | cons hx hxs =>
    have hparts := spells_commaSeparated (.cons hx hxs) (by simp)
    exact spells_mark hc (spells_before_mark hparts hd hword hpoint)

/-- Parts in brackets. -/
theorem spells_brackets {texts : List (List Char)} {parts : List (List TokenKind)}
    (h : List.Forall₂ Spells texts parts) :
    Spells ('[' :: commaSeparated texts ++ [']'])
      (.mark .openBracket :: commaKinds parts ++ [.mark .closeBracket]) :=
  spells_enclosed rfl rfl (by decide +kernel) (by decide) h

/-- Parts in braces, with spaces around them if there are any. -/
theorem spells_braces {texts : List (List Char)} {parts : List (List TokenKind)}
    (h : List.Forall₂ Spells texts parts) :
    Spells (if texts.isEmpty then ['{', '}'] else '{' :: ' ' :: commaSeparated texts ++ [' ', '}'])
      (.mark .openBrace :: commaKinds parts ++ [.mark .closeBrace]) := by
  cases h with
  | nil => exact fun _ _ _ _ hreads => Reads.mark rfl (Reads.mark rfl hreads)
  | @cons x ks xs kss hx hxs =>
    have hparts := spells_commaSeparated (.cons hx hxs) (by simp)
    have hnonempty : (x :: xs).isEmpty = false := rfl
    rw [hnonempty, if_neg Bool.false_ne_true]
    intro rest ls fs _ hreads
    have hclose := Reads.space (Reads.mark (c := '}') rfl hreads)
    have hinner := hparts (apart_cons (by decide +kernel) (by decide) _) hclose
    have hopen := Reads.mark (c := '{') rfl (Reads.space hinner)
    simpa using hopen

end Parts

/-! ## Tokens of literals -/

mutual

/-- The literal of a value is cut into the tokens that the value is written with. -/
theorem spells_literal : ∀ v : Value, v.HasWordKeys → Spells v.literalChars v.literalKinds
  | null, _ | unknown, _ | capsule _, _ => spells_word isWord_null
  | bool true, _ => spells_word isWord_true
  | bool false, _ => spells_word isWord_false
  | number n, _ => spells_number n
  | string s, _ => spells_quoted s
  | list items, h | set items, h | tuple items, h => spells_brackets (spells_items items h)
  | map entries, h | object entries, h => by
    have hbraces := spells_braces (spells_entries entries h)
    cases entries with
    | nil => exact hbraces
    | cons e rest => exact hbraces

theorem spells_items : ∀ items : List Value, HasWordKeys.itemsHave items →
    List.Forall₂ Spells (literalChars.itemLiterals items) (literalKinds.itemKinds items)
  | [], _ => .nil
  | v :: vs, h => .cons (spells_literal v h.1) (spells_items vs h.2)

theorem spells_entries : ∀ entries : List (String × Value), HasWordKeys.entriesHave entries →
    List.Forall₂ Spells (literalChars.entryLiterals entries) (literalKinds.entryKinds entries)
  | [], _ => .nil
  | (_, v) :: rest, h =>
    .cons (spells_assigned (spells_key h.1) (spells_literal v h.2.1)) (spells_entries rest h.2.2)

end

end Overlay.Value
