import Overlay.Proofs.Hcl.Spelling
import Overlay.Proofs.Hcl.Token

/-!
# Numbers and their texts

The tokens of numbers and the texts that are read as finite numbers are the same language
(`Tokens.ofText_numbers`).

* A lexeme that starts with a digit is a number text (`Lexeme.exists_numberText`): a point or the
  letter of an exponent belongs to it only together with the digits behind it.
* So the text of every number among the tokens is a number text (`Tokens.exists_numberText`).
* A number text ends where the text ends (`Lexeme.numberTail_text`), so it is cut into one lexeme
  (`Tokens.ofText_numberText`).
-/

namespace Overlay.Hcl

open Numeric (AreDigits FitsInt64 Number NumberText Sign Unsigned WrittenExponent)

/-! ## Lexemes of numbers -/

namespace Lexeme

variable {c : Char} {cs : List Char}

theorem areDigits_takeWhile (cs : List Char) : AreDigits (cs.takeWhile isDigit) :=
  fun _ hc => List.mem_takeWhile_imp hc

/-- Behind the digits there is a point with digits, or nothing of the number. -/
theorem exists_fraction (cs : List Char) :
    ∃ ds, AreDigits ds ∧ fraction cs = if ds = [] then [] else '.' :: ds := by
  unfold fraction
  split
  · next cs =>
    refine ⟨cs.takeWhile isDigit, areDigits_takeWhile cs, ?_⟩
    simp only [List.isEmpty_iff]
  · exact ⟨[], nofun, rfl⟩

theorem exists_sign (cs : List Char) : ∃ s : Sign, sign cs = s.text := by
  unfold sign
  split
  · exact ⟨.plus, rfl⟩
  · exact ⟨.minus, rfl⟩
  · exact ⟨.absent, rfl⟩

/-- Behind the fraction there is an exponent with digits, or nothing of the number. -/
theorem exists_exponent (cs : List Char) :
    ∃ e : Option WrittenExponent, (∀ w ∈ e, w.digits ≠ [] ∧ AreDigits w.digits) ∧
      exponent cs = (e.map WrittenExponent.text).getD [] := by
  cases cs with
  | nil => exact ⟨none, nofun, rfl⟩
  | cons c cs =>
    rcases exists_sign cs with ⟨s, hs⟩
    have hdigits := areDigits_takeWhile (cs.drop s.text.length)
    rw [exponent, hs]
    dsimp only
    -- A letter without digits behind it is no part of the number.
    split_ifs with hletter hempty
    · exact ⟨none, nofun, rfl⟩
    · rw [List.isEmpty_iff] at hempty
      refine ⟨some ⟨c = 'E', s, (cs.drop s.text.length).takeWhile isDigit⟩, ?_, ?_⟩
      · rintro w ⟨⟩
        exact ⟨hempty, hdigits⟩
      · rcases hletter with rfl | rfl <;> rfl
    · exact ⟨none, nofun, rfl⟩

/-- A digit and what a number goes on with behind it are a number text. -/
theorem exists_numberText (hc : isDigit c = true) (cs : List Char) :
    ∃ n : NumberText, n.Sound ∧ c :: numberTail cs = n.text := by
  rcases exists_fraction (cs.drop (cs.takeWhile isDigit).length) with ⟨ds, hds, hfraction⟩
  rcases exists_exponent (cs.drop ((cs.takeWhile isDigit).length +
    (fraction (cs.drop (cs.takeWhile isDigit).length)).length)) with ⟨e, he, hexponent⟩
  have hwhole : AreDigits (c :: cs.takeWhile isDigit) :=
    List.forall_mem_cons.2 ⟨hc, areDigits_takeWhile cs⟩
  refine ⟨⟨c :: cs.takeWhile isDigit, ds, e⟩, ⟨List.cons_ne_nil _ _, hwhole, hds, he⟩, ?_⟩
  unfold numberTail
  dsimp only
  rw [hexponent, hfraction]
  rfl

/-- Only a digit starts a number. -/
theorem isDigit_of_number (h : (tail c cs).1 = .number) : isDigit c = true := by
  rcases taken_of_shape h with ⟨more, -, htaken⟩
  cases htaken with
  | number hc => exact hc

end Lexeme

/-! ## Tokens of numbers -/

namespace Tokens

variable {text : String} {t : Token} {n : NumberText}

/-- The text of a number is a number text. -/
theorem exists_numberText {s : String} (ht : t ∈ (ofText text).tokens) (hkind : t.kind = .number s) :
    ∃ n : NumberText, n.Sound ∧ s.toList = n.text := by
  rcases exists_next ht with ⟨p, c, cs, hmem⟩
  have htells := tells_of_mem hmem
  rw [hkind] at htells
  rcases htells with ⟨hshape, rfl⟩
  have hc := Lexeme.isDigit_of_number hshape
  rw [String.toList_ofList, Lexeme.next_text, Lexeme.tail_number hc]
  exact Lexeme.exists_numberText hc cs

/-- A number text is one token. -/
theorem ofText_numberText (hn : n.Sound) (htext : text.toList = n.text) :
    ofText text = ⟨[⟨.number text, ⟨.start, .endOf text⟩⟩], []⟩ := by
  rcases hn.text_eq_cons with ⟨c, more, hmore, hc⟩
  have htail : Lexeme.tail c (more ++ []) = (.number, more) := by
    rw [Lexeme.tail_number hc, Lexeme.numberTail_text hn hmore apart_nil]
  have hsplit := Lexeme.split_of_tail htail
  have hcs : text.toList = c :: more := htext.trans hmore
  rw [List.append_nil] at hsplit
  rw [ofText, Pos.endOf, hcs, hsplit, ← String.ofList_toList (s := text), hcs]
  rfl

end Tokens

/-- The tokens of numbers and the texts that are read as finite numbers are the same. The text of
every number among the tokens of a text is read as a number unless its exponent, or its exponent less
the count of its digits behind the point, does not fit in 64 bits. A text without a sign that is read
as a finite number is one token, from its first character to its last, and nothing is wrong in it. -/
theorem Tokens.ofText_numbers (text : String) :
    (∀ t ∈ (ofText text).tokens, ∀ s, t.kind = .number s → ∃ n : NumberText, n.Sound ∧
      s.toList = n.text ∧ ((Number.parse? s).isSome = true ↔
        FitsInt64 n.scale ∧ FitsInt64 (n.scale - n.fraction.length))) ∧
    ∀ d, Unsigned text.toList → Number.parse? text = some (.finite d) →
      ofText text = ⟨[⟨.number text, ⟨.start, .endOf text⟩⟩], []⟩ := by
  refine ⟨fun t ht s hkind => ?_, fun d hunsigned hparse => ?_⟩
  · rcases exists_numberText ht hkind with ⟨n, hn, htext⟩
    refine ⟨n, hn, htext, ?_⟩
    rw [hn.parse?_isSome_iff htext]
    exact ⟨fun h => ⟨h.scale, h.exponent⟩, fun h => ⟨h.1, h.2⟩⟩
  · rcases NumberText.exists_of_parse? hunsigned hparse with ⟨n, hn, htext⟩
    exact ofText_numberText hn htext

/-- A number with all its parts, which is read, and one whose exponent is as small as it can be, which
is not read. -/
theorem Tokens.ofText_numbers_exponent :
    Unsigned "00.50E+7".toList ∧
      (∃ d, Number.parse? "00.50E+7" = some (.finite d)) ∧
      ofText "00.50E+7" = ⟨[⟨.number "00.50E+7", ⟨.start, .endOf "00.50E+7"⟩⟩], []⟩ ∧
      Number.parse? "0.5e-9223372036854775808" = none ∧
      ∃ t ∈ (ofText "a.0.5e-9223372036854775808.").tokens,
        t.kind = .number "0.5e-9223372036854775808" ∧ ∃ n : NumberText, n.Sound ∧
          "0.5e-9223372036854775808".toList = n.text ∧
          ¬(FitsInt64 n.scale ∧ FitsInt64 (n.scale - n.fraction.length)) := by
  have hunsigned : Unsigned "00.50E+7".toList := by simp [Unsigned]
  have hread : Number.parse? "00.50E+7" = some (.finite ⟨false, 5, 6, by decide, by decide⟩) := by
    decide +kernel
  have hnone : Number.parse? "0.5e-9223372036854775808" = none := by decide +kernel
  have htoken := (ofText_numbers "00.50E+7").2 _ hunsigned hread
  have hmem : ∃ t ∈ (ofText "a.0.5e-9223372036854775808.").tokens,
      t.kind = .number "0.5e-9223372036854775808" := by decide +kernel
  rcases hmem with ⟨t, ht, hkind⟩
  rcases (ofText_numbers _).1 t ht _ hkind with ⟨n, hn, htext, hiff⟩
  refine ⟨hunsigned, ⟨_, hread⟩, htoken, hnone, t, ht, hkind, n, hn, htext, fun hfits => ?_⟩
  have hsome := hiff.2 hfits
  rw [hnone] at hsome
  cases hsome

end Overlay.Hcl
