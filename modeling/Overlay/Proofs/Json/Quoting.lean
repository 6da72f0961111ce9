import Mathlib.Data.List.Infix
import Overlay.Json.Basic
import Overlay.Proofs.Hcl.Quoting

/-!
# JSON strings read as quoted strings

A JSON string is one lexeme of the language (`quotedTail_encode`), but it does not always stand for
its text there.

* The language has no short escapes for backspace and form feed.
* A dollar or percent sign in front of an opening brace starts a sequence, and where the sign stands
  twice one of both is lost.
* Every other text survives (`TextSurvives`). What is heard of a text is the text itself if it
  survives, else there is a fault or the text has become shorter (`decode_heard`).
-/

namespace Overlay.Json

open Hcl.Quoted (IsShort)
open Hcl.Template (Decoded decode decodeFrom piece)

/-! ## Texts that survive -/

/-- Whether the language reads the JSON string of a text as the text. -/
structure TextSurvives (cs : List Char) : Prop where
  backspace : '\x08' ∉ cs
  formFeed : '\x0c' ∉ cs
  dollar : ¬['$', '{'] <:+: cs
  percent : ¬['%', '{'] <:+: cs

instance (cs : List Char) : Decidable (TextSurvives cs) :=
  decidable_of_iff ('\x08' ∉ cs ∧ '\x0c' ∉ cs ∧ ¬['$', '{'] <:+: cs ∧ ¬['%', '{'] <:+: cs)
    ⟨fun ⟨hbackspace, hformFeed, hdollar, hpercent⟩ =>
      ⟨hbackspace, hformFeed, hdollar, hpercent⟩,
    fun h => ⟨h.backspace, h.formFeed, h.dollar, h.percent⟩⟩

/-- Whether the character makes a text with `cs` behind it fail to survive. -/
def Spoils (c : Char) (cs : List Char) : Prop :=
  c = '\x08' ∨ c = '\x0c' ∨ (c = '$' ∨ c = '%') ∧ cs.head? = some '{'

theorem textSurvives_nil : TextSurvives [] := by
  constructor <;> simp

theorem infix_cons_iff_of_sign (sign c : Char) (cs : List Char) :
    [sign, '{'] <:+: c :: cs ↔ c = sign ∧ cs.head? = some '{' ∨ [sign, '{'] <:+: cs := by
  rw [List.infix_cons_iff]
  apply or_congr_left
  cases cs with
  | nil => simp
  | cons d ds => simp [eq_comm]

theorem textSurvives_cons {c : Char} {cs : List Char} :
    TextSurvives (c :: cs) ↔ ¬Spoils c cs ∧ TextSurvives cs := by
  unfold Spoils
  constructor
  · rintro ⟨hbackspace, hformFeed, hdollar, hpercent⟩
    rw [infix_cons_iff_of_sign, not_or] at hdollar hpercent
    rw [List.mem_cons, not_or] at hbackspace hformFeed
    refine ⟨?_, hbackspace.2, hformFeed.2, hdollar.2, hpercent.2⟩
    rintro (rfl | rfl | ⟨rfl | rfl, hbrace⟩)
    · exact hbackspace.1 rfl
    · exact hformFeed.1 rfl
    · exact hdollar.1 ⟨rfl, hbrace⟩
    · exact hpercent.1 ⟨rfl, hbrace⟩
  · rintro ⟨hspoils, hbackspace, hformFeed, hdollar, hpercent⟩
    simp only [not_or] at hspoils
    constructor
    · exact List.not_mem_cons_of_ne_of_not_mem (Ne.symm hspoils.1) hbackspace
    · exact List.not_mem_cons_of_ne_of_not_mem (Ne.symm hspoils.2.1) hformFeed
    · rw [infix_cons_iff_of_sign, not_or]
      exact ⟨fun h => hspoils.2.2 ⟨.inl h.1, h.2⟩, hdollar⟩
    · rw [infix_cons_iff_of_sign, not_or]
      exact ⟨fun h => hspoils.2.2 ⟨.inr h.1, h.2⟩, hpercent⟩

/-! ## How a character is written -/

/-- The four ways in which a character is written: with a short escape that the language shares,
with one that it does not know, by its code point, or as itself. -/
theorem encodeChar_cases (c : Char) :
    (∃ x, IsShort c x ∧ (∀ cs, ¬Spoils c cs) ∧ encodeChar c = ['\\', x]) ∨
      (∃ x, x ≠ '\n' ∧ (∀ cs, Spoils c cs) ∧
        (∀ cs, Hcl.Template.escape (x :: cs) = ⟨1, [], some .unknownEscape⟩) ∧
        encodeChar c = ['\\', x]) ∨
      (Hcl.Quoted.isControl c = true ∧ (∀ cs, ¬Spoils c cs) ∧
        encodeChar c = '\\' :: 'u' :: Hcl.Quoted.fourDigits c.toNat) ∨
      (c ≠ '"' ∧ c ≠ '\\' ∧ c ≠ '\n' ∧ c ≠ '\x08' ∧ c ≠ '\x0c' ∧ encodeChar c = [c]) := by
  by_cases hquote : c = '"'
  · subst hquote
    exact .inl ⟨'"', ⟨by decide, fun _ => rfl⟩, by simp [Spoils], rfl⟩
  by_cases hslash : c = '\\'
  · subst hslash
    exact .inl ⟨'\\', ⟨by decide, fun _ => rfl⟩, by simp [Spoils], rfl⟩
  -- These two have short escapes in JSON that templates do not know.
  by_cases hbackspace : c = '\x08'
  · subst hbackspace
    exact .inr (.inl ⟨'b', by decide, by simp [Spoils], fun _ => rfl, rfl⟩)
  by_cases hformFeed : c = '\x0c'
  · subst hformFeed
    exact .inr (.inl ⟨'f', by decide, by simp [Spoils], fun _ => rfl, rfl⟩)
  by_cases hline : c = '\n'
  · subst hline
    exact .inl ⟨'n', ⟨by decide, fun _ => rfl⟩, by simp [Spoils], rfl⟩
  by_cases hreturn : c = '\r'
  · subst hreturn
    exact .inl ⟨'r', ⟨by decide, fun _ => rfl⟩, by simp [Spoils], rfl⟩
  by_cases htab : c = '\t'
  · subst htab
    exact .inl ⟨'t', ⟨by decide, fun _ => rfl⟩, by simp [Spoils], rfl⟩
  -- What is left is a control character, written by its number, or stands for itself.
  have hencode : encodeChar c =
      if c.toNat < 32 then '\\' :: 'u' :: Hcl.Quoted.fourDigits c.toNat else [c] := by
    rw [encodeChar, if_neg hquote, if_neg hslash, if_neg hbackspace, if_neg hformFeed, if_neg hline,
      if_neg hreturn, if_neg htab]
    rfl
  by_cases hcontrol : c.toNat < 32
  · rw [if_pos hcontrol] at hencode
    refine .inr (.inr (.inl ⟨by simp [Hcl.Quoted.isControl, hcontrol], ?_, hencode⟩))
    intro cs hspoils
    rcases hspoils with rfl | rfl | ⟨rfl | rfl, -⟩
    · exact hbackspace rfl
    · exact hformFeed rfl
    · exact absurd hcontrol (by decide)
    · exact absurd hcontrol (by decide)
  · rw [if_neg hcontrol] at hencode
    exact .inr (.inr (.inr ⟨hquote, hslash, hline, hbackspace, hformFeed, hencode⟩))

/-! ## Where a JSON string ends -/

open Hcl.Lexeme (quotedTail)

/-- A character is written so that the string goes on behind it. -/
theorem quotedTail_encodeChar (c : Char) (cs : List Char) :
    quotedTail (encodeChar c ++ cs) = (encodeChar c ++ (quotedTail cs).1, (quotedTail cs).2) := by
  rcases encodeChar_cases c with ⟨x, ⟨hx, -⟩, -, h⟩ | ⟨x, hx, -, -, h⟩ | ⟨hcontrol, -, h⟩ |
    ⟨hquote, hslash, hline, -, -, h⟩
  · rw [h]
    exact Hcl.Lexeme.quotedTail_escape hx cs
  · rw [h]
    exact Hcl.Lexeme.quotedTail_escape hx cs
  · have hlt := Hcl.Quoted.toNat_lt_of_isControl hcontrol
    have hdigits := (Hcl.Quoted.fourDigits_control _ hlt).2.1
    rw [h, List.cons_append, List.cons_append, Hcl.Lexeme.quotedTail_escape (by decide),
      Hcl.Lexeme.quotedTail_append fun d hd => (hdigits d hd).2]
    rfl
  · rw [h]
    exact Hcl.Lexeme.quotedTail_cons hquote hslash hline cs

/-- A JSON string ends with the quote behind its characters. -/
theorem quotedTail_encode (cs rest : List Char) :
    quotedTail (cs.flatMap encodeChar ++ '"' :: rest) = (cs.flatMap encodeChar ++ ['"'], true) := by
  induction cs with
  | nil => rfl
  | cons c cs ih =>
    rw [List.flatMap_cons, List.append_assoc, quotedTail_encodeChar, ih, List.append_assoc]

/-! ## What a JSON string stands for -/

/-- What is left of `y`: all of it if it survives, else less than its size. -/
def Kept {α : Type} (survives : Prop) (size : α → Nat) (x y : α) : Prop :=
  survives ∧ x = y ∨ ¬survives ∧ size x < size y

theorem Kept.size_le {α : Type} {survives : Prop} {size : α → Nat} {x y : α}
    (h : Kept survives size x y) : size x ≤ size y := by
  rcases h with ⟨-, rfl⟩ | ⟨-, hlt⟩
  · exact Nat.le_refl _
  · exact Nat.le_of_lt hlt

/-- What is heard of a text: there is a fault if it does not survive, or it is kept. -/
def Heard (cs : List Char) (d : Decoded) : Prop :=
  ¬TextSurvives cs ∧ d.faults ≠ [] ∨ d.faults = [] ∧ Kept (TextSurvives cs) List.length d.text cs

/-- A character that is heard as it is. -/
theorem Heard.cons {c : Char} {cs : List Char} {d : Decoded} (hc : ¬Spoils c cs) (h : Heard cs d) :
    Heard (c :: cs) ⟨[c] ++ d.text, d.faults⟩ := by
  have hsame : TextSurvives (c :: cs) ↔ TextSurvives cs := by
    rw [textSurvives_cons]
    exact and_iff_right hc
  unfold Heard Kept
  rw [hsame]
  rcases h with hfault | ⟨hfaults, ⟨hsurvives, htext⟩ | ⟨hspoiled, hlength⟩⟩
  · exact .inl hfault
  · exact .inr ⟨hfaults, .inl ⟨hsurvives, congrArg _ htext⟩⟩
  · exact .inr ⟨hfaults, .inr ⟨hspoiled, Nat.succ_lt_succ hlength⟩⟩

/-- A piece for one character. -/
theorem heard_piece {c x : Char} {cs more tail : List Char} (hc : ¬Spoils c cs)
    (hpiece : piece true x (more ++ tail) = ⟨more.length, [c], none⟩)
    (h : ∀ q, Heard cs (decodeFrom true q 0 tail)) (p : Pos) :
    Heard (c :: cs) (decodeFrom true p 0 (x :: (more ++ tail))) := by
  rw [Hcl.Template.decodeFrom_piece hpiece p]
  exact .cons hc (h _)

/-- A character that the language cannot read. -/
theorem heard_fault {c x : Char} {cs rest : List Char} {d : Hcl.LexicalFault} {n : Nat}
    {text : List Char} (hc : Spoils c cs) (hpiece : piece true x rest = ⟨n, text, some d⟩)
    (p : Pos) : Heard (c :: cs) (decodeFrom true p 0 (x :: rest)) := by
  refine .inl ⟨fun h => (textSurvives_cons.1 h).1 hc, ?_⟩
  rw [decodeFrom, hpiece]
  exact List.cons_ne_nil _ _

/-- A character that is not escaped stands for itself. -/
theorem eq_cons_of_encode {x : Char} {cs rest : List Char} (h : cs.flatMap encodeChar = x :: rest)
    (hx : x ≠ '\\') : ∃ ds, cs = x :: ds ∧ ds.flatMap encodeChar = rest := by
  cases cs with
  | nil => cases h
  | cons c cs =>
    rw [List.flatMap_cons] at h
    rcases encodeChar_cases c with ⟨y, -, -, hc⟩ | ⟨y, -, -, -, hc⟩ | ⟨-, -, hc⟩ |
      ⟨-, -, -, -, -, hc⟩
    · rw [hc] at h
      exact absurd (List.cons.inj h).1.symm hx
    · rw [hc] at h
      exact absurd (List.cons.inj h).1.symm hx
    · rw [hc] at h
      exact absurd (List.cons.inj h).1.symm hx
    · rw [hc] at h
      rcases List.cons.inj h with ⟨rfl, hrest⟩
      exact ⟨cs, rfl, hrest⟩

/-- A sign that stands neither in front of a brace nor in front of such a sign. -/
theorem sequence_encode {c : Char} (hc : c = '$' ∨ c = '%') {cs : List Char}
    (hbrace : cs.head? ≠ some '{') (hdouble : ∀ ds, cs ≠ c :: '{' :: ds) :
    Hcl.Template.sequence c (cs.flatMap encodeChar) = ⟨0, [c], none⟩ := by
  unfold Hcl.Template.sequence
  split
  · next rest h =>
    rcases eq_cons_of_encode h (by decide) with ⟨ds, rfl, -⟩
    exact absurd rfl hbrace
  · next d rest h =>
    rw [if_neg]
    rintro rfl
    rcases eq_cons_of_encode h (by rcases hc with rfl | rfl <;> decide) with ⟨ds, rfl, hds⟩
    rcases eq_cons_of_encode hds (by decide) with ⟨es, rfl, -⟩
    exact hdouble es rfl
  · rfl

/-- A dollar or percent sign in front of a text. -/
theorem heard_sign {c : Char} (hc : c = '$' ∨ c = '%') {cs : List Char} (p : Pos)
    (hrest : ∀ xs : List Char, xs.length ≤ cs.length → ∀ q,
      Heard xs (decodeFrom true q 0 (xs.flatMap encodeChar))) :
    Heard (c :: cs) (decodeFrom true p 0 (c :: cs.flatMap encodeChar)) := by
  have hplain : c ≠ '\x08' ∧ c ≠ '\x0c' := by
    rcases hc with rfl | rfl <;> decide
  by_cases hbrace : cs.head? = some '{'
  · -- A sequence starts here.
    rcases List.head?_eq_some_iff.1 hbrace with ⟨ds, rfl⟩
    have hpiece : piece true c ('{' :: ds.flatMap encodeChar) =
        ⟨1, [c, '{'], some .templateSequence⟩ := Hcl.Template.piece_sign hc _
    exact heard_fault (.inr (.inr ⟨hc, hbrace⟩)) hpiece p
  by_cases hdouble : ∃ ds, cs = c :: '{' :: ds
  · -- The sign stands twice in front of a brace, and is heard once.
    rcases hdouble with ⟨ds, rfl⟩
    have hself : (c :: '{' :: ds).flatMap encodeChar = [c, '{'] ++ ds.flatMap encodeChar := by
      rcases hc with rfl | rfl <;> rfl
    have hpiece : piece true c ([c, '{'] ++ ds.flatMap encodeChar) =
        ⟨[c, '{'].length, [c, '{'], none⟩ := by
      rcases hc with rfl | rfl <;> rfl
    have hbehind := hrest ds (by simp only [List.length_cons]; omega)
      ((p.advance c).advanceAll [c, '{'])
    have hspoiled : ¬TextSurvives (c :: c :: '{' :: ds) := by
      intro hsurvives
      exact (textSurvives_cons.1 (textSurvives_cons.1 hsurvives).2).1 (.inr (.inr ⟨hc, rfl⟩))
    rw [hself, Hcl.Template.decodeFrom_piece hpiece p]
    rcases hbehind with ⟨-, hfault⟩ | ⟨hfaults, hkept⟩
    · exact .inl ⟨hspoiled, hfault⟩
    · have hle := hkept.size_le
      refine .inr ⟨hfaults, .inr ⟨hspoiled, ?_⟩⟩
      simp only [List.length_append, List.length_cons, List.length_nil]
      omega
  · have hpiece : piece true c ([] ++ cs.flatMap encodeChar) =
        ⟨([] : List Char).length, [c], none⟩ := by
      rw [Hcl.Template.piece_sign hc]
      exact sequence_encode hc hbrace fun ds hcs => hdouble ⟨ds, hcs⟩
    have hkept : ¬Spoils c cs := by
      rintro (h | h | h)
      · exact hplain.1 h
      · exact hplain.2 h
      · exact hbrace h.2
    exact heard_piece hkept hpiece (hrest cs (Nat.le_refl _)) p

/-- What is heard of a JSON string is kept, or there is a fault. -/
theorem decode_heard (cs : List Char) (p : Pos) :
    Heard cs (decode true p (cs.flatMap encodeChar)) := by
  unfold decode
  -- A doubled sign takes the brace behind it along, so three characters may be decoded at once.
  induction hn : cs.length using Nat.strongRecOn generalizing cs p with
  | ind n ih =>
    have hrest : ∀ (xs : List Char), xs.length < n → ∀ q,
        Heard xs (decodeFrom true q 0 (xs.flatMap encodeChar)) :=
      fun xs hxs q => ih xs.length hxs xs q rfl
    cases cs with
    | nil => exact .inr ⟨rfl, .inl ⟨textSurvives_nil, rfl⟩⟩
    | cons c cs =>
      have hlt : cs.length < n := by
        rw [List.length_cons] at hn
        omega
      rw [List.flatMap_cons]
      rcases encodeChar_cases c with ⟨x, ⟨-, hx⟩, hkept, h⟩ | ⟨x, -, hspoils, hx, h⟩ |
        ⟨hcontrol, hkept, h⟩ | ⟨-, hslash, -, hbackspace, hformFeed, h⟩
      · have hpiece : piece true '\\' ([x] ++ cs.flatMap encodeChar) = ⟨[x].length, [c], none⟩ :=
          hx _
        rw [h]
        exact heard_piece (hkept cs) hpiece (hrest cs hlt) p
      · have hpiece : piece true '\\' (x :: cs.flatMap encodeChar) =
            ⟨1, [], some .unknownEscape⟩ := hx _
        rw [h]
        exact heard_fault (hspoils cs) hpiece p
      · rw [h]
        exact heard_piece (hkept cs) (Hcl.Template.piece_control hcontrol _) (hrest cs hlt) p
      · rw [h, List.cons_append]
        by_cases hsign : c = '$' ∨ c = '%'
        · rw [List.nil_append]
          exact heard_sign hsign p fun xs hxs => hrest xs (by omega)
        · have hpiece : piece true c ([] ++ cs.flatMap encodeChar) =
              ⟨([] : List Char).length, [c], none⟩ := by
            simp [piece, hslash, hsign]
          have hkept : ¬Spoils c cs := by simp [Spoils, hbackspace, hformFeed, hsign]
          exact heard_piece hkept hpiece (hrest cs hlt) p

end Overlay.Json
