import Mathlib.Tactic.SplitIfs
import Overlay.Numeric.Number

/-!
# Texts of finite numbers

A text that is read as a finite number is an optional sign and a `NumberText`: digits, and perhaps a
point with digits behind it and an exponent.

* `parseFinite?_eq_some_iff`: these are exactly the texts that are read, if their exponents fit.
* A text tells its sign, if what stands behind that starts with none (`Sign.append_inj`), and a
  number text tells its digits and its exponent (`NumberText.text_inj`).
-/

namespace Overlay.Numeric

open Number (splitMantissa? parseFinite? namesInfinity isExponentMark)

/-! ## Signs -/

/-- A sign as it is written. -/
inductive Sign where
  | absent
  | plus
  | minus
deriving DecidableEq, Repr

namespace Sign

/-- The text of a sign. -/
def text : Sign → List Char
  | absent => []
  | plus => ['+']
  | minus => ['-']

/-- Whether the sign negates. -/
def isMinus : Sign → Bool
  | minus => true
  | absent | plus => false

end Sign

/-- `x`, negated or not. -/
def signed {α : Type} [Neg α] (negative : Bool) (x : α) : α := if negative then -x else x

/-- Whether a text does not start with a sign. -/
def Unsigned (cs : List Char) : Prop := ∀ c ∈ cs.head?, c ≠ '-' ∧ c ≠ '+'

/-- Whether a text is made of digits. -/
def AreDigits (cs : List Char) : Prop := ∀ c ∈ cs, isDigit c = true

variable {cs ds : List Char} {c : Char}

theorem ne_of_isDigit {d : Char} (h : isDigit c = true) (hd : isDigit d = false) : c ≠ d := by
  rintro rfl
  rw [h] at hd
  cases hd

theorem areDigits_iff : AreDigits ds ↔ ds.all isDigit = true := List.all_eq_true.symm

theorem unsigned_cons : Unsigned (c :: cs) ↔ c ≠ '-' ∧ c ≠ '+' := by simp [Unsigned]

theorem AreDigits.unsigned (h : AreDigits ds) : Unsigned ds := by
  intro c hc
  have hdigit := h c (List.mem_of_mem_head? hc)
  exact ⟨ne_of_isDigit hdigit (by decide), ne_of_isDigit hdigit (by decide)⟩

/-- A sign can be cut off every text. -/
theorem exists_sign (cs : List Char) :
    ∃ (sign : Sign) (rest : List Char), cs = sign.text ++ rest ∧
      (sign = .absent → Unsigned rest) := by
  cases cs with
  | nil => exact ⟨.absent, [], rfl, fun _ => by simp [Unsigned]⟩
  | cons c rest =>
    by_cases hminus : c = '-'
    · exact ⟨.minus, rest, by rw [hminus]; rfl, nofun⟩
    · by_cases hplus : c = '+'
      · exact ⟨.plus, rest, by rw [hplus]; rfl, nofun⟩
      · exact ⟨.absent, c :: rest, rfl, fun _ => unsigned_cons.2 ⟨hminus, hplus⟩⟩

/-- Behind a sign, a text without a sign tells the sign and itself. -/
theorem Sign.append_inj {a b : Sign} (hcs : Unsigned cs) (hds : Unsigned ds)
    (h : a.text ++ cs = b.text ++ ds) : a = b ∧ cs = ds := by
  have hclash : ∀ {c : Char} {es fs : List Char}, Unsigned es → c = '-' ∨ c = '+' →
      es ≠ c :: fs := by
    rintro c es fs hes hc rfl
    rcases unsigned_cons.1 hes with ⟨hminus, hplus⟩
    exact hc.elim hminus hplus
  cases a <;> cases b
  case absent.absent => exact ⟨rfl, h⟩
  case plus.plus => exact ⟨rfl, (List.cons.inj h).2⟩
  case minus.minus => exact ⟨rfl, (List.cons.inj h).2⟩
  case absent.plus => exact absurd h (hclash hcs (.inr rfl))
  case absent.minus => exact absurd h (hclash hcs (.inl rfl))
  case plus.absent => exact absurd h.symm (hclash hds (.inr rfl))
  case minus.absent => exact absurd h.symm (hclash hds (.inl rfl))
  case plus.minus => exact absurd (List.cons.inj h).1 (by decide)
  case minus.plus => exact absurd (List.cons.inj h).1 (by decide)

theorem readInt64?_sign (sign : Sign) (h : sign = .absent → Unsigned ds) :
    readInt64? (sign.text ++ ds) =
      if ds.isEmpty || !ds.all isDigit then none
      else if FitsInt64 (signed sign.isMinus (value ds : Int)) then
        some (signed sign.isMinus (value ds : Int))
      else none := by
  cases sign with
  | plus => rfl
  | minus => rfl
  | absent =>
    have hds := h rfl
    cases ds with
    | nil => rfl
    | cons c cs =>
      rcases unsigned_cons.1 hds with ⟨hminus, hplus⟩
      unfold readInt64?
      split
      · next heq =>
        split at heq
        · next h' => exact absurd (List.cons.inj h').1 hminus
        · next h' => exact absurd (List.cons.inj h').1 hplus
        · cases heq
          rfl

theorem readInt64?_eq_some_iff {n : Int} :
    readInt64? cs = some n ↔ ∃ (sign : Sign) (ds : List Char), cs = sign.text ++ ds ∧ ds ≠ [] ∧
      AreDigits ds ∧ n = signed sign.isMinus (value ds : Int) ∧ FitsInt64 n := by
  constructor
  · intro h
    rcases exists_sign cs with ⟨sign, ds, rfl, hunsigned⟩
    rw [readInt64?_sign sign hunsigned] at h
    split_ifs at h with hdigits hfits
    simp only [Bool.or_eq_true, List.isEmpty_iff, Bool.not_eq_true', not_or, Bool.not_eq_false]
      at hdigits
    cases h
    exact ⟨sign, ds, rfl, hdigits.1, areDigits_iff.2 hdigits.2, rfl, hfits⟩
  · rintro ⟨sign, ds, rfl, hne, hdigits, rfl, hfits⟩
    have hempty : ds.isEmpty = false := by simp [hne]
    rw [readInt64?_sign sign fun _ => hdigits.unsigned, hempty, areDigits_iff.1 hdigits,
      if_pos hfits]
    rfl

theorem parse?_sign (sign : Sign) (h : sign = .absent → Unsigned cs) :
    Number.parse? (String.ofList (sign.text ++ cs)) =
      if namesInfinity cs then some (.infinite sign.isMinus)
      else parseFinite? sign.isMinus cs := by
  cases sign with
  | plus =>
    unfold Number.parse?
    rw [String.toList_ofList]
    rfl
  | minus =>
    unfold Number.parse?
    rw [String.toList_ofList]
    rfl
  -- The text may not begin with a sign of its own, or it would be read as one.
  | absent =>
    have hcs := h rfl
    unfold Number.parse?
    rw [String.toList_ofList]
    cases cs with
    | nil => rfl
    | cons c cs =>
      rcases unsigned_cons.1 hcs with ⟨hminus, hplus⟩
      dsimp only [Sign.text, List.nil_append]
      split
      · next heq => exact absurd (List.cons.inj heq).1 hminus
      · next heq => exact absurd (List.cons.inj heq).1 hplus
      · rfl

/-! ## Number texts -/

/-- An exponent as it is written. -/
structure WrittenExponent where
  /-- Whether its letter is a capital one. -/
  capital : Bool
  sign : Sign
  digits : List Char

/-- The text of an exponent. -/
def WrittenExponent.text (e : WrittenExponent) : List Char :=
  (if e.capital then 'E' else 'e') :: (e.sign.text ++ e.digits)

/-- A finite number as it is written, without its sign: the digits in front of and behind the point,
which is left out if nothing stands behind it, and the exponent, if there is one. -/
structure NumberText where
  whole : List Char
  fraction : List Char
  exponent : Option WrittenExponent

namespace NumberText

/-- The digits and the point. -/
def mantissa (n : NumberText) : List Char :=
  n.whole ++ if n.fraction = [] then [] else '.' :: n.fraction

/-- The exponent and its letter. -/
def exponentText (n : NumberText) : List Char := (n.exponent.map WrittenExponent.text).getD []

/-- The text. -/
def text (n : NumberText) : List Char := n.mantissa ++ n.exponentText

/-- The exponent as a number. -/
def scale (n : NumberText) : Int :=
  (n.exponent.map fun e => signed e.sign.isMinus (value e.digits : Int)).getD 0

/-- Whether there are digits where they are needed, and nothing else. -/
structure Sound (n : NumberText) : Prop where
  nonempty : n.whole ≠ []
  whole : AreDigits n.whole
  fraction : AreDigits n.fraction
  exponent : ∀ e ∈ n.exponent, e.digits ≠ [] ∧ AreDigits e.digits

/-- Whether the exponent fits in 64 bits, also with the digits behind the point counted in. -/
structure Fits (n : NumberText) : Prop where
  scale : FitsInt64 n.scale
  exponent : FitsInt64 (n.scale - n.fraction.length)

variable {n m : NumberText}

theorem head_of_dropWhile {p : Char → Bool} (h : cs.dropWhile p = c :: ds) : p c = false := by
  have hhead := List.head?_dropWhile_not p cs
  rw [h] at hhead
  exact hhead

/-! ### Reading the parts -/

/-- What is asked of the digits in front of and behind the point. -/
theorem digits_guard {w f whole fraction : List Char} :
    (if w.isEmpty || !w.all isDigit || !f.all isDigit then none else some (w, f)) =
        some (whole, fraction) ↔
      w = whole ∧ f = fraction ∧ whole ≠ [] ∧ AreDigits whole ∧ AreDigits fraction := by
  constructor
  · intro h
    split_ifs at h with hdigits
    cases h
    simp only [Bool.or_eq_true, List.isEmpty_iff, Bool.not_eq_true', not_or, Bool.not_eq_false]
      at hdigits
    exact ⟨rfl, rfl, hdigits.1.1, areDigits_iff.2 hdigits.1.2, areDigits_iff.2 hdigits.2⟩
  · rintro ⟨rfl, rfl, hne, hwhole, hfraction⟩
    have hempty : w.isEmpty = false := by simp [hne]
    rw [hempty, areDigits_iff.1 hwhole, areDigits_iff.1 hfraction]
    rfl

theorem splitMantissa?_eq_some_iff {whole fraction : List Char} :
    splitMantissa? cs = some (whole, fraction) ↔ whole ≠ [] ∧ AreDigits whole ∧
      AreDigits fraction ∧ cs = whole ++ if fraction = [] then [] else '.' :: fraction := by
  constructor
  · intro h
    have hcut := List.takeWhile_append_dropWhile (p := fun c => decide (c ≠ '.')) (l := cs)
    unfold splitMantissa? at h
    generalize cs.takeWhile (fun c => decide (c ≠ '.')) = front at h hcut
    cases hrest : cs.dropWhile fun c => decide (c ≠ '.') with
    | nil =>
      rw [hrest] at h hcut
      obtain ⟨rfl, rfl, hne, hwhole, hfraction⟩ := digits_guard.1 h
      exact ⟨hne, hwhole, hfraction, hcut.symm⟩
    | cons c behind =>
      have hpoint : c = '.' := by simpa using head_of_dropWhile hrest
      rw [hrest, hpoint] at h hcut
      -- A point needs a digit behind it.
      cases behind with
      | nil => cases h
      | cons d ds =>
        obtain ⟨rfl, rfl, hne, hwhole, hfraction⟩ := digits_guard.1 h
        exact ⟨hne, hwhole, hfraction, hcut.symm⟩
  · rintro ⟨hne, hwhole, hfraction, rfl⟩
    have hpoint : ∀ c ∈ whole, decide (c ≠ '.') = true := by
      intro c hc
      simpa using ne_of_isDigit (hwhole c hc) (by decide)
    have hguard := digits_guard.2 ⟨rfl, rfl, hne, hwhole, hfraction⟩
    unfold splitMantissa?
    rw [List.takeWhile_append_of_pos hpoint, List.dropWhile_append_of_pos hpoint]
    cases fraction with
    | nil =>
      rw [if_pos rfl, List.takeWhile_nil, List.dropWhile_nil, List.append_nil]
      exact hguard
    | cons d ds =>
      have hstop : (('.' :: d :: ds).takeWhile fun c => decide (c ≠ '.')) = [] := rfl
      rw [if_neg (List.cons_ne_nil d ds), hstop, List.append_nil]
      exact hguard

/-- No letter of an exponent stands in a mantissa. -/
theorem Sound.not_isExponentMark (hn : n.Sound) :
    ∀ c ∈ n.mantissa, (!isExponentMark c) = true := by
  intro c hc
  have hmantissa : isDigit c = true ∨ c = '.' := by
    rcases List.mem_append.1 hc with hwhole | hbehind
    · exact .inl (hn.whole c hwhole)
    · split_ifs at hbehind
      · cases hbehind
      · rcases List.mem_cons.1 hbehind with rfl | hfraction
        · exact .inr rfl
        · exact .inl (hn.fraction c hfraction)
  rcases hmantissa with hdigit | rfl
  · have he := ne_of_isDigit hdigit (d := 'e') (by decide)
    have hE := ne_of_isDigit hdigit (d := 'E') (by decide)
    simp [isExponentMark, he, hE]
  · decide

theorem isExponentMark_iff :
    isExponentMark c = true ↔ ∃ capital : Bool, c = if capital then 'E' else 'e' := by
  simp [isExponentMark, or_comm]

/-- The exponent starts at the first letter that introduces one. -/
theorem Sound.cut (hn : n.Sound) :
    n.text.takeWhile (fun c => !isExponentMark c) = n.mantissa ∧
      n.text.dropWhile (fun c => !isExponentMark c) = n.exponentText := by
  have hmantissa := hn.not_isExponentMark
  have hstop : n.exponentText.takeWhile (fun c => !isExponentMark c) = [] ∧
      n.exponentText.dropWhile (fun c => !isExponentMark c) = n.exponentText := by
    unfold exponentText
    cases n.exponent with
    | none => exact ⟨rfl, rfl⟩
    | some e =>
      have hmark : isExponentMark (if e.capital then 'E' else 'e') = true :=
        isExponentMark_iff.2 ⟨_, rfl⟩
      simp [WrittenExponent.text, hmark]
  unfold text
  rw [List.takeWhile_append_of_pos hmantissa, List.dropWhile_append_of_pos hmantissa, hstop.1,
    hstop.2, List.append_nil]
  exact ⟨rfl, rfl⟩

/-- The number that a text is read as. -/
theorem parseFinite?_text (hn : n.Sound) (hfits : n.Fits) (negative : Bool) :
    parseFinite? negative n.text =
      some (.finite (.ofScaled negative (value (n.whole ++ n.fraction)) _ hfits.exponent)) := by
  have hsplit : splitMantissa? n.mantissa = some (n.whole, n.fraction) :=
    splitMantissa?_eq_some_iff.2 ⟨hn.nonempty, hn.whole, hn.fraction, rfl⟩
  unfold parseFinite?
  rw [hn.cut.1, hn.cut.2]
  rcases n with ⟨whole, fraction, exponent⟩
  cases exponent with
  | none =>
    simp only [exponentText, Option.map_none, Option.getD_none, hsplit]
    exact dif_pos hfits.exponent
  | some e =>
    rcases hn.exponent e rfl with ⟨hne, hdigits⟩
    have hread : readInt64? (e.sign.text ++ e.digits) =
        some (signed e.sign.isMinus (value e.digits : Int)) :=
      readInt64?_eq_some_iff.2 ⟨e.sign, e.digits, rfl, hne, hdigits, rfl, hfits.scale⟩
    simp only [exponentText, Option.map_some, Option.getD_some, WrittenExponent.text, hsplit, hread]
    exact dif_pos hfits.exponent

/-- A text is read as a finite number exactly if it is a number text whose exponent fits. -/
theorem parseFinite?_eq_some_iff {negative : Bool} {x : Number} :
    parseFinite? negative cs = some x ↔ ∃ n : NumberText, n.Sound ∧ cs = n.text ∧
      ∃ h : n.Fits,
        x = .finite (.ofScaled negative (value (n.whole ++ n.fraction)) _ h.exponent) := by
  constructor
  · intro h
    have hcut := List.takeWhile_append_dropWhile (p := fun c => !isExponentMark c) (l := cs)
    unfold parseFinite? at h
    generalize cs.takeWhile (fun c => !isExponentMark c) = front at h hcut
    split at h
    · next hrest =>
      -- There is no exponent.
      dsimp only at h
      split at h
      · next e whole fraction hexponent hsplit =>
        cases hexponent
        split_ifs at h with hfits
        cases h
        rcases splitMantissa?_eq_some_iff.1 hsplit with ⟨hne, hwhole, hfraction, hfront⟩
        refine ⟨⟨whole, fraction, none⟩, ⟨hne, hwhole, hfraction, nofun⟩, ?_, ⟨?_, hfits⟩, rfl⟩
        · rw [← hcut, hrest, hfront]
          rfl
        · show FitsInt64 0
          decide
      · cases h
    · next c behind hrest =>
      -- There is one, and `c` is its letter.
      obtain ⟨capital, rfl⟩ : ∃ capital : Bool, c = if capital then 'E' else 'e' :=
        isExponentMark_iff.1 (by simpa using head_of_dropWhile hrest)
      dsimp only at h
      split at h
      · next e whole fraction hexponent hsplit =>
        split_ifs at h with hfits
        cases h
        rcases splitMantissa?_eq_some_iff.1 hsplit with ⟨hne, hwhole, hfraction, hfront⟩
        rcases readInt64?_eq_some_iff.1 hexponent with ⟨sign, ds, rfl, hdsne, hds, rfl, he⟩
        refine ⟨⟨whole, fraction, some ⟨capital, sign, ds⟩⟩, ⟨hne, hwhole, hfraction, ?_⟩, ?_,
          ⟨he, hfits⟩, rfl⟩
        · rintro - ⟨⟩
          exact ⟨hdsne, hds⟩
        · rw [← hcut, hrest, hfront]
          rfl
      · cases h
  · rintro ⟨n, hn, rfl, hfits, rfl⟩
    exact parseFinite?_text hn hfits negative

/-! ### Telling the parts -/

/-- A number text starts with a digit. -/
theorem Sound.text_eq_cons (hn : n.Sound) : ∃ c cs, n.text = c :: cs ∧ isDigit c = true := by
  cases hwhole : n.whole with
  | nil => exact absurd hwhole hn.nonempty
  | cons c cs =>
    exact ⟨c, _, by rw [text, mantissa, hwhole]; rfl, hn.whole c (hwhole ▸ List.mem_cons_self)⟩

theorem Sound.unsigned (hn : n.Sound) : Unsigned n.text := by
  rcases hn.text_eq_cons with ⟨c, cs, htext, hc⟩
  rw [htext, unsigned_cons]
  exact ⟨ne_of_isDigit hc (by decide), ne_of_isDigit hc (by decide)⟩

/-- A name of infinity starts with a letter. -/
theorem Sound.namesInfinity (hn : n.Sound) : namesInfinity n.text = false := by
  rcases hn.text_eq_cons with ⟨c, cs, htext, hc⟩
  have hi := ne_of_isDigit hc (d := 'i') (by decide)
  have hlower : Number.lower c = c := by
    simp only [isDigit, Bool.and_eq_true, decide_eq_true_eq, Char.le_def] at hc
    unfold Number.lower
    rw [if_neg]
    rintro ⟨hA, -⟩
    exact absurd (UInt32.le_trans hA hc.2) (by decide)
  rw [htext]
  simp [Number.namesInfinity, hlower, hi]

theorem exponent_inj {d e : WrittenExponent} (hd : AreDigits d.digits) (he : AreDigits e.digits)
    (h : d.text = e.text) : d = e := by
  rcases d with ⟨capital, sign, digits⟩
  rcases e with ⟨capital', sign', digits'⟩
  obtain ⟨hletter, hrest⟩ := List.cons.inj h
  obtain ⟨rfl, rfl⟩ := Sign.append_inj hd.unsigned he.unsigned hrest
  have hcapital : capital = capital' := by
    cases capital <;> cases capital' <;> simp at hletter ⊢
  rw [hcapital]

/-- A number text tells its parts. -/
theorem text_inj (hn : n.Sound) (hm : m.Sound) (h : n.text = m.text) : n = m := by
  have hmantissa : n.mantissa = m.mantissa := by rw [← hn.cut.1, h, hm.cut.1]
  have hexponent : n.exponentText = m.exponentText := by rw [← hn.cut.2, h, hm.cut.2]
  have hn' : splitMantissa? n.mantissa = some (n.whole, n.fraction) :=
    splitMantissa?_eq_some_iff.2 ⟨hn.nonempty, hn.whole, hn.fraction, rfl⟩
  have hm' : splitMantissa? m.mantissa = some (m.whole, m.fraction) :=
    splitMantissa?_eq_some_iff.2 ⟨hm.nonempty, hm.whole, hm.fraction, rfl⟩
  rw [hmantissa, hm'] at hn'
  rcases n with ⟨whole, fraction, exponent⟩
  rcases m with ⟨whole', fraction', exponent'⟩
  cases hn'
  have hsame : exponent = exponent' := by
    cases exponent with
    | none =>
      cases exponent' with
      | none => rfl
      | some e => cases hexponent
    | some d =>
      cases exponent' with
      | none => cases hexponent
      | some e =>
        rw [exponent_inj (hn.exponent d rfl).2 (hm.exponent e rfl).2 hexponent]
  rw [hsame]

/-! ### Whole texts -/

theorem parse?_unsigned {s : String} (h : Unsigned s.toList) :
    Number.parse? s = if Number.namesInfinity s.toList then some (.infinite false)
      else parseFinite? false s.toList := by
  have hparse := parse?_sign .absent fun _ => h
  rwa [Sign.text, List.nil_append, String.ofList_toList] at hparse

/-- A number text is read exactly if its exponent fits. -/
theorem Sound.parse?_isSome_iff (hn : n.Sound) {s : String} (htext : s.toList = n.text) :
    (Number.parse? s).isSome = true ↔ n.Fits := by
  rw [parse?_unsigned (htext ▸ hn.unsigned), htext, hn.namesInfinity, if_neg Bool.false_ne_true,
    Option.isSome_iff_exists]
  constructor
  · rintro ⟨x, hx⟩
    rcases parseFinite?_eq_some_iff.1 hx with ⟨m, hm, hsame, hfits, -⟩
    rwa [text_inj hn hm hsame]
  · exact fun hfits => ⟨_, parseFinite?_text hn hfits false⟩

/-- What is read as a finite number and starts with no sign is a number text. -/
theorem exists_of_parse? {s : String} {d : Decimal} (hunsigned : Unsigned s.toList)
    (h : Number.parse? s = some (.finite d)) : ∃ n : NumberText, n.Sound ∧ s.toList = n.text := by
  rw [parse?_unsigned hunsigned] at h
  split_ifs at h
  · cases h
  · rcases parseFinite?_eq_some_iff.1 h with ⟨n, hn, htext, -⟩
    exact ⟨n, hn, htext⟩

end NumberText

end Overlay.Numeric
