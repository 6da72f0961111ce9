import Overlay.Numeric.Layout
import Overlay.Proofs.Numeric.Rendering

/-!
# Floating-point numbers written as numerals

The text of a finite floating-point number is a sign and a numeral, in every layout
(`Layout.exists_numeral`).

* A shortest decimal has a few thousand digits at most, and its exponent is as small
  (`Shortest.ofMagnitude_within`). The exponent that a layout writes therefore fits in 64 bits.
* A numeral with a minus sign in front is read as the negation of the number that the numeral is
  read as (`Numeral.parse?_minus`).
-/

namespace Overlay.Numeric

/-! ## The size of shortest decimals -/

theorem width_le {n k : Nat} (hk : 0 < k) (h : n < 10 ^ k) : width n ≤ k :=
  Nat.toDigits_length 10 n k hk h

namespace Binary64

variable {x : Binary64}

/-- Whether the number is neither infinite nor none at all. -/
def IsFinite (x : Binary64) : Prop := x.isNaN = false ∧ x.isInfinite = false

theorem IsFinite.scale_le (h : x.IsFinite) : x.scale ≤ 971 := by
  have hnan : ¬infinityBits < x.magnitude := by simpa [isNaN] using h.1
  have hinfinite : x.magnitude ≠ infinityBits := by simpa [isInfinite] using h.2
  have hbits : infinityBits = 2047 * 4503599627370496 := rfl
  have hfield : x.exponentField = x.magnitude / 4503599627370496 := rfl
  unfold scale
  omega

theorem neg_scale_le (x : Binary64) : -x.scale ≤ 1074 := by
  unfold scale
  omega

theorem significand_lt (x : Binary64) : x.significand < 2 ^ 53 := by
  have hfraction : x.magnitude % Nat.pow 2 52 < 2 ^ 52 := Nat.mod_lt _ (by decide)
  have hpow : Nat.pow 2 52 = 2 ^ 52 := rfl
  unfold significand
  dsimp only
  split
  · omega
  · omega

end Binary64

namespace Shortest

theorem floorLog10Ratio_bounds {a b k : Nat} (hk : 0 < k) (ha : a < 10 ^ k) (hb : b < 10 ^ k) :
    -(k + 1 : Int) ≤ floorLog10Ratio a b ∧ floorLog10Ratio a b ≤ k := by
  unfold floorLog10Ratio
  split
  · have hwidth := width_le hk (lt_of_le_of_lt (Nat.div_le_self a b) ha)
    omega
  · have hle := Nat.div_le_self (b + a - 1) a
    have hpow : 10 ^ (k + 1) = 10 * 10 ^ k := by rw [Nat.pow_succ, Nat.mul_comm]
    have hwidth := @width_le ((b + a - 1) / a - 1) (k + 1) (Nat.succ_pos k) (by omega)
    omega

theorem roundHalfEven_le (a b : Nat) : Binary64.roundHalfEven a b ≤ a / b + 1 := by
  unfold Binary64.roundHalfEven
  dsimp only
  split
  · exact Nat.le_succ _
  · exact Nat.le_refl _

/-- Whether both the number of digits and the exponent are bounded by `n`. -/
structure Scaled.Within (n : Nat) (d : Scaled) : Prop where
  digits : d.digits < 10 ^ n
  low : -(n : Int) ≤ d.exponent
  high : d.exponent ≤ n

theorem Scaled.Within.mono {m n : Nat} {d : Scaled} (h : d.Within m) (hle : m ≤ n) :
    d.Within n := by
  constructor
  · exact lt_of_lt_of_le h.digits (Nat.pow_le_pow_right (by decide) hle)
  · have hlow := h.low
    omega
  · have hhigh := h.high
    omega

/-- A neighbour on a grid of at most 17 digits. -/
theorem neighbour?_within {i : Interval} {top : Int} {count n k : Nat} {d : Scaled}
    (h : neighbour? i top count = some d) (hcount : count ≤ 17) (hmiddle : i.middle < 10 ^ k)
    (hlow : -(n : Int) ≤ top) (hhigh : top ≤ n) : d.Within (k + n + 18) := by
  have hgrid : (-(top - count + 1)).toNat ≤ n + 17 := by omega
  -- Both candidates are at most the quotient and one.
  have hsmall : ∀ m, m ≤ i.middle * Nat.pow 10 (-(top - count + 1)).toNat /
      (i.unit * Nat.pow 10 (top - count + 1).toNat) + 1 → m < 10 ^ (k + n + 18) := by
    intro m hm
    have hquotient := Nat.div_le_self (i.middle * Nat.pow 10 (-(top - count + 1)).toNat)
      (i.unit * Nat.pow 10 (top - count + 1).toNat)
    have hscaled : i.middle * Nat.pow 10 (-(top - count + 1)).toNat ≤ 10 ^ k * 10 ^ (n + 17) :=
      Nat.mul_le_mul (Nat.le_of_lt hmiddle) (Nat.pow_le_pow_right (by decide) hgrid)
    have hpow : 10 ^ (k + n + 18) = 10 * (10 ^ k * 10 ^ (n + 17)) := by
      rw [← Nat.pow_add, Nat.mul_comm, ← Nat.pow_succ]
      congr 1
    have hpos : 0 < 10 ^ k * 10 ^ (n + 17) := by positivity
    omega
  have hwithin : ∀ m, m ≤ i.middle * Nat.pow 10 (-(top - count + 1)).toNat /
      (i.unit * Nat.pow 10 (top - count + 1).toNat) + 1 →
      Scaled.Within (k + n + 18) ⟨m, top - count + 1⟩ := by
    intro m hm
    constructor
    · exact hsmall m hm
    · show -((k + n + 18 : Nat) : Int) ≤ top - count + 1
      omega
    · show top - count + 1 ≤ ((k + n + 18 : Nat) : Int)
      omega
  unfold neighbour? at h
  dsimp only at h
  split_ifs at h with hnearest hsame hother hother
  · rw [← Option.some.inj h]
    exact hwithin _ (roundHalfEven_le _ _)
  · rw [← Option.some.inj h]
    exact hwithin _ (Nat.le_refl _)
  · rw [← Option.some.inj h]
    exact hwithin _ (Nat.le_succ _)

theorem search_within {i : Interval} {top : Int} {n k : Nat} {d : Scaled}
    (hmiddle : i.middle < 10 ^ k) (hlow : -(n : Int) ≤ top) (hhigh : top ≤ n) :
    ∀ more count, count + more ≤ 18 → search i top more count = some d → d.Within (k + n + 18) := by
  intro more
  induction more with
  | zero =>
    intro count _ h
    cases h
  | succ more ih =>
    intro count hcount h
    unfold search at h
    split at h
    · next hnear =>
      cases h
      exact neighbour?_within hnear (by omega) hmiddle hlow hhigh
    · exact ih (count + 1) (by omega) h

theorem strip_within {d : Scaled} (fuel n : Nat) (h : d.Within n) :
    (d.strip fuel).Within (n + fuel) := by
  induction fuel generalizing d n with
  | zero => exact h
  | succ fuel ih =>
    unfold Scaled.strip
    split
    · have hless : Scaled.Within (n + 1) ⟨d.digits / 10, d.exponent + 1⟩ := by
        have hdigits := (h.mono (Nat.le_succ n)).digits
        have hlow := h.low
        have hhigh := h.high
        constructor
        · exact lt_of_le_of_lt (Nat.div_le_self _ _) hdigits
        · show -((n + 1 : Nat) : Int) ≤ d.exponent + 1
          omega
        · show d.exponent + 1 ≤ ((n + 1 : Nat) : Int)
          omega
      have hstrip := ih (n + 1) hless
      rwa [Nat.add_right_comm] at hstrip
    · exact h.mono (Nat.le_add_right _ _)

theorem within_zero (n : Nat) : Scaled.Within n ⟨0, 0⟩ := by
  constructor
  · show 0 < 10 ^ n
    positivity
  · show -(n : Int) ≤ 0
    omega
  · show 0 ≤ (n : Int)
    omega

/-- The numbers around a finite one. Powers of two are compared with powers of ten by their exponents:
none is ever computed. -/
theorem interval_lt {x : Binary64} (h : x.IsFinite) :
    (interval x).middle < 10 ^ 1077 ∧ (interval x).unit < 10 ^ 1077 := by
  have hsignificand : 4 * x.significand ≤ 2 ^ 55 := by
    have hlt := x.significand_lt
    omega
  have hscale := h.scale_le
  have hnegated := x.neg_scale_le
  have htwos : ∀ e k : Nat, e ≤ k → Nat.pow 2 e ≤ 2 ^ k :=
    fun _ _ hle => Nat.pow_le_pow_right (by decide) hle
  have hup : Nat.pow 2 x.scale.toNat ≤ 2 ^ 971 := htwos _ _ (by omega)
  have hdown : Nat.pow 2 (-x.scale).toNat ≤ 2 ^ 1074 := htwos _ _ (by omega)
  have hless : ∀ a b k, a + b < k → 2 ^ a * 2 ^ b < 10 ^ k := by
    intro a b k hlt
    rw [← Nat.pow_add]
    exact lt_of_lt_of_le (Nat.pow_lt_pow_right (by decide) hlt)
      (Nat.pow_le_pow_left (by decide) k)
  constructor
  · have hproduct : 4 * x.significand * Nat.pow 2 x.scale.toNat ≤ 2 ^ 55 * 2 ^ 971 :=
      Nat.mul_le_mul hsignificand hup
    exact lt_of_le_of_lt hproduct (hless 55 971 1077 (by decide))
  · have hproduct : 4 * Nat.pow 2 (-x.scale).toNat ≤ 2 ^ 2 * 2 ^ 1074 :=
      Nat.mul_le_mul (by decide) hdown
    exact lt_of_le_of_lt hproduct (hless 2 1074 1077 (by decide))

/-- The shortest decimal of a finite number. The bound is far from being sharp. -/
theorem ofMagnitude_within {x : Binary64} (h : x.IsFinite) : (ofMagnitude x).Within 3000 := by
  unfold ofMagnitude
  split
  · exact within_zero 3000
  · rcases interval_lt h with ⟨hmiddle, hunit⟩
    have htop := floorLog10Ratio_bounds (by decide) hmiddle hunit
    have hfound : ((search (interval x)
        (floorLog10Ratio (interval x).middle (interval x).unit) 17 1).getD ⟨0, 0⟩).Within
        (1077 + 1078 + 18) := by
      cases hsearch : search (interval x)
          (floorLog10Ratio (interval x).middle (interval x).unit) 17 1 with
      | none => exact within_zero _
      | some d => exact search_within hmiddle (by omega) (by omega) 17 1 (by decide) hsearch
    exact (strip_within 17 _ hfound).mono (by decide)

end Shortest

/-! ## Signs -/

theorem Decimal.negate_ofScaled (n : Nat) (e : Int) (h : FitsInt64 e) :
    (Decimal.ofScaled false n e h).negate = Decimal.ofScaled true n e h := by
  by_cases hn : n = 0
  · subst hn
    rfl
  · have hne : (stripZeros n).1 ≠ 0 := by
      intro hzero
      have hmod := stripZeros_fst_mod n hn
      rw [hzero] at hmod
      exact hmod rfl
    simp [Decimal.ofScaled, Decimal.negate, hn, hne]

namespace Numeral

variable {n : Numeral}

/-- Whether the exponent fits in 64 bits, also with the digits behind the point counted in. -/
structure Fits (n : Numeral) : Prop where
  exponent : FitsInt64 (n.exponent.getD 0)
  scale : FitsInt64 (n.exponent.getD 0 - n.fraction.length)

/-- A minus sign in front of a numeral negates its number. -/
theorem parse?_minus (hn : n.Sound) (hfits : n.Fits) :
    ∃ x, Number.parse? (String.ofList n.text) = some x ∧
      Number.parse? (String.ofList ('-' :: n.text)) = some x.negate := by
  have hsigned : Number.parse? (String.ofList ('-' :: n.text)) =
      Number.parseFinite? true n.text := by
    have hsign : Number.parse? (String.ofList (Sign.minus.text ++ n.text)) = _ :=
      parse?_sign .minus nofun
    rw [namesInfinity_text hn] at hsign
    exact hsign
  have hplain := (parse?_text hn).trans (parseFinite?_text hn false hfits.exponent hfits.scale)
  refine ⟨_, hplain, ?_⟩
  rw [hsigned, parseFinite?_text hn true hfits.exponent hfits.scale, Number.negate,
    Decimal.negate_ofScaled]

end Numeral

/-! ## Layouts -/

namespace Layout

/-- The numeral of digits the first of which stands for `10 ^ top`. -/
def numeral (l : Layout) (ds : List Char) (top : Int) : Numeral :=
  let before := (top + 1).toNat
  if l.positional top then
    if top < 0 then ⟨['0'], List.replicate (-top - 1).toNat '0' ++ ds, none, l.plusSign⟩
    else if ds.length ≤ before then
      ⟨ds ++ List.replicate (before - ds.length) '0', if l.pointZero then ['0'] else [], none,
        l.plusSign⟩
    else ⟨ds.take before, ds.drop before, none, l.plusSign⟩
  else ⟨ds.take 1, ds.drop 1, some top, l.plusSign⟩

variable (l : Layout) {ds : List Char} {top : Int}

theorem text_numeral (hne : ds ≠ []) :
    (l.numeral ds top).text =
      if l.positional top then l.place ds top else l.scientific ds top := by
  unfold numeral
  dsimp only
  split
  · unfold place
    dsimp only
    split
    · simp [Numeral.text, Numeral.fractionText, Numeral.exponentText, hne]
    · split
      · cases l.pointZero <;>
          simp [Numeral.text, Numeral.fractionText, Numeral.exponentText]
      · next hlong =>
        simp [Numeral.text, Numeral.fractionText, Numeral.exponentText, hlong]
  · have hsign : (if top < 0 then ['-'] else if l.plusSign then ['+'] else []) =
        signText l.plusSign top := rfl
    unfold scientific
    dsimp only
    rw [hsign]
    cases hrest : ds.drop 1 with
    | nil => simp [Numeral.text, Numeral.fractionText, Numeral.exponentText, integerText]
    | cons d more => simp [Numeral.text, Numeral.fractionText, Numeral.exponentText, integerText]

theorem numeral_sound (hne : ds ≠ []) (hdigit : ∀ c ∈ ds, isDigit c = true) :
    (l.numeral ds top).Sound := by
  have hzeros : ∀ n, ∀ c ∈ List.replicate n '0', isDigit c = true := by
    intro n c hc
    rw [(List.mem_replicate.1 hc).2]
    decide
  have htake : ∀ n, 0 < n → ds.take n ≠ [] := by
    intro n hn hnil
    rcases List.take_eq_nil_iff.1 hnil with hzero | hempty
    · omega
    · exact hne hempty
  have hfront : ∀ n, ∀ c ∈ ds.take n, isDigit c = true :=
    fun n c hc => hdigit c (List.mem_of_mem_take hc)
  have hbehind : ∀ n, ∀ c ∈ ds.drop n, isDigit c = true :=
    fun n c hc => hdigit c (List.mem_of_mem_drop hc)
  unfold numeral
  dsimp only
  split_ifs with hpositional hlow hshort hzero
  · exact ⟨by simp, hzeros 1, List.forall_mem_append.2 ⟨hzeros _, hdigit⟩⟩
  · exact ⟨by simp [hne], List.forall_mem_append.2 ⟨hdigit, hzeros _⟩, hzeros 1⟩
  · exact ⟨by simp [hne], List.forall_mem_append.2 ⟨hdigit, hzeros _⟩, by simp⟩
  · exact ⟨htake _ (by omega), hfront _, hbehind _⟩
  · exact ⟨htake 1 (by decide), hfront 1, hbehind 1⟩

/-- What a layout writes of few digits with a small exponent fits. -/
theorem numeral_fits {k : Nat} (hk : k < 1000000) (hlength : ds.length ≤ k) (hlow : -(k : Int) ≤ top)
    (hhigh : top ≤ k) : (l.numeral ds top).Fits := by
  -- Whichever form is chosen, the exponent is none or `top` and the fraction at most twice as long.
  have hsmall : ∀ n : Numeral, n.exponent.getD 0 = 0 ∨ n.exponent.getD 0 = top →
      n.fraction.length ≤ 2 * k + 1 → n.Fits := by
    intro n hexponent hfraction
    constructor
    · unfold FitsInt64 leastInt64 greatestInt64
      omega
    · unfold FitsInt64 leastInt64 greatestInt64
      omega
  unfold numeral
  dsimp only
  split_ifs with hpositional hneg hshort hzero
  · apply hsmall _ (.inl rfl)
    simp only [List.length_append, List.length_replicate]
    omega
  · apply hsmall _ (.inl rfl)
    simp only [List.length_singleton]
    omega
  · apply hsmall _ (.inl rfl)
    exact Nat.zero_le _
  · apply hsmall _ (.inl rfl)
    simp only [List.length_drop]
    omega
  · apply hsmall _ (.inr rfl)
    simp only [List.length_drop]
    omega

/-- A finite number is written as a sign and a numeral. -/
theorem exists_numeral {x : Binary64} (h : x.IsFinite) :
    ∃ n : Numeral, n.Sound ∧ n.Fits ∧
      (l.render x).toList = (if x.negative then ['-'] else []) ++ n.text := by
  have hwithin := Shortest.ofMagnitude_within h
  have hlow := hwithin.low
  have hhigh := hwithin.high
  have hwidth : (digits (Shortest.ofMagnitude x).digits).length ≤ 3000 :=
    width_le (by decide) hwithin.digits
  have hne := digits_ne_nil (Shortest.ofMagnitude x).digits
  have hpos := List.length_pos_iff.2 hne
  refine ⟨l.numeral (digits (Shortest.ofMagnitude x).digits)
    ((Shortest.ofMagnitude x).exponent + (digits (Shortest.ofMagnitude x).digits).length - 1),
    ?_, ?_, ?_⟩
  · exact l.numeral_sound hne fun c hc => isDigit_of_mem_digits hc
  · exact l.numeral_fits (k := 6000) (by decide) (by omega) (by omega) (by omega)
  · unfold render
    dsimp only
    rw [h.1, h.2, if_neg Bool.false_ne_true, if_neg Bool.false_ne_true, text_numeral l hne,
      String.toList_append, String.toList_ofList]
    cases x.negative with
    | true => rfl
    | false => rfl

end Layout

end Overlay.Numeric
