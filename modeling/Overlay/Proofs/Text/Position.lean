import Overlay.Text.Bytes
import Overlay.Text.LineIndex
import Overlay.Text.Position

/-!
# Walking over text

* Positions are ordered by line, column and byte, and walking goes up in this order.
* A change of places may go along with every walk (`Pos.Steady`), or with the walks from one place
  (`Pos.SteadyFrom`): those can be told as walks from another place (`Pos.rebase_steadyFrom`).
* `Span.IsStretch` says that a span is that of a stretch of a text: its ends are reached by walking.
* `Pos.IsPlace` says that a place is reached by walking. It is the place of its byte
  (`IsPlace.ofOffset_byte`), and two places in order have a stretch between them (`isStretch_of_le`).
* The range of a stretch cuts that stretch out of its text (`SourceRange.slice?_eq`).
-/

namespace Overlay

namespace Pos

/-! ## Order -/

/-- The order by line, then column, then byte. -/
protected def Le (a b : Pos) : Prop :=
  a.line < b.line ∨ a.line = b.line ∧
    (a.column < b.column ∨ a.column = b.column ∧ a.byte ≤ b.byte)

instance : LE Pos := ⟨Pos.Le⟩

theorem le_def {a b : Pos} : a ≤ b ↔ a.line < b.line ∨ a.line = b.line ∧
    (a.column < b.column ∨ a.column = b.column ∧ a.byte ≤ b.byte) := Iff.rfl

protected theorem le_refl (a : Pos) : a ≤ a := .inr ⟨rfl, .inr ⟨rfl, Nat.le_refl _⟩⟩

protected theorem le_trans {a b c : Pos} (hab : a ≤ b) (hbc : b ≤ c) : a ≤ c := by
  rw [le_def] at *
  omega

/-- Of two places the later one is the second, where they stand in this order. -/
theorem latest_of_le {a b : Pos} (h : a ≤ b) : latest b a = b := by
  unfold latest
  split
  · rfl
  · next hgt =>
    -- Neither is later, so they are one place.
    rw [le_def] at h
    have hsame : a.line = b.line ∧ a.column = b.column ∧ a.byte = b.byte := by
      simp only [Pos.compare, Ordering.then_eq_gt, Nat.compare_eq_gt, Nat.compare_eq_eq, not_or,
        not_and, Nat.not_lt] at hgt
      omega
    cases a
    cases b
    simp_all

/-! ## Walking -/

theorem advance_byte (p : Pos) (c : Char) : (p.advance c).byte = p.byte + c.utf8Size := by
  unfold advance
  split
  · next h =>
    subst h
    rfl
  · rfl

theorem advanceAll_byte (p : Pos) (cs : List Char) :
    (p.advanceAll cs).byte = p.byte + Text.byteLength cs := by
  induction cs generalizing p with
  | nil => rfl
  | cons c cs ih =>
    rw [advanceAll_cons, ih, advance_byte, Text.byteLength_cons, Nat.add_assoc]

theorem le_advance (p : Pos) (c : Char) : p ≤ p.advance c := by
  rw [le_def]
  unfold advance
  split
  · exact .inl (Nat.lt_succ_self _)
  · exact .inr ⟨rfl, .inl (Nat.lt_succ_self _)⟩

theorem le_advanceAll (p : Pos) (cs : List Char) : p ≤ p.advanceAll cs := by
  induction cs generalizing p with
  | nil => exact Pos.le_refl p
  | cons c cs ih => exact Pos.le_trans (le_advance p c) (ih (p.advance c))

theorem line_le_of_le {a b : Pos} (h : a ≤ b) : a.line ≤ b.line := by
  rw [le_def] at h
  omega

/-- The end of a text stands behind all of its bytes. -/
theorem endOf_byte (text : String) : (endOf text).byte = text.utf8ByteSize := by
  have hsize : ∀ cs, (String.ofList cs).utf8ByteSize = Text.byteLength cs := by
    intro cs
    induction cs with
    | nil => rfl
    | cons c cs ih =>
      have hcons : String.ofList (c :: cs) = String.singleton c ++ String.ofList cs := by
        rw [← List.singleton_append, String.ofList_append]
        rfl
      rw [hcons, String.utf8ByteSize_append, String.utf8ByteSize_singleton, ih,
        Text.byteLength_cons]
  rw [endOf, advanceAll_byte, ← hsize, String.ofList_toList]
  exact Nat.zero_add _

end Pos

/-- A change of places that walking goes along with, such as a shift by lines and bytes. -/
def Pos.Steady (g : Pos → Pos) : Prop := ∀ p c, g (p.advance c) = (g p).advance c

theorem Pos.Steady.advanceAll {g : Pos → Pos} (hg : Steady g) (p : Pos) (cs : List Char) :
    g (p.advanceAll cs) = (g p).advanceAll cs := by
  induction cs generalizing p with
  | nil => rfl
  | cons c cs ih => rw [advanceAll_cons, advanceAll_cons, ih, hg]

/-- A change of places that goes along with every walk from `p`. -/
def Pos.SteadyFrom (g : Pos → Pos) (p : Pos) : Prop :=
  ∀ cs, g (p.advanceAll cs) = (g p).advanceAll cs

theorem Pos.Steady.behind {g : Pos → Pos} (hg : Steady g) (p : Pos) : SteadyFrom g p :=
  hg.advanceAll p

theorem Pos.SteadyFrom.advance {g : Pos → Pos} {p : Pos} (hg : SteadyFrom g p) (c : Char) :
    g (p.advance c) = (g p).advance c := hg [c]

theorem Pos.SteadyFrom.behind {g : Pos → Pos} {p : Pos} (hg : SteadyFrom g p) (cs : List Char) :
    SteadyFrom g (p.advanceAll cs) := by
  intro ds
  rw [← advanceAll_append, hg, hg, advanceAll_append]

/-- The place that stands to `r` as `p` stands to `q`. -/
def Pos.rebase (q r p : Pos) : Pos :=
  ⟨r.line + (p.line - q.line),
    if p.line = q.line then r.column + (p.column - q.column) else p.column,
    r.byte + (p.byte - q.byte)⟩

theorem Pos.rebase_self (q r : Pos) : rebase q r q = r := by
  unfold rebase
  rw [if_pos rfl, Nat.sub_self, Nat.sub_self, Nat.sub_self]
  rfl

theorem Pos.rebase_advance {q p : Pos} (hle : q ≤ p) (hbyte : q.byte ≤ p.byte) (r : Pos) (c : Char) :
    rebase q r (p.advance c) = (rebase q r p).advance c := by
  rw [le_def] at hle
  unfold advance
  by_cases hc : c = '\n'
  · -- On a line of its own a place keeps its column.
    have hline : p.line + 1 ≠ q.line := by omega
    simp only [hc, if_true, rebase, if_neg hline, mk.injEq, true_and]
    omega
  · by_cases hline : p.line = q.line
    · simp only [hc, if_false, rebase, if_pos hline, mk.injEq, true_and]
      omega
    · simp only [hc, if_false, rebase, if_neg hline, mk.injEq, true_and]
      omega

/-- Walks from one place can be told as walks from another one. -/
theorem Pos.rebase_steadyFrom (q r : Pos) : SteadyFrom (rebase q r) q := by
  have hwalk : ∀ (cs : List Char) (p : Pos), q ≤ p → q.byte ≤ p.byte →
      rebase q r (p.advanceAll cs) = (rebase q r p).advanceAll cs := by
    intro cs
    induction cs with
    | nil => exact fun _ _ _ => rfl
    | cons c cs ih =>
      intro p hle hbyte
      have hbehind : q.byte ≤ (p.advance c).byte := by
        rw [advance_byte]
        omega
      rw [advanceAll_cons, ih _ (Pos.le_trans hle (le_advance p c)) hbehind,
        rebase_advance hle hbyte, advanceAll_cons]
  exact fun cs => hwalk cs q (Pos.le_refl q) (Nat.le_refl _)

/-! ## Behind a text -/

/-- The place of `p` where `text` stands in front: as many lines and bytes further on. -/
def Pos.behind (text : String) (p : Pos) : Pos :=
  ⟨p.line + text.toList.count '\n', p.column, p.byte + text.utf8ByteSize⟩

theorem Pos.behind_steady (text : String) : Steady (behind text) := by
  intro p c
  unfold behind advance
  split
  · simp only [Nat.add_right_comm]
  · simp only [Nat.add_right_comm]

theorem Pos.advanceAll_line (p : Pos) (cs : List Char) :
    (p.advanceAll cs).line = p.line + cs.count '\n' := by
  induction cs generalizing p with
  | nil => rfl
  | cons c cs ih =>
    rw [advanceAll_cons, ih, List.count_cons]
    unfold advance
    by_cases hc : c = '\n'
    · simp [hc, Nat.add_comm, Nat.add_left_comm]
    · simp [hc]

/-- Behind a text that ends with a line end the first place is the start of a line. -/
theorem Pos.behind_start {text : String} (hend : text.toList.getLast? = some '\n') :
    behind text start = endOf text := by
  have hline := advanceAll_line start text.toList
  have hbyte := endOf_byte text
  have hcolumn : (endOf text).column = 1 := by
    rcases List.getLast?_eq_some_iff.1 hend with ⟨cs, hcs⟩
    rw [endOf, hcs, advanceAll_append]
    rfl
  have hzero : start.byte + text.utf8ByteSize = text.utf8ByteSize := Nat.zero_add _
  rw [behind, hzero, ← hline, ← hbyte]
  exact congrArg (fun column => (⟨(endOf text).line, column, (endOf text).byte⟩ : Pos)) hcolumn.symm

theorem Pos.endOf_append {text : String} (hend : text.toList.getLast? = some '\n') (more : String) :
    endOf (text ++ more) = behind text (endOf more) := by
  rw [endOf, endOf, (behind_steady text).advanceAll, behind_start hend, String.toList_append,
    advanceAll_append]
  rfl

/-- The range where `text` stands in front. -/
def SourceRange.behind (text : String) (r : SourceRange) : SourceRange :=
  ⟨r.filename, r.start.behind text, r.stop.behind text⟩

/-! ## Spans of stretches -/

namespace Span

/-- The span with both ends changed by `g`. -/
def map (g : Pos → Pos) (s : Span) : Span := ⟨g s.start, g s.stop⟩

/-- The span is that of a stretch of the text `cs` that stands at `p`. -/
def IsStretch (p : Pos) (cs : List Char) (s : Span) : Prop :=
  ∃ front inner back, cs = front ++ inner ++ back ∧
    s = ⟨p.advanceAll front, p.advanceAll (front ++ inner)⟩

variable {p : Pos} {cs : List Char} {s : Span}

/-- All of a text is a stretch of it. -/
theorem isStretch_self (p : Pos) (cs : List Char) : IsStretch p cs ⟨p, p.advanceAll cs⟩ :=
  ⟨[], cs, [], by simp, rfl⟩

theorem IsStretch.append_left (xs : List Char) (h : IsStretch (p.advanceAll xs) cs s) :
    IsStretch p (xs ++ cs) s := by
  rcases h with ⟨front, inner, back, rfl, rfl⟩
  refine ⟨xs ++ front, inner, back, by simp, ?_⟩
  simp only [Pos.advanceAll_append, List.append_assoc]

theorem IsStretch.append_right (ys : List Char) (h : IsStretch p cs s) :
    IsStretch p (cs ++ ys) s := by
  rcases h with ⟨front, inner, back, rfl, rfl⟩
  exact ⟨front, inner, back ++ ys, by simp, rfl⟩

theorem IsStretch.le (h : IsStretch p cs s) : s.start ≤ s.stop := by
  rcases h with ⟨front, inner, back, rfl, rfl⟩
  simp only [Pos.advanceAll_append]
  exact Pos.le_advanceAll _ _

theorem IsStretch.start_byte_le (h : IsStretch p cs s) : s.start.byte ≤ s.stop.byte := by
  rcases h with ⟨front, inner, back, rfl, rfl⟩
  simp only [Pos.advanceAll_byte, Text.byteLength_append]
  omega

theorem IsStretch.stop_byte_le (h : IsStretch p cs s) :
    s.stop.byte ≤ p.byte + Text.byteLength cs := by
  rcases h with ⟨front, inner, back, rfl, rfl⟩
  simp only [Pos.advanceAll_byte, Text.byteLength_append]
  omega

end Span

/-! ## Places -/

namespace Pos

/-- The place is in front of a character of the text, or at its end. -/
def IsPlace (text : String) (p : Pos) : Prop :=
  ∃ front back, text.toList = front ++ back ∧ p = Pos.start.advanceAll front

variable {text : String} {p q : Pos}

theorem isPlace_start (text : String) : IsPlace text .start := ⟨[], text.toList, rfl, rfl⟩

theorem isPlace_endOf (text : String) : IsPlace text (.endOf text) :=
  ⟨text.toList, [], (List.append_nil _).symm, rfl⟩

theorem IsPlace.byte_le (h : IsPlace text p) : p.byte ≤ text.utf8ByteSize := by
  rcases h with ⟨front, back, htext, rfl⟩
  rw [← endOf_byte, endOf, htext, advanceAll_append, advanceAll_byte _ back]
  exact Nat.le_add_right _ _

/-- Walking to the byte where a front of the text ends stops there. -/
theorem walkToOffset_append (q : Pos) (front back : List Char) :
    q.walkToOffset (q.advanceAll front).byte (front ++ back) = q.advanceAll front := by
  induction front generalizing q with
  | nil =>
    cases back with
    | nil => rfl
    | cons c cs =>
      have hpos := c.utf8Size_pos
      rw [List.nil_append, advanceAll_nil, walkToOffset, if_pos (by omega)]
  | cons c cs ih =>
    have hle : (q.advance c).byte ≤ ((q.advance c).advanceAll cs).byte := by
      rw [advanceAll_byte]
      exact Nat.le_add_right _ _
    rw [advance_byte] at hle
    rw [List.cons_append, advanceAll_cons, walkToOffset, if_neg (by omega), ih]

/-- A place of a text is the one of its byte. -/
theorem IsPlace.ofOffset_byte (h : IsPlace text p) : ofOffset text p.byte = p := by
  rcases h with ⟨front, back, htext, rfl⟩
  rw [ofOffset, htext, walkToOffset_append]

theorem isPlace_of_isStretch {s : Span} (h : s.IsStretch .start text.toList) :
    IsPlace text s.start ∧ IsPlace text s.stop := by
  rcases h with ⟨front, inner, back, htext, rfl⟩
  exact ⟨⟨front, inner ++ back, by rw [htext, List.append_assoc], rfl⟩,
    ⟨front ++ inner, back, htext, rfl⟩⟩

/-- Later characters make a later place. -/
theorem advanceAll_not_le (p : Pos) {cs : List Char} (hcs : cs ≠ []) : ¬p.advanceAll cs ≤ p := by
  intro hle
  have hbyte : p.byte < (p.advanceAll cs).byte := by
    rcases List.exists_cons_of_ne_nil hcs with ⟨c, cs, rfl⟩
    have hpos := c.utf8Size_pos
    rw [advanceAll_byte, Text.byteLength_cons]
    omega
  have hback := le_advanceAll p cs
  rw [le_def] at hle hback
  omega

/-- Two places of a text in their order have a stretch of it between them. -/
theorem isStretch_of_le (hp : IsPlace text p) (hq : IsPlace text q) (hle : p ≤ q) :
    Span.IsStretch .start text.toList ⟨p, q⟩ := by
  rcases hp with ⟨front, back, htext, rfl⟩
  rcases hq with ⟨front', back', htext', rfl⟩
  rcases List.append_eq_append_iff.1 (htext.symm.trans htext') with
    ⟨inner, rfl, -⟩ | ⟨inner, rfl, -⟩
  · exact ⟨front, inner, back', htext', rfl⟩
  · -- The second place stands in front of the first one only if they are the same.
    rcases inner with - | ⟨c, cs⟩
    · rw [List.append_nil] at htext ⊢
      exact ⟨front', [], back, by rw [htext, List.append_nil], by rw [List.append_nil]⟩
    · rw [advanceAll_append] at hle
      exact absurd hle (advanceAll_not_le _ (List.cons_ne_nil _ _))

/-- Of two places of a text that stand in order, the first one has the smaller byte. -/
theorem IsPlace.byte_mono (hp : IsPlace text p) (hq : IsPlace text q) (hle : p ≤ q) :
    p.byte ≤ q.byte := (isStretch_of_le hp hq hle).start_byte_le

/-- The later of two places is one of them, and the second one stands in front of it. -/
theorem latest_cases (a b : Pos) : (latest a b = a ∧ b ≤ a) ∨ latest a b = b := by
  unfold latest
  split
  · next hgt =>
    left
    simp only [Pos.compare, Ordering.then_eq_gt, Nat.compare_eq_gt, Nat.compare_eq_eq] at hgt
    have hle : b ≤ a := by
      rw [le_def]
      omega
    exact ⟨rfl, hle⟩
  · exact .inr rfl

end Pos

/-! ## Slices -/

theorem Text.splitAtByte?_append (xs ys : List Char) :
    splitAtByte? (xs ++ ys) (byteLength xs) = some (xs, ys) := by
  induction xs with
  | nil => rw [List.nil_append, byteLength_nil, splitAtByte?]
  | cons c cs ih =>
    have hpos := c.utf8Size_pos
    rw [List.cons_append, byteLength_cons]
    rcases hsize : c.utf8Size + byteLength cs with - | n
    · omega
    · have hrest : n + 1 - c.utf8Size = byteLength cs := by omega
      rw [splitAtByte?, if_neg (by omega), hrest, ih]
      rfl

/-- The range of a part of a text is that part. -/
theorem SourceRange.slice?_eq {text filename : String} {front part back : List Char}
    (h : text.toList = front ++ part ++ back) :
    (SourceRange.mk filename (Pos.start.advanceAll front)
      (Pos.start.advanceAll (front ++ part))).slice? text = some (String.ofList part) := by
  have hstart : (Pos.start.advanceAll front).byte = Text.byteLength front := by
    rw [Pos.advanceAll_byte]
    exact Nat.zero_add _
  have hstop : (Pos.start.advanceAll (front ++ part)).byte =
      Text.byteLength front + Text.byteLength part := by
    rw [Pos.advanceAll_byte, Text.byteLength_append]
    exact Nat.zero_add _
  have hslice : Text.sliceBytes? text.toList (Text.byteLength front)
      (Text.byteLength front + Text.byteLength part) = some part := by
    have horder : ¬Text.byteLength front + Text.byteLength part < Text.byteLength front := by omega
    rw [h, List.append_assoc]
    simp [Text.sliceBytes?, horder, Text.splitAtByte?_append]
  simp only [slice?, hstart, hstop, hslice, Option.map_some]

end Overlay
