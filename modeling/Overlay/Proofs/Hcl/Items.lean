import Overlay.Proofs.Hcl.Derivation
import Overlay.Proofs.Hcl.Entries

/-!
# Items in their places

Where a text is read as a body without diagnostics, its items stand in the text as one expects.

* `Body.parse_items_apart`: each item is a derivation of tokens inside its span, and no item starts
  before those in front of it have ended.
* Every part of an item that has a span of its own has the ends of tokens of the item
  (`IsItem.header_ends`, `IsItem.inner_ends`).
-/

namespace Overlay

/-- Whether the place is between the ends of the span, or one of them. -/
def Span.Holds (s : Span) (p : Pos) : Prop := s.start ≤ p ∧ p ≤ s.stop

namespace Hcl

/-! ## Tokens in order -/

namespace Tokens

variable {p : Pos} {ts us vs : List Token}

/-- Some of the tokens in order are in order. -/
theorem InOrder.sublist (h : InOrder p ts) (hsub : us.Sublist ts) : InOrder p us := by
  induction hsub generalizing p with
  | slnil => trivial
  | cons t _ ih => exact ih (h.2.2.2.of_le (Pos.le_trans h.1 h.2.1))
  | cons_cons t _ ih => exact ⟨h.1, h.2.1, h.2.2.1, ih h.2.2.2⟩

theorem InOrder.le_stopAfter (h : InOrder p ts) :
    p ≤ stopAfter p ts ∧ ∀ t ∈ ts, t.span.stop ≤ stopAfter p ts := by
  induction ts generalizing p with
  | nil => exact ⟨Pos.le_refl p, fun _ ht => absurd ht List.not_mem_nil⟩
  | cons t ts ih =>
    rcases h with ⟨hstart, hspan, -, hrest⟩
    rcases ih hrest with ⟨hlast, hall⟩
    exact ⟨Pos.le_trans hstart (Pos.le_trans hspan hlast), List.forall_mem_cons.2 ⟨hlast, hall⟩⟩

/-- Tokens in order stand in the span from the first to the last of them. -/
theorem InOrder.endsIn (h : InOrder p ts) : EndsIn (spanOf ts).Holds ts := by
  cases ts with
  | nil => exact fun _ ht => absurd ht List.not_mem_nil
  | cons t ts =>
    rcases h with ⟨-, hspan, -, hrest⟩
    rcases hrest.le_stopAfter with ⟨hlast, hall⟩
    refine endsIn_cons.2 ⟨⟨⟨Pos.le_refl _, Pos.le_trans hspan hlast⟩, ⟨hspan, hlast⟩⟩, ?_⟩
    intro u hu
    have hstart : t.span.start ≤ u.span.start :=
      Pos.le_trans hspan (hrest.pairwise.1 u hu)
    have hordered : u.span.start ≤ u.span.stop :=
      (hrest.sublist (List.singleton_sublist.2 hu)).2.1
    have hstop := hall u hu
    exact ⟨⟨hstart, Pos.le_trans hordered hstop⟩, ⟨Pos.le_trans hstart hordered, hstop⟩⟩

theorem spanOf_concat_stop (us : List Token) (t : Token) :
    (spanOf (us ++ [t])).stop = t.span.stop := by
  cases us with
  | nil => rfl
  | cons u us => simp

/-- Tokens with a token in between: those behind it start where those in front of it have ended. -/
theorem InOrder.apart {t : Token} (h : InOrder p (us ++ t :: vs)) (hus : us ≠ []) (hvs : vs ≠ []) :
    ¬(spanOf vs).start ≤ (spanOf us).stop := by
  rcases List.eq_nil_or_concat' us with rfl | ⟨us, u, rfl⟩
  · exact absurd rfl hus
  rcases List.exists_cons_of_ne_nil hvs with ⟨v, vs, rfl⟩
  rw [spanOf_concat_stop, spanOf_cons]
  have hsub : [u, t, v].Sublist (us ++ [u] ++ t :: v :: vs) := by
    rw [List.append_assoc]
    refine List.Sublist.trans ?_ (List.sublist_append_right us _)
    simp
  rcases h.sublist hsub with ⟨-, -, -, hfront, hspan, hbyte, hback, -⟩
  intro hle
  -- The token in between would end where it starts, but it has a byte.
  have hempty : t.span.stop ≤ t.span.start := Pos.le_trans hback (Pos.le_trans hle hfront)
  rw [Pos.le_def] at hspan hempty
  omega

end Tokens

/-! ## Lines in order -/

/-- What holds between items with a line end between them, holds between the items of lines that
stand in order. -/
theorem IsLines.pairwise_inOrder {α : Type} {P : List Token → α → Prop} {Q : α → α → Prop}
    {ts : List Token} {items : List α} {p : Pos}
    (hQ : ∀ us a t vs b, P us a → P vs b → Tokens.InOrder p (us ++ t :: vs) → Q a b)
    (h : IsLines P ts items) (hts : Tokens.InOrder p ts) : items.Pairwise Q := by
  induction h with
  | none => exact .nil
  | last => exact List.pairwise_singleton _ _
  | @cons as ts us t a more has ha ht hmore ih =>
    refine .cons ?_ (ih (hts.sublist ?_))
    · intro b hb
      rcases hmore.exists_infix b hb with ⟨vs, hvs, hb⟩
      refine hQ ts a t vs b ha hb (hts.sublist ?_)
      rw [List.append_assoc]
      exact ((List.append_sublist_append_left ts).2 (hvs.sublist.cons_cons t)).trans
        (List.sublist_append_right as _)
    · exact (List.sublist_cons_self t us).trans (List.sublist_append_right (as ++ ts) _)

/-! ## Parts of an item -/

section

variable {P : Pos → Prop} {ts ls : List Token} {x : Item} {h : Header} {items : List Item}
  {labels : List Label} {bodySpan span : Span}

theorem IsItem.ne_nil (hx : IsItem ts x) : ts ≠ [] := by
  rcases opens_isItem ts x hx with ⟨t, us, rfl, -⟩
  exact List.cons_ne_nil _ _

theorem IsItem.span_eq (hx : IsItem ts x) : x.span = spanOf ts := by
  cases hx with
  | attr ht hq he =>
    rcases he.exists_cons with ⟨u, us, rfl, -⟩
    simp [Item.span, Attribute.span, Span.upTo, he.span_eq]
  | block => rfl

theorem IsLabels.ends (hlabels : IsLabels ls labels) (hls : EndsIn P ls) :
    ∀ label ∈ labels, P label.span.start ∧ P label.span.stop := by
  induction hlabels with
  | none => exact fun _ h => absurd h List.not_mem_nil
  | cons _ _ ih =>
    rcases endsIn_cons.1 hls with ⟨ht, hls⟩
    exact List.forall_mem_cons.2 ⟨ht, ih hls⟩

/-- What stands in front of the body of a block has the ends of its tokens. -/
theorem IsItem.header_ends (hx : IsItem ts (.block h items bodySpan span)) (hts : EndsIn P ts) :
    (P h.kindSpan.start ∧ P h.kindSpan.stop) ∧ (P h.span.start ∧ P h.span.stop) ∧
      ∀ label ∈ h.labels, P label.span.start ∧ P label.span.stop := by
  cases hx with
  | block ht hlabels ho hitems hc =>
    rw [List.append_assoc, List.cons_append] at hts
    rcases endsIn_cons.1 hts with ⟨hkind, hrest⟩
    have hall := hlabels.ends (endsIn_append.1 hrest).1
    refine ⟨hkind, ?_, hall⟩
    unfold Header.span
    split
    · next label hlast => exact ⟨hkind.1, (hall label (List.mem_of_getLast? hlast)).2⟩
    · exact hkind

/-- The items of a block are derivations of some of its tokens. -/
theorem IsItem.inner_ends (hx : IsItem ts (.block h items bodySpan span)) (hts : EndsIn P ts) :
    ∀ y ∈ items, ∃ us, IsItem us y ∧ EndsIn P us := by
  cases hx with
  | block ht hlabels ho hitems hc =>
    intro y hy
    rcases hitems.exists_infix y hy with ⟨us, hus, hy⟩
    refine ⟨us, hy, fun t ht => hts t ?_⟩
    simp only [List.mem_append, List.mem_cons]
    exact .inl (.inr (.inr (hus.subset ht)))

end

/-! ## Items apart -/

namespace Item

variable {x y : Item}

/-- Whether the item is a derivation of tokens with ends between those of its span. -/
def Placed (x : Item) : Prop := ∃ ts, IsItem ts x ∧ EndsIn x.span.Holds ts

/-- Whether the second item does not start before the first one has ended. -/
def Apart (x y : Item) : Prop := ¬y.span.start ≤ x.span.stop

/-- Items apart have no place in common. -/
theorem Apart.not_holds {p : Pos} (h : x.Apart y) (hx : x.span.Holds p) : ¬y.span.Holds p :=
  fun hy => h (Pos.le_trans hy.1 hx.2)

theorem Placed.holds_start (hx : x.Placed) : x.span.Holds x.span.start := by
  rcases hx with ⟨ts, hitem, hts⟩
  rcases List.exists_mem_of_ne_nil ts hitem.ne_nil with ⟨t, ht⟩
  have hstart := (hts t ht).1
  exact ⟨Pos.le_refl _, Pos.le_trans hstart.1 hstart.2⟩

/-- Items apart have different spans. -/
theorem Apart.span_ne (h : x.Apart y) (hx : x.Placed) : x.span ≠ y.span := by
  intro hsame
  have hstart := hx.holds_start
  exact h.not_holds hstart (hsame ▸ hstart)

end Item

/-! ## Whole texts -/

/-- The items of a text that is read without diagnostics are placed, one behind the other. -/
theorem Body.parse_items_apart {text filename : String}
    (hclean : (Body.parse text filename).diagnostics = []) :
    (∀ x ∈ (Body.parse text filename).tree.items, x.Placed) ∧
      (Body.parse text filename).tree.items.Pairwise Item.Apart := by
  rw [Body.parse_diagnostics, List.append_eq_nil_iff, List.map_eq_nil_iff,
    List.map_eq_nil_iff] at hclean
  rcases Parser.body_leaves hclean.2 with ⟨ts, hrest, -, hnil, items, hitems, hbody⟩
  rw [hnil, List.append_nil] at hrest
  have htree : (Body.parse text filename).tree.items = items := congrArg Body.items hbody
  have horder : Tokens.InOrder .start ts := by
    have hall := Tokens.ofText_inOrder text
    rwa [show (Tokens.ofText text).tokens = ts from hrest] at hall
  rw [htree]
  constructor
  · intro x hx
    rcases hitems.exists_infix x hx with ⟨us, hus, hx⟩
    refine ⟨us, hx, ?_⟩
    rw [hx.span_eq]
    exact (horder.sublist hus.sublist).endsIn
  · refine hitems.pairwise_inOrder (fun us x t vs y hx hy hbetween => ?_) horder
    rw [Item.Apart, hx.span_eq, hy.span_eq]
    exact hbetween.apart hx.ne_nil hy.ne_nil

end Hcl

end Overlay
