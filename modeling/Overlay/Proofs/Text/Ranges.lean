import Mathlib.Tactic.SplitIfs
import Overlay.Text.Ranges

/-!
# Character sets given by ranges

A look-up that stops at the first range behind a character finds every range that holds it, since
the ranges ascend (`Ranges.contains_iff`). So sets whose ranges do not meet have no character in
common (`Ranges.contains_eq_false`).
-/

namespace Overlay.Text

variable {floor n : Nat} {rs : List (Nat × Nat)} {c : Char}

theorem ascends_cons {r : Nat × Nat} :
    ascends floor (r :: rs) = true ↔ floor ≤ r.1 ∧ r.1 ≤ r.2 ∧ ascends (r.2 + 1) rs = true := by
  simp [ascends, and_assoc]

/-- Ranges that ascend from `floor` do not start in front of it. -/
theorem le_of_ascends (h : ascends floor rs = true) : ∀ r ∈ rs, floor ≤ r.1 := by
  induction rs generalizing floor with
  | nil => simp
  | cons r rs ih =>
    rcases ascends_cons.1 h with ⟨hfloor, hrange, hrest⟩
    refine List.forall_mem_cons.2 ⟨hfloor, fun s hs => ?_⟩
    have := ih hrest s hs
    omega

namespace Ranges

theorem holds_iff (h : ascends floor rs = true) :
    holds rs n = true ↔ ∃ r ∈ rs, r.1 ≤ n ∧ n ≤ r.2 := by
  induction rs generalizing floor with
  | nil => simp [holds]
  | cons r rs ih =>
    rcases ascends_cons.1 h with ⟨-, hrange, hrest⟩
    have hbehind := le_of_ascends hrest
    simp only [holds, List.mem_cons, exists_eq_or_imp]
    split_ifs with hlow hhigh
    · -- The character is in front of this range, so it is in front of all others.
      refine iff_of_false (by simp) ?_
      rintro (⟨hr, -⟩ | ⟨s, hs, hsn, -⟩)
      · omega
      · have := hbehind s hs
        omega
    · exact iff_of_true rfl (.inl ⟨Nat.le_of_not_lt hlow, hhigh⟩)
    · rw [ih hrest]
      exact ⟨.inr, fun hor => hor.resolve_left fun hr => hhigh hr.2⟩

theorem contains_iff {rs : Ranges} :
    rs.contains c = true ↔ ∃ r ∈ rs.ranges, r.1 ≤ c.toNat ∧ c.toNat ≤ r.2 :=
  holds_iff rs.ascending

/-- Sets of characters whose ranges do not meet have no character in common. -/
theorem contains_eq_false {rs ss : Ranges}
    (hapart : ∀ r ∈ rs.ranges, ∀ s ∈ ss.ranges, r.2 < s.1 ∨ s.2 < r.1)
    (h : ss.contains c = true) : rs.contains c = false := by
  refine Bool.eq_false_iff.2 fun hr => ?_
  rcases contains_iff.1 hr with ⟨r, hr, hlow, hhigh⟩
  rcases contains_iff.1 h with ⟨s, hs, hlow', hhigh'⟩
  have := hapart r hr s hs
  omega

end Ranges

end Overlay.Text
