import Mathlib.Data.List.Pairwise
import Mathlib.Tactic.ByContra
import Overlay.Variable.Override

/-!
# Sets of overrides

What an addition to a set keeps and reports.

* `insert` refuses a second override of a variable. `add` leaves out one from the same source
  without a word and reports one from another source; in both cases the first one stays.
* A set to which overrides are only added holds no two of one variable (`Distinct`), and
  `add_of_none` and `add_of_some` say all that an addition to such a set does.
* `get?_add`: an addition gives a variable an override if it has none, and changes no other.
* A run of additions (`addAll`) leaves every variable its first override (`get?_addAll`) and reports
  all those of it from other sources (`addAll_reports`).
-/

namespace Overlay.OverrideSet

variable {set next : OverrideSet} {o first : Override} {target : Target} {d : Diagnostic}

theorem insert_eq_ok (h : set.insert o = .ok next) :
    set.get? o.target = none ∧ next = ⟨set.entries ++ [o]⟩ := by
  unfold insert at h
  split at h
  · simp at h
  · next hnone => exact ⟨hnone, by simpa using h.symm⟩

theorem insert_eq_error (h : set.insert o = .error d) :
    ∃ first, set.get? o.target = some first ∧ d = first.duplicate o := by
  unfold insert at h
  split at h
  · next first hfirst => exact ⟨first, hfirst, by simpa using h.symm⟩
  · simp at h

/-! ## What a set holds of a variable -/

/-- No two overrides of a set are of one variable. -/
def Distinct (set : OverrideSet) : Prop := set.entries.Pairwise fun a b => a.target ≠ b.target

theorem distinct_empty : Distinct empty := List.Pairwise.nil

theorem mem_of_get? (h : set.get? target = some first) :
    first ∈ set.entries ∧ first.target = target :=
  ⟨List.mem_of_find?_eq_some h, by simpa using List.find?_some h⟩

theorem ne_of_get?_eq_none (h : set.get? target = none) : ∀ e ∈ set.entries, e.target ≠ target := by
  intro e he
  simpa using List.find?_eq_none.1 h e he

/-- In a distinct set, the override of a variable is the only one. -/
theorem Distinct.eq_of_get? (hset : set.Distinct) (h : set.get? target = some first) :
    ∀ e ∈ set.entries, e.target = target → e = first := by
  intro e he htarget
  rcases mem_of_get? h with ⟨hfirst, hsame⟩
  have hsymm : Std.Symm fun a b : Override => a.target ≠ b.target := ⟨fun _ _ h => h.symm⟩
  by_contra hne
  exact List.Pairwise.forall hset he hfirst hne (htarget.trans hsame.symm)

/-! ## Additions -/

/-- The first override of a variable is taken. -/
theorem add_of_none (h : set.get? o.target = none) : set.add o = (⟨set.entries ++ [o]⟩, []) := by
  have hheld : set.holdsFromSource o = false := by
    rw [holdsFromSource, List.any_eq_false]
    intro e he
    simp [ne_of_get?_eq_none h e he]
  simp [add, hheld, insert, h]

/-- Any other override of a variable is left out, and reported if it is from another source. -/
theorem add_of_some (hset : set.Distinct) (h : set.get? o.target = some first) :
    set.add o = (set, if first.source = o.source then [] else [first.duplicate o]) := by
  rcases mem_of_get? h with ⟨hmem, htarget⟩
  by_cases hsource : first.source = o.source
  · have hheld : set.holdsFromSource o = true := by
      rw [holdsFromSource, List.any_eq_true]
      exact ⟨first, hmem, by simp [htarget, hsource]⟩
    simp [add, hheld, hsource]
  · have hheld : set.holdsFromSource o = false := by
      rw [holdsFromSource, List.any_eq_false]
      intro e he hsame
      simp only [Bool.and_eq_true, decide_eq_true_eq] at hsame
      rw [hset.eq_of_get? h e he hsame.1] at hsame
      exact hsource hsame.2
    simp [add, hheld, insert, h, hsource]

theorem distinct_add (hset : set.Distinct) (o : Override) : (set.add o).1.Distinct := by
  cases h : set.get? o.target with
  | none =>
    rw [add_of_none h]
    refine List.pairwise_append.2 ⟨hset, List.pairwise_singleton _ _, ?_⟩
    intro e he x hx
    rw [List.mem_singleton.1 hx]
    exact ne_of_get?_eq_none h e he
  | some first =>
    rw [add_of_some hset h]
    exact hset

theorem get?_add (hset : set.Distinct) (o : Override) (target : Target) :
    (set.add o).1.get? target =
      (set.get? target).or (if o.target = target then some o else none) := by
  cases h : set.get? o.target with
  | none =>
    rw [add_of_none h, get?, List.find?_append, ← get?]
    by_cases htarget : o.target = target <;> simp [htarget]
  | some first =>
    rw [add_of_some hset h]
    by_cases htarget : o.target = target
    · rw [← htarget, h]
      rfl
    · simp [htarget]

/-- The override that a variable has stays. -/
theorem get?_add_of_some (hset : set.Distinct) (h : set.get? target = some first) (o : Override) :
    (set.add o).1.get? target = some first := by
  rw [get?_add hset, h]
  rfl

/-- What an addition reports, told from the override that its variable has behind it. -/
theorem add_reports (hset : set.Distinct) (h : (set.add o).1.get? o.target = some first)
    (hsource : first.source ≠ o.source) : (set.add o).2 = [first.duplicate o] := by
  cases hheld : set.get? o.target with
  | none =>
    -- The first override of a variable would be its own rival.
    have hself : o = first := by simpa [get?_add hset, hheld] using h
    exact absurd (congrArg Override.source hself.symm) hsource
  | some e =>
    have hfirst : e = first := by simpa [get?_add_of_some hset hheld] using h
    rw [add_of_some hset hheld, hfirst, if_neg hsource]

/-- An addition from the source of the override that its variable has reports nothing. -/
theorem add_silent (hset : set.Distinct)
    (h : ∀ e, set.get? o.target = some e → e.source = o.source) :
    (set.add o).2 = [] := by
  cases hheld : set.get? o.target with
  | none => rw [add_of_none hheld]
  | some first => rw [add_of_some hset hheld, if_pos (h first hheld)]

/-! ## Runs of additions -/

section Runs

variable {os : List Override}

theorem addAll_cons (set : OverrideSet) (o : Override) (os : List Override) :
    set.addAll (o :: os) =
      (((set.add o).1.addAll os).1, (set.add o).2 ++ ((set.add o).1.addAll os).2) := rfl

theorem addAll_append (set : OverrideSet) (xs ys : List Override) :
    set.addAll (xs ++ ys) =
      (((set.addAll xs).1.addAll ys).1, (set.addAll xs).2 ++ ((set.addAll xs).1.addAll ys).2) := by
  induction xs generalizing set with
  | nil => rfl
  | cons o os ih => simp only [List.cons_append, addAll_cons, ih, List.append_assoc]

theorem distinct_addAll (hset : set.Distinct) (os : List Override) :
    (set.addAll os).1.Distinct := by
  induction os generalizing set with
  | nil => exact hset
  | cons o os ih => exact ih (distinct_add hset o)

/-- Behind a run a variable has the override that it had, or else the first one of the run. -/
theorem get?_addAll (hset : set.Distinct) (os : List Override) (target : Target) :
    (set.addAll os).1.get? target =
      (set.get? target).or (os.find? fun o => o.target = target) := by
  induction os generalizing set with
  | nil => simp [addAll]
  | cons o os ih =>
    have hrest := ih (distinct_add hset o)
    rw [get?_add hset, Option.or_assoc] at hrest
    rw [addAll_cons, hrest]
    by_cases htarget : o.target = target <;> simp [htarget]

/-- What a run reports, told from the overrides that variables have behind it. -/
theorem addAll_reports (hset : set.Distinct) (ho : o ∈ os)
    (h : (set.addAll os).1.get? o.target = some first) (hsource : first.source ≠ o.source) :
    first.duplicate o ∈ (set.addAll os).2 := by
  induction os generalizing set with
  | nil => cases ho
  | cons x os ih =>
    have hnext := distinct_add hset x
    rcases List.mem_cons.1 ho with rfl | ho
    · -- The override that the variable has behind this step stays to the end.
      have hsome : ∃ e, (set.add o).1.get? o.target = some e := by
        rw [get?_add hset]
        cases set.get? o.target with
        | none => exact ⟨o, by simp⟩
        | some e => exact ⟨e, rfl⟩
      rcases hsome with ⟨e, he⟩
      have hkept : e = first := by
        rw [addAll_cons, get?_addAll hnext, he] at h
        simpa using h
      rw [addAll_cons, add_reports hset (hkept ▸ he) hsource]
      exact List.mem_cons_self
    · exact List.mem_append_right _ (ih hnext ho h)

end Runs

end Overlay.OverrideSet
