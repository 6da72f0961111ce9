import Mathlib.Data.List.Basic
import Mathlib.Data.List.Forall2
import Overlay.Proofs.Variable.OverrideSet

/-!
# Merges of sets of overrides

What a merge keeps, adds and reports, for all sets that are made of the empty one.

* `Made`: the sets that insertions and merges make. No two overrides of such a set are of one
  variable (`Made.distinct`).
* A run looks at the set that it is itself extending. If its overrides are of different variables,
  none of them meets what another one added (`addAll_eq`): the run adds the overrides that the set
  in front of it lacks, and reports the conflicts with that set.
* `merge_self` and `merge_again`: a set is merged with itself in silence, and what was merged once
  is not added again.
-/

namespace Overlay.OverrideSet

variable {set other next : OverrideSet} {o first : Override} {os : List Override}

/-! ## Sets that are made step by step -/

/-- Whether a set is made of the empty one by insertions and merges. An insertion that is refused
leaves the set as it is. -/
inductive Made : OverrideSet → Prop where
  | empty : Made empty
  | insert {set next : OverrideSet} {o : Override} (hset : Made set) (h : set.insert o = .ok next) :
    Made next
  | merge {set other : OverrideSet} (hset : Made set) (hother : Made other) :
    Made (set.merge other).1

/-- No two overrides of a set that is made are of one variable. -/
theorem Made.distinct (h : Made set) : set.Distinct := by
  induction h with
  | empty => exact distinct_empty
  | @insert set next o _ h ih =>
    -- What is inserted would be added, too.
    rcases insert_eq_ok h with ⟨hnone, rfl⟩
    have hadded := distinct_add ih o
    rwa [add_of_none hnone] at hadded
  | @merge set other _ _ ih _ => exact distinct_addAll ih other.entries

/-! ## New overrides and conflicts -/

/-- Whether the set has no override of the variable that `o` is of. -/
def lacks (set : OverrideSet) (o : Override) : Bool := set.get? o.target = none

/-- Whether the set has an override of the variable that `o` is of, from another source. -/
def rivals (set : OverrideSet) (o : Override) : Bool :=
  (set.get? o.target).any fun first => first.source ≠ o.source

/-- What the set reports of an override that it has a rival of. -/
def report? (set : OverrideSet) (o : Override) : Option Diagnostic :=
  if set.rivals o then (set.get? o.target).map fun first => first.duplicate o else none

theorem lacks_congr (h : next.get? o.target = set.get? o.target) : next.lacks o = set.lacks o := by
  unfold lacks
  rw [h]

theorem report?_congr (h : next.get? o.target = set.get? o.target) :
    next.report? o = set.report? o := by
  unfold report? rivals
  rw [h]

/-- All that one addition does. -/
theorem add_eq (hset : set.Distinct) (o : Override) :
    set.add o = (⟨set.entries ++ [o].filter set.lacks⟩, (set.report? o).toList) := by
  cases h : set.get? o.target with
  | none =>
    rw [add_of_none h]
    simp [lacks, report?, rivals, h]
  | some first =>
    rw [add_of_some hset h]
    by_cases hsource : first.source = o.source
    · simp [lacks, report?, rivals, h, hsource]
    · simp [lacks, report?, rivals, h, hsource]

/-- All that a run of overrides of different variables does. The induction is on the run; an
override changes nothing for those behind it, because they are of other variables. -/
theorem addAll_eq (hset : set.Distinct) (hos : os.Pairwise fun a b => a.target ≠ b.target) :
    set.addAll os = (⟨set.entries ++ os.filter set.lacks⟩, os.filterMap set.report?) := by
  induction os generalizing set with
  | nil => simp [addAll]
  | cons o os ih =>
    rcases List.pairwise_cons.1 hos with ⟨hne, hos⟩
    have hsame : ∀ x ∈ os, (set.add o).1.get? x.target = set.get? x.target := by
      intro x hx
      rw [get?_add hset, if_neg (hne x hx), Option.or_none]
    have hlacks : os.filter (set.add o).1.lacks = os.filter set.lacks :=
      List.filter_congr fun x hx => lacks_congr (hsame x hx)
    have hreports : os.filterMap (set.add o).1.report? = os.filterMap set.report? :=
      List.filterMap_congr fun x hx => report?_congr (hsame x hx)
    rw [addAll_cons, ih (distinct_add hset o) hos, hlacks, hreports, add_eq hset o,
      List.append_assoc, ← List.filter_append, List.singleton_append, List.filterMap_cons]
    cases set.report? o with
    | none => rfl
    | some d => rfl

/-- The reports of a run are those of its overrides that the set has rivals of, in order. -/
theorem forall₂_reports (set : OverrideSet) (os : List Override) :
    List.Forall₂ (fun o d => ∃ first, set.get? o.target = some first ∧ d = first.duplicate o)
      (os.filter set.rivals) (os.filterMap set.report?) := by
  induction os with
  | nil => exact .nil
  | cons o os ih =>
    cases hrivals : set.rivals o with
    | false =>
      have hnone : set.report? o = none := by simp [report?, hrivals]
      rwa [List.filter_cons_of_neg (by simp [hrivals]), List.filterMap_cons_none hnone]
    | true =>
      rcases Option.any_eq_true_iff_get _ _ |>.1 hrivals with ⟨hsome, -⟩
      rcases Option.isSome_iff_exists.1 hsome with ⟨first, hfirst⟩
      have hreport : set.report? o = some (first.duplicate o) := by
        simp [report?, hrivals, hfirst]
      rw [List.filter_cons_of_pos hrivals, List.filterMap_cons_some hreport]
      exact .cons ⟨first, hfirst, rfl⟩ ih

/-! ## Merges with what is there -/

/-- In a distinct set every override is the one of its variable. -/
theorem get?_of_mem (hset : set.Distinct) (ho : o ∈ set.entries) :
    set.get? o.target = some o := by
  cases h : set.get? o.target with
  | none => exact absurd rfl (ne_of_get?_eq_none h o ho)
  | some first => rw [hset.eq_of_get? h o ho rfl]

/-- A run of overrides of variables that the set has overrides of adds nothing. -/
theorem filter_lacks_eq_nil (h : ∀ o ∈ os, set.get? o.target ≠ none) :
    os.filter set.lacks = [] := by
  apply List.filter_eq_nil_iff.2
  intro o ho
  simpa [lacks] using h o ho

theorem merge_self (hset : set.Distinct) : set.merge set = (set, []) := by
  have hown : ∀ o ∈ set.entries, set.get? o.target = some o := fun o ho => get?_of_mem hset ho
  have hnew : set.entries.filter set.lacks = [] := by
    apply filter_lacks_eq_nil
    intro o ho
    simp [hown o ho]
  have hreports : set.entries.filterMap set.report? = [] := by
    apply List.filterMap_eq_nil_iff.2
    intro o ho
    simp [report?, rivals, hown o ho]
  rw [merge, addAll_eq hset hset, hnew, hreports, List.append_nil]

/-- A second merge with the same set adds nothing. It reports what the first one did. -/
theorem merge_again (hset : set.Distinct) (hother : other.Distinct) :
    (set.merge other).1.merge other = set.merge other := by
  have hmerged : (set.merge other).1.Distinct := distinct_addAll hset other.entries
  have hget : ∀ o ∈ other.entries,
      (set.merge other).1.get? o.target = (set.get? o.target).or (some o) := by
    intro o ho
    have hown : (other.entries.find? fun e => e.target = o.target) = some o :=
      get?_of_mem hother ho
    rw [merge, get?_addAll hset, hown]
  have hnew : other.entries.filter (set.merge other).1.lacks = [] := by
    apply filter_lacks_eq_nil
    intro o ho
    simp [hget o ho]
  have hreports : other.entries.filterMap (set.merge other).1.report? =
      other.entries.filterMap set.report? := by
    apply List.filterMap_congr
    intro o ho
    unfold report? rivals
    rw [hget o ho]
    -- An override that the first merge added is no rival of itself.
    cases set.get? o.target with
    | none => simp
    | some first => rfl
  have hsecond : (set.merge other).1.merge other =
      ((set.merge other).1, other.entries.filterMap set.report?) := by
    rw [merge, addAll_eq hmerged hother, hnew, hreports, List.append_nil]
  have hfirst : (set.merge other).2 = other.entries.filterMap set.report? := by
    rw [merge, addAll_eq hset hother]
  rw [hsecond, ← hfirst]

/-- No two overrides of a set that is made of the empty one by insertions and merges are of one
variable. A merge of such sets keeps what the first one holds in place, adds in order what it lacks,
and reports in order, with both ranges, what it has from another source. So a merge of a set with
itself changes and reports nothing, and a second merge with the same set adds nothing. -/
theorem merge_keeps_first :
    (∀ set, Made set → set.entries.Pairwise fun a b => a.target ≠ b.target) ∧
    ∀ set other, Made set → Made other →
      (set.merge other).1.entries = set.entries ++ other.entries.filter set.lacks ∧
      List.Forall₂ (fun o d => ∃ first, set.get? o.target = some first ∧
          d = first.duplicate o ∧ d.category = .duplicateDefinition ∧
            d.subject = some o.range ∧ d.context = some first.range)
        (other.entries.filter set.rivals) (set.merge other).2 ∧
      set.merge set = (set, []) ∧ (set.merge other).1.merge other = set.merge other := by
  constructor
  · intro set hset
    exact hset.distinct
  · intro set other hset hother
    have hmerge : set.merge other = _ := addAll_eq hset.distinct hother.distinct
    refine ⟨?_, ?_, merge_self hset.distinct, merge_again hset.distinct hother.distinct⟩
    · rw [hmerge]
    · rw [hmerge]
      refine (forall₂_reports set other.entries).imp ?_
      rintro o d ⟨first, hfirst, rfl⟩
      exact ⟨first, hfirst, rfl, rfl, rfl, rfl⟩

/-- An override of a variable of the package `web` that the flag `key` gives, on line `line`. -/
def flagged (name key : String) (line : Nat) : Override :=
  ⟨⟨⟨"web"⟩, name⟩, .bool true, none, .point "flags" ⟨line, 1, 0⟩, .cli key⟩

/-- Of three overrides one is from the same source as the first one of its variable, one from
another source, and one is new. -/
theorem merge_keeps_first_rival :
    let x := flagged "x" "x" 1
    let y := flagged "y" "y" 2
    let rival := flagged "x" "web.x" 3
    let fresh := flagged "z" "z" 4
    let set : OverrideSet := ⟨[x, y]⟩
    let other : OverrideSet := ⟨[rival, y, fresh]⟩
    Made set ∧ Made other ∧ (set.merge other).1.entries = [x, y, fresh] ∧
      (∃ d, (set.merge other).2 = [d] ∧ d.category = .duplicateDefinition ∧
        d.subject = some rival.range ∧ d.context = some x.range) ∧
      (set.merge other).1.merge other = set.merge other := by
  intro x y rival fresh set other
  have hset : Made set := by
    have hx : Made ⟨[x]⟩ := .insert (o := x) .empty (by decide +kernel)
    exact .insert (o := y) hx (by decide +kernel)
  have hother : Made other := by
    have hrival : Made ⟨[rival]⟩ := .insert (o := rival) .empty (by decide +kernel)
    have hy : Made ⟨[rival, y]⟩ := .insert (o := y) hrival (by decide +kernel)
    exact .insert (o := fresh) hy (by decide +kernel)
  obtain ⟨hentries, hreports, -, hagain⟩ := merge_keeps_first.2 set other hset hother
  have hlacks : other.entries.filter set.lacks = [fresh] := by decide +kernel
  have hrivals : other.entries.filter set.rivals = [rival] := by decide +kernel
  have hfirst : set.get? rival.target = some x := by decide +kernel
  rw [hlacks] at hentries
  rw [hrivals] at hreports
  generalize (set.merge other).2 = ds at hreports
  rcases hreports with - | ⟨⟨first, hkept, -, hcategory, hsubject, hcontext⟩, - | -⟩
  obtain rfl : x = first := Option.some.inj (hfirst.symm.trans hkept)
  exact ⟨hset, hother, hentries, ⟨_, rfl, hcategory, hsubject, hcontext⟩, hagain⟩

end Overlay.OverrideSet
