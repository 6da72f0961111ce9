import Mathlib.Data.List.Induction
import Mathlib.Data.String.Basic
import Overlay.Dict
import Overlay.Environment

/-!
# Overrides in the environment

* `key?_eq_some_iff`: the key of an environment variable is what its name has behind the prefix.
* `find?_overrides`: so the override under a key is the value of the last environment variable whose
  name is the prefix and the key.
* `split?_eq_some_iff`: an assignment is cut at its first equals sign.
-/

namespace Overlay.Environment

variable {front name value key assignment : String}

theorem behind?_eq_some_iff {front name cs : List Char} :
    behind? front name = some cs ↔ name = front ++ cs := by
  unfold behind?
  split
  · next h =>
    rcases List.isPrefixOf_iff_prefix.1 h with ⟨more, rfl⟩
    rw [List.drop_left, Option.some.injEq, List.append_cancel_left_eq]
  · next h =>
    refine iff_of_false (by simp) ?_
    rintro rfl
    exact h (List.isPrefixOf_iff_prefix.2 (List.prefix_append _ _))

/-- The key of an environment variable is what stands behind the prefix of its name. -/
theorem key?_eq_some_iff : key? front name = some key ↔ name = front ++ key ∧ key ≠ "" := by
  have hname : name = front ++ key ↔ behind? front.toList name.toList = some key.toList := by
    rw [behind?_eq_some_iff, ← String.toList_append, String.toList_inj]
  rw [hname, key?]
  cases h : behind? front.toList name.toList with
  | none => simp
  | some cs =>
    cases cs with
    | nil =>
      simp only [Option.some.injEq, reduceCtorEq, false_iff, not_and, not_not]
      exact fun hkey => String.toList_eq_nil_iff.1 hkey.symm
    | cons c cs =>
      simp only [Option.some.injEq]
      constructor
      · rintro rfl
        simp
      · rintro ⟨hkey, -⟩
        rw [hkey, String.ofList_toList]

theorem overrides_concat (front : String) (entries : List (String × String))
    (entry : String × String) :
    overrides front (entries ++ [entry]) =
      match key? front entry.1 with
      | some key => (overrides front entries).insert key entry.2
      | none => overrides front entries := by
  unfold overrides Dict.ofPairs
  rw [List.filterMap_append, List.foldl_append]
  cases h : key? front entry.1 <;> simp [h]

/-- The override under a key is the value of the last environment variable whose name is the prefix
and the key. -/
theorem find?_overrides (hkey : key ≠ "") (entries : List (String × String)) :
    (overrides front entries).find? key =
      (entries.reverse.find? fun e => e.1 = front ++ key).map Prod.snd := by
  induction entries using List.reverseRecOn with
  | nil => rfl
  | append_singleton entries entry ih =>
    rw [overrides_concat, List.reverse_append, List.reverse_singleton, List.singleton_append,
      List.find?_cons]
    by_cases hname : entry.1 = front ++ key
    · have hown : key? front entry.1 = some key := key?_eq_some_iff.2 ⟨hname, hkey⟩
      simp only [hown, Dict.find?_insert_self, decide_eq_true hname, Option.map_some]
    · simp only [hname, decide_false, ← ih]
      cases h : key? front entry.1 with
      | none => rfl
      | some other =>
        have hne : key ≠ other := by
          rintro rfl
          exact hname (key?_eq_some_iff.1 h).1
        exact Dict.find?_insert_of_ne hne _ _

theorem cut_iff {cs name value : List Char} :
    (cs.takeWhile (· ≠ '=') = name ∧ ∃ c, cs.dropWhile (· ≠ '=') = c :: value) ↔
      cs = name ++ '=' :: value ∧ '=' ∉ name := by
  induction cs generalizing name with
  | nil => simp
  | cons c cs ih =>
    by_cases hc : c = '='
    · subst hc
      cases name with
      | nil => simp
      | cons d name =>
        refine iff_of_false (by simp) ?_
        rintro ⟨hcs, hname⟩
        cases hcs
        exact hname List.mem_cons_self
    · rw [List.takeWhile_cons_of_pos (by simpa using hc),
        List.dropWhile_cons_of_pos (by simpa using hc)]
      cases name with
      | nil => simp [hc]
      | cons d name =>
        rw [List.cons_append, List.cons.injEq, List.cons.injEq, List.mem_cons, not_or, and_assoc,
          ih, and_assoc]
        constructor
        · rintro ⟨rfl, hcs, hname⟩
          exact ⟨rfl, hcs, Ne.symm hc, hname⟩
        · rintro ⟨rfl, hcs, -, hname⟩
          exact ⟨rfl, hcs, hname⟩

/-- An assignment is cut at its first equals sign. -/
theorem split?_eq_some_iff :
    split? assignment = some (name, value) ↔
      assignment = name ++ "=" ++ value ∧ '=' ∉ name.toList := by
  have htext : assignment = name ++ "=" ++ value ↔
      assignment.toList = name.toList ++ '=' :: value.toList := by
    rw [← String.toList_inj, String.toList_append, String.toList_append, List.append_assoc]
    rfl
  rw [htext, ← cut_iff]
  unfold split?
  dsimp only
  cases h : assignment.toList.dropWhile (· ≠ '=') with
  | nil => simp
  | cons c rest =>
    simp only [Option.some.injEq, Prod.mk.injEq, List.cons.injEq]
    constructor
    · rintro ⟨rfl, rfl⟩
      simp
    · rintro ⟨hname, c', -, hvalue⟩
      rw [hname, hvalue, String.ofList_toList, String.ofList_toList]
      exact ⟨rfl, rfl⟩

end Overlay.Environment
