import Mathlib.Data.List.Basic
import Overlay.Identifier
import Overlay.Text.Split

/-!
# Dotted names

* `splitAtChar_append`: a stretch without the separator is cut off in front of a separator.
* `splitDots_joinDots`: names that have no dot in them are the parts of the text that is made of
  them with dots between. So the text tells the names (`joinDots_inj`).
* Identifiers have no dot in them (`not_mem_of_isIdentifier`).
-/

namespace Overlay

/-- A character that no identifier goes on with stands in no identifier. -/
theorem not_mem_of_isIdentifier {name : String} {c : Char} (h : isIdentifier name = true)
    (hc : continuesIdentifier c = false) : c ∉ name.toList := by
  unfold isIdentifier at h
  cases hname : name.toList with
  | nil => simp
  | cons first cs =>
    rw [hname] at h
    obtain ⟨hfirst, hcs⟩ := Bool.and_eq_true_iff.1 h
    intro hmem
    have hcontinues : continuesIdentifier c = true := by
      rcases List.mem_cons.1 hmem with rfl | hmem
      · rw [continuesIdentifier, hfirst, Bool.true_or, Bool.true_or]
      · exact List.all_eq_true.1 hcs c hmem
    rw [hc] at hcontinues
    cases hcontinues

theorem dot_not_mem_of_isIdentifier {name : String} (h : isIdentifier name = true) :
    '.' ∉ name.toList := not_mem_of_isIdentifier h (by decide)

namespace Text

/-! ## Cutting at a separator -/

section Cutting

variable {separator : Char} {cs : List Char}

theorem not_mem_of_mem_splitAtChar {stretch : List Char} (h : stretch ∈ splitAtChar separator cs) :
    separator ∉ stretch := by
  induction cs generalizing stretch with
  | nil =>
    rw [splitAtChar, List.mem_singleton] at h
    simp [h]
  | cons c cs ih =>
    rw [splitAtChar] at h
    split_ifs at h with hc
    · rcases List.mem_cons.1 h with rfl | h
      · simp
      · exact ih h
    · cases hsplit : splitAtChar separator cs with
      | nil =>
        rw [hsplit] at h
        rw [List.mem_singleton.1 h]
        simpa using Ne.symm hc
      | cons first rest =>
        rw [hsplit] at h ih
        rcases List.mem_cons.1 h with rfl | h
        · have hfirst := ih List.mem_cons_self
          simp [hfirst, Ne.symm hc]
        · exact ih (List.mem_cons_of_mem _ h)

theorem splitAtChar_of_not_mem (h : separator ∉ cs) : splitAtChar separator cs = [cs] := by
  induction cs with
  | nil => rfl
  | cons c cs ih =>
    rw [List.mem_cons, not_or] at h
    rw [splitAtChar, if_neg (Ne.symm h.1), ih h.2]

/-- What stands in front of the first separator is cut off. -/
theorem splitAtChar_append (h : separator ∉ cs) (rest : List Char) :
    splitAtChar separator (cs ++ separator :: rest) = cs :: splitAtChar separator rest := by
  induction cs with
  | nil => rw [List.nil_append, splitAtChar, if_pos rfl]
  | cons c cs ih =>
    rw [List.mem_cons, not_or] at h
    rw [List.cons_append, splitAtChar, if_neg (Ne.symm h.1), ih h.2]

end Cutting

/-! ## Names with dots between them -/

section Joining

variable {parts others : List String}

theorem joinDots_cons_cons (a b : String) (rest : List String) :
    joinDots (a :: b :: rest) = a ++ "." ++ joinDots (b :: rest) := String.intercalate_cons_cons

theorem joinDots_concat (h : parts ≠ []) (last : String) :
    joinDots (parts ++ [last]) = joinDots parts ++ "." ++ last :=
  String.intercalate_append_of_ne_nil h (List.cons_ne_nil _ _)

/-- Names without dots are found again in the text that is made of them. -/
theorem splitDots_joinDots (hne : parts ≠ []) (hdots : ∀ part ∈ parts, '.' ∉ part.toList) :
    splitDots (joinDots parts) = parts := by
  induction parts with
  | nil => exact absurd rfl hne
  | cons a rest ih =>
    rw [List.forall_mem_cons] at hdots
    cases rest with
    | nil =>
      have hjoin : joinDots [a] = a := String.intercalate_singleton
      rw [hjoin, splitDots, splitAtChar_of_not_mem hdots.1, List.map_singleton,
        String.ofList_toList]
    | cons b rest =>
      have hrest : (splitAtChar '.' (joinDots (b :: rest)).toList).map String.ofList = b :: rest :=
        ih (List.cons_ne_nil _ _) hdots.2
      have hchars : (joinDots (a :: b :: rest)).toList =
          a.toList ++ '.' :: (joinDots (b :: rest)).toList := by
        rw [joinDots_cons_cons, String.toList_append, String.toList_append, List.append_assoc]
        rfl
      rw [splitDots, hchars, splitAtChar_append hdots.1, List.map_cons, hrest,
        String.ofList_toList]

theorem splitAtChar_ne_nil (separator : Char) (cs : List Char) : splitAtChar separator cs ≠ [] := by
  cases cs with
  | nil => exact List.cons_ne_nil _ _
  | cons c cs =>
    rw [splitAtChar]
    split_ifs
    · exact List.cons_ne_nil _ _
    · split <;> exact List.cons_ne_nil _ _

theorem splitDots_ne_nil (s : String) : splitDots s ≠ [] := by
  rw [splitDots, ne_eq, List.map_eq_nil_iff]
  exact splitAtChar_ne_nil '.' s.toList

/-- The parts of a text with dots between them are the text. -/
theorem joinDots_splitDots (s : String) : joinDots (splitDots s) = s := by
  have hchars : ∀ cs : List Char,
      joinDots ((splitAtChar '.' cs).map String.ofList) = String.ofList cs := by
    intro cs
    induction cs with
    | nil => rfl
    | cons c cs ih =>
      rcases hparts : splitAtChar '.' cs with - | ⟨first, rest⟩
      · exact absurd hparts (splitAtChar_ne_nil '.' cs)
      rw [hparts, List.map_cons] at ih
      by_cases hc : c = '.'
      · rw [splitAtChar, if_pos hc, hparts, List.map_cons, List.map_cons, joinDots_cons_cons, ih,
          hc]
        exact String.toList_inj.1 (by simp)
      · -- The character stands in front of the first part.
        have hfront : ∀ tail : List String, joinDots (String.ofList (c :: first) :: tail) =
            String.ofList [c] ++ joinDots (String.ofList first :: tail) := by
          intro tail
          cases tail with
          | nil => exact String.toList_inj.1 (by simp [joinDots])
          | cons a tail => exact String.toList_inj.1 (by simp [joinDots_cons_cons])
        rw [splitAtChar, if_neg hc, hparts, List.map_cons, hfront, ih]
        exact String.toList_inj.1 (by simp)
  have htext := hchars s.toList
  rwa [String.ofList_toList] at htext

/-- Two lists of names without dots that make the same text are the same. -/
theorem joinDots_inj (hparts : parts ≠ [] ∧ ∀ part ∈ parts, '.' ∉ part.toList)
    (hothers : others ≠ [] ∧ ∀ part ∈ others, '.' ∉ part.toList)
    (h : joinDots parts = joinDots others) : parts = others := by
  rw [← splitDots_joinDots hparts.1 hparts.2, h, splitDots_joinDots hothers.1 hothers.2]

end Joining

end Text

end Overlay
