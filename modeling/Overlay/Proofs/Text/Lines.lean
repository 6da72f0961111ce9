import Mathlib.Data.List.TakeWhile
import Overlay.Text.Blank
import Overlay.Text.Split

/-!
# Lines

The lines of a text, from a place in it: the rest of the line that the place is on, and the lines
behind it. Trimming a line takes blanks only.
-/

namespace Overlay.Text

/-- The text up to the end of its first line. -/
def firstLine (cs : List Char) : List Char := cs.takeWhile (· ≠ '\n')

/-- The lines behind the first one. -/
def linesBehind (cs : List Char) : List (List Char) := (splitAtChar '\n' cs).tail

theorem firstLine_newline (cs : List Char) : firstLine ('\n' :: cs) = [] := rfl

theorem firstLine_cons {c : Char} (h : c ≠ '\n') (cs : List Char) :
    firstLine (c :: cs) = c :: firstLine cs := by
  unfold firstLine
  rw [List.takeWhile_cons, if_pos (decide_eq_true h)]

theorem firstLine_append {xs : List Char} (h : '\n' ∉ xs) (cs : List Char) :
    firstLine (xs ++ cs) = xs ++ firstLine cs := by
  refine List.takeWhile_append_of_pos fun c hc => decide_eq_true ?_
  rintro rfl
  exact h hc

theorem newline_not_mem_firstLine (cs : List Char) : '\n' ∉ firstLine cs := by
  intro h
  have hne := List.mem_takeWhile_imp h
  exact absurd rfl (of_decide_eq_true hne)

/-- The first line and, if it ends, its end and the text behind it. -/
theorem exists_rest (cs : List Char) :
    ∃ rest, cs = firstLine cs ++ rest ∧ (rest = [] ∨ ∃ more, rest = '\n' :: more) := by
  induction cs with
  | nil => exact ⟨[], rfl, .inl rfl⟩
  | cons c cs ih =>
    by_cases h : c = '\n'
    · subst h
      exact ⟨'\n' :: cs, rfl, .inr ⟨cs, rfl⟩⟩
    · rcases ih with ⟨rest, hcs, hrest⟩
      refine ⟨rest, ?_, hrest⟩
      rw [firstLine_cons h, List.cons_append, ← hcs]

theorem drop_firstLine (cs : List Char) : cs.drop (firstLine cs).length = [] ∨
    ∃ more, cs.drop (firstLine cs).length = '\n' :: more := by
  rcases exists_rest cs with ⟨rest, hcs, hrest⟩
  have hdrop : (firstLine cs ++ rest).drop (firstLine cs).length = rest := List.drop_left
  rw [← hcs] at hdrop
  rw [hdrop]
  exact hrest

theorem exists_of_firstLine_eq {c : Char} {cs line : List Char} (h : firstLine cs = c :: line) :
    ∃ ds, cs = c :: ds ∧ firstLine ds = line := by
  cases cs with
  | nil => cases h
  | cons d ds =>
    by_cases hd : d = '\n'
    · subst hd
      cases h
    · rw [firstLine_cons hd] at h
      cases h
      exact ⟨ds, rfl, rfl⟩

theorem splitAtChar_eq (cs : List Char) :
    splitAtChar '\n' cs = firstLine cs :: linesBehind cs := by
  induction cs with
  | nil => rfl
  | cons c cs ih =>
    unfold linesBehind
    rw [splitAtChar]
    by_cases h : c = '\n'
    · subst h
      rfl
    · rw [if_neg h, ih, firstLine_cons h]
      rfl

theorem linesBehind_newline (cs : List Char) : linesBehind ('\n' :: cs) = splitAtChar '\n' cs := rfl

theorem linesBehind_cons {c : Char} (h : c ≠ '\n') (cs : List Char) :
    linesBehind (c :: cs) = linesBehind cs := by
  have hcons := splitAtChar_eq cs
  unfold linesBehind
  rw [splitAtChar, if_neg h, hcons]
  rfl

/-- The lines behind a place are among those behind any place in front of it. -/
theorem mem_linesBehind_append {l : List Char} (xs : List Char) {cs : List Char}
    (h : l ∈ linesBehind cs) : l ∈ linesBehind (xs ++ cs) := by
  induction xs with
  | nil => exact h
  | cons x xs ih =>
    rw [List.cons_append]
    by_cases hx : x = '\n'
    · subst hx
      rw [linesBehind_newline, splitAtChar_eq]
      exact List.mem_cons_of_mem _ ih
    · rw [linesBehind_cons hx]
      exact ih

/-! ## Trimming -/

/-- Trimming keeps what is not blank. -/
theorem mem_trim {c : Char} {cs : List Char} (h : c ∈ cs) (hc : isBlank c = false) :
    c ∈ trim cs := by
  have hfront : ∀ {xs : List Char}, c ∈ xs → c ∈ xs.dropWhile isBlank := by
    intro xs hxs
    rw [← List.takeWhile_append_dropWhile (p := isBlank) (l := xs), List.mem_append] at hxs
    rcases hxs with hblank | hrest
    · rw [List.mem_takeWhile_imp hblank] at hc
      cases hc
    · exact hrest
  unfold trim trimBack trimFront
  exact List.mem_reverse.2 (hfront (List.mem_reverse.2 (hfront h)))

/-- A text without blanks has none to lose at its ends. -/
theorem trim_eq_self {cs : List Char} (h : ∀ c ∈ cs, isBlank c = false) : trim cs = cs := by
  have hkeep : ∀ {xs : List Char}, (∀ c ∈ xs, isBlank c = false) → xs.dropWhile isBlank = xs := by
    intro xs hxs
    cases xs with
    | nil => rfl
    | cons x xs => rw [List.dropWhile_cons, hxs x List.mem_cons_self, if_neg Bool.false_ne_true]
  have hback : ∀ c ∈ cs.reverse, isBlank c = false := fun c hc => h c (List.mem_reverse.1 hc)
  rw [trim, trimFront, trimBack, hkeep h, hkeep hback, List.reverse_reverse]

theorem trim_eq_nil_iff {cs : List Char} : trim cs = [] ↔ ∀ c ∈ cs, isBlank c = true := by
  constructor
  · intro h c hc
    by_contra hblank
    have hmem := mem_trim hc (Bool.eq_false_iff.2 hblank)
    rw [h] at hmem
    cases hmem
  · intro h
    rw [trim, trimFront, List.dropWhile_eq_nil_iff.2 h]
    rfl

end Overlay.Text
