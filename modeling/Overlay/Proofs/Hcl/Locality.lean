import Overlay.Proofs.Hcl.Lexeme

/-!
# Parts of a cut text

What a lexeme takes of a text shows where it stops, so it does not depend on what stands further
behind.

* A front of a text that holds all that a lexeme takes gives the same lexeme (`tail_append`).
* Where a text is cut between two of its lexemes, each part is cut like the whole
  (`split_append`): the text of neighbouring lexemes is cut into these lexemes (`split_flatMap`).
-/

namespace Overlay.Hcl.Lexeme

variable {xs ys : List Char}

/-! ## Runs and numbers -/

theorem takeWhile_append_of_le {p : Char → Bool}
    (h : ((xs ++ ys).takeWhile p).length ≤ xs.length) :
    (xs ++ ys).takeWhile p = xs.takeWhile p := by
  rw [List.takeWhile_append] at h ⊢
  split at h
  · next hall =>
    rw [List.length_append] at h
    have hnone : ys.takeWhile p = [] := List.length_eq_zero_iff.1 (by omega)
    have hsame : xs.takeWhile p = xs := (List.takeWhile_prefix p).eq_of_length hall
    rw [if_pos hall, hnone, List.append_nil, hsame]
  · next hall => rw [if_neg hall]

theorem fraction_append (h : (fraction (xs ++ ys)).length ≤ xs.length) :
    fraction (xs ++ ys) = fraction xs := by
  cases xs with
  | nil => exact List.length_eq_zero_iff.1 (Nat.le_zero.1 h)
  | cons c cs =>
    by_cases hc : c = '.'
    · subst hc
      have hdigits : (cs ++ ys).takeWhile isDigit = cs.takeWhile isDigit := by
        refine takeWhile_append_of_le ?_
        by_cases hnone : ((cs ++ ys).takeWhile isDigit).isEmpty = true
        · rw [List.isEmpty_iff.1 hnone]
          exact Nat.zero_le _
        · simp only [List.cons_append, fraction, hnone] at h
          exact Nat.le_of_succ_le_succ h
      simp only [List.cons_append, fraction, hdigits]
    · simp [fraction, hc]

theorem sign_append (h : (sign (xs ++ ys)).length ≤ xs.length) : sign (xs ++ ys) = sign xs := by
  cases xs with
  | nil => exact List.length_eq_zero_iff.1 (Nat.le_zero.1 h)
  | cons c cs =>
    rw [List.cons_append]
    unfold sign
    split <;> simp_all

/-- The digits of an exponent, behind its letter and its sign. -/
theorem exponentDigits_append (hsign : (sign (xs ++ ys)).length ≤ xs.length)
    (h : (((xs ++ ys).drop (sign (xs ++ ys)).length).takeWhile isDigit).length ≤
      (xs.drop (sign (xs ++ ys)).length).length) :
    ((xs ++ ys).drop (sign (xs ++ ys)).length).takeWhile isDigit =
      (xs.drop (sign xs).length).takeWhile isDigit := by
  rw [List.drop_append_of_le_length hsign] at h ⊢
  rw [takeWhile_append_of_le h, sign_append hsign]

theorem exponent_append (h : (exponent (xs ++ ys)).length ≤ xs.length) :
    exponent (xs ++ ys) = exponent xs := by
  cases xs with
  | nil => exact List.length_eq_zero_iff.1 (Nat.le_zero.1 h)
  | cons c cs =>
    by_cases hc : c = 'e' ∨ c = 'E'
    · simp only [List.cons_append, exponent, hc, if_true] at h ⊢
      by_cases hnone : ((cs ++ ys).drop (sign (cs ++ ys)).length).takeWhile isDigit = []
      · -- No digits stand behind the sign, and none in a part of what stands there.
        have hpart : (cs.drop (sign cs).length).takeWhile isDigit = [] := by
          cases cs with
          | nil => simp
          | cons d ds =>
            have hsign : (sign (d :: ds ++ ys)).length ≤ (d :: ds).length := by
              rw [List.cons_append]
              unfold sign
              split <;> simp
            rw [← exponentDigits_append hsign (by rw [hnone]; exact Nat.zero_le _), hnone]
        simp [hnone, hpart]
      · simp only [List.isEmpty_iff, hnone, if_false, List.length_cons, List.length_append] at h
        have hsign : (sign (cs ++ ys)).length ≤ cs.length := by omega
        have hdigits := exponentDigits_append hsign (by rw [List.length_drop]; omega)
        rw [sign_append hsign] at hdigits ⊢
        rw [hdigits]
    · simp [exponent, hc]

theorem numberTail_append (h : (numberTail (xs ++ ys)).length ≤ xs.length) :
    numberTail (xs ++ ys) = numberTail xs := by
  simp only [numberTail, List.length_append] at h
  have hdigits : (xs ++ ys).takeWhile isDigit = xs.takeWhile isDigit :=
    takeWhile_append_of_le (by omega)
  have hfraction : fraction ((xs ++ ys).drop (xs.takeWhile isDigit).length) =
      fraction (xs.drop (xs.takeWhile isDigit).length) := by
    rw [hdigits] at h
    rw [List.drop_append_of_le_length (by omega)] at h ⊢
    refine fraction_append ?_
    rw [List.length_drop]
    omega
  simp only [numberTail, hdigits, hfraction] at h ⊢
  rw [List.drop_append_of_le_length (by omega)] at h ⊢
  rw [exponent_append (by rw [List.length_drop]; omega)]

/-! ## Strings and comments -/

theorem quotedTail_of_nil {cs : List Char} (h : (quotedTail cs).1.length ≤ 0) :
    quotedTail cs = ([], false) := by
  unfold quotedTail at h ⊢
  split at h
  · rfl
  · cases h
  · split at h
    · next hend => rw [if_pos hend]
    · cases h
  · split at h
    · next hend => rw [if_pos hend]
    · cases h

theorem quotedTail_append_of_le (h : (quotedTail (xs ++ ys)).1.length ≤ xs.length) :
    quotedTail (xs ++ ys) = quotedTail xs := by
  fun_induction quotedTail xs with
  | case1 => exact quotedTail_of_nil h
  | case2 cs => rfl
  | case3 => rfl
  | case4 c cs hc rest closed hrest ih =>
    simp only [List.cons_append, quotedTail, hc, if_false, List.length_cons] at h ⊢
    rw [ih (by omega), hrest]
  | case5 c cs hquote hescape hend =>
    rcases hend with rfl | rfl
    · simp [quotedTail]
    · -- A backslash at the end of the part protects nothing there, so it protects nothing at all.
      rcases cs with - | ⟨d, cs⟩
      · rcases ys with - | ⟨d, ys⟩
        · rfl
        · by_cases hd : d = '\n'
          · simp [quotedTail, hd]
          · simp [quotedTail, hd] at h
      · exact absurd rfl (hescape d cs rfl)
  | case6 c cs hquote hescape hend rest closed hrest ih =>
    have hline : c ≠ '\n' := fun h => hend (.inl h)
    have hslash : c ≠ '\\' := fun h => hend (.inr h)
    have hshort : (quotedTail (cs ++ ys)).1.length ≤ cs.length := by
      simpa [quotedTail, hline, hslash] using h
    simp [quotedTail, hline, hslash, ih hshort, hrest]

theorem commentTail_front (h : (commentTail (xs ++ ys)).1.length ≤ xs.length) :
    commentTail (xs ++ ys) = commentTail xs := by
  fun_induction commentTail xs with
  | case1 =>
    rcases ys with - | ⟨c, cs⟩
    · rfl
    · have hpos : 0 < (commentTail (c :: cs)).1.length := by
        unfold commentTail
        split <;> simp_all
      exact absurd h (Nat.not_le_of_lt hpos)
  | case2 cs => rfl
  | case3 c cs hclose rest closed hrest ih =>
    have hstep : commentTail (c :: cs ++ ys) =
        (c :: (commentTail (cs ++ ys)).1, (commentTail (cs ++ ys)).2) := by
      rw [List.cons_append, commentTail]
      intro more hstar hslash
      rcases cs with - | ⟨d, cs⟩
      · -- A closing marker that is completed behind the part is longer than the part.
        rw [List.nil_append] at hslash
        rw [hstar, hslash] at h
        simp [commentTail] at h
      · exact hclose cs hstar (by rw [(List.cons.inj hslash).1])
    rw [hstep, List.length_cons, List.length_cons] at h
    rw [hstep, ih (by omega), hrest]

/-! ## Heredocs -/

theorem marker_append (h : (marker (xs ++ ys)).length ≤ xs.length) :
    marker (xs ++ ys) = marker xs := by
  cases xs with
  | nil => exact List.length_eq_zero_iff.1 (Nat.le_zero.1 h)
  | cons c cs =>
    by_cases hc : startsWord c = true
    · simp only [List.cons_append, marker, hc, if_true, List.length_cons] at h ⊢
      rw [takeWhile_append_of_le (Nat.le_of_succ_le_succ h)]
    · simp [marker, hc]

theorem dash_append (h : (dash (xs ++ ys)).length ≤ xs.length) : dash (xs ++ ys) = dash xs := by
  cases xs with
  | nil => exact List.length_eq_zero_iff.1 (Nat.le_zero.1 h)
  | cons c cs =>
    rw [List.cons_append]
    unfold dash
    split <;> simp_all

theorem introducer_append (h : (introducer (xs ++ ys)).length ≤ xs.length) :
    dash (xs ++ ys) = dash xs ∧ heredocMarker (xs ++ ys) = heredocMarker xs ∧
      introducer (xs ++ ys) = introducer xs := by
  rw [introducer, List.length_append] at h
  have hdash : dash (xs ++ ys) = dash xs := dash_append (by omega)
  have hmarker : heredocMarker (xs ++ ys) = heredocMarker xs := by
    unfold heredocMarker at h ⊢
    rw [hdash] at h ⊢
    rw [List.drop_append_of_le_length (by omega)] at h ⊢
    exact marker_append (by rw [List.length_drop]; omega)
  exact ⟨hdash, hmarker, by rw [introducer, hdash, hmarker, introducer]⟩

/-- The lines of a heredoc that is closed inside a part of a text. -/
theorem bodyLines_append {mark : List Char} (hne : mark ≠ []) (line : List Char)
    (h : (bodyLines mark line (xs ++ ys)).2.2 ≤ xs.length) :
    bodyLines mark line (xs ++ ys) = bodyLines mark line xs := by
  induction xs generalizing line with
  | nil =>
    rcases ys with - | ⟨c, cs⟩
    · rfl
    · by_cases hc : c = '\n' ∧ Text.trim line.reverse = mark
      · -- The closing line holds the marker, so it is not empty.
        rcases hc with ⟨rfl, hmark⟩
        have hline : line ≠ [] := by
          rintro rfl
          exact hne hmark.symm
        simp [bodyLines, hmark, hline]
      · simp only [List.nil_append, bodyLines] at h
        split at h
        · next hline =>
          rw [if_neg fun hmark => hc ⟨hline, hmark⟩] at h
          cases h
        · cases h
  | cons c cs ih =>
    by_cases hc : c = '\n'
    · by_cases hmark : Text.trim line.reverse = mark
      · simp only [List.cons_append, bodyLines, hc, hmark, if_true]
      · simp only [List.cons_append, bodyLines, hc, hmark, if_true, if_false,
          List.length_cons] at h ⊢
        rw [ih [] (Nat.le_of_succ_le_succ h)]
    · simp only [List.cons_append, bodyLines, hc, if_false, List.length_cons] at h ⊢
      rw [ih (c :: line) (Nat.le_of_succ_le_succ h)]

theorem introducer_length_lt (cs : List Char) :
    (introducer cs).length < (heredocTail ('<' :: cs)).2.length := by
  rw [heredocTail_cons]
  split
  · simp only [List.length_append, List.length_cons]
    omega
  · exact Nat.lt_succ_self _

/-- The heredoc behind its first `<`, where it ends inside a part of a text. -/
theorem heredocTail_append (h : (heredocTail ('<' :: (xs ++ ys))).2.length ≤ xs.length + 1) :
    heredocTail ('<' :: (xs ++ ys)) = heredocTail ('<' :: xs) := by
  have hlength := introducer_length_lt (xs ++ ys)
  rcases @introducer_append xs ys (by omega) with ⟨hdash, hmarker, hintro⟩
  have hdrop : (xs ++ ys).drop (introducer (xs ++ ys)).length =
      xs.drop (introducer xs).length ++ ys := by
    rw [hintro, List.drop_append_of_le_length (introducer_isPrefix xs).length_le]
  by_cases hne : heredocMarker xs = []
  · rw [heredocTail_broken (.inl (hmarker.trans hne)), heredocTail_broken (.inl hne), hintro]
  have hmore : heredocMarker (xs ++ ys) ≠ [] := by rwa [hmarker]
  rcases hrest : xs.drop (introducer xs).length with - | ⟨c, body⟩
  · -- The end of the line would belong to the heredoc, and the part has no room for it.
    have hsize : xs.length ≤ (introducer xs).length := List.drop_eq_nil_iff.1 hrest
    have hopen : ((xs ++ ys).drop (introducer (xs ++ ys)).length).head? ≠ some '\n' := by
      intro hline
      rcases List.head?_eq_some_iff.1 hline with ⟨body, hbody⟩
      rw [heredocTail_body hmore hbody, hintro] at h
      simp only [List.length_append, List.length_cons] at h
      omega
    rw [heredocTail_broken (.inr hopen), heredocTail_broken (.inr (by rw [hrest]; nofun)), hintro]
  rw [hrest, List.cons_append] at hdrop
  by_cases hc : c = '\n'
  · subst hc
    have hsize : xs.length = (introducer xs).length + (body.length + 1) := by
      have hparts := List.length_drop (i := (introducer xs).length) (l := xs)
      have hle := (introducer_isPrefix xs).length_le
      rw [hrest, List.length_cons] at hparts
      omega
    have hlines := bodyLines_le (heredocMarker xs) [] (body ++ ys)
    rw [heredocTail_body hmore hdrop, hmarker, hintro] at h ⊢
    simp only [List.length_append, List.length_cons, List.length_take] at h hlines
    have hsame : bodyLines (heredocMarker xs) [] (body ++ ys) = bodyLines (heredocMarker xs) [] body :=
      bodyLines_append hne [] (by omega)
    rw [hsame] at h ⊢
    rw [heredocTail_body hne hrest, hdash, List.take_append_of_le_length (bodyLines_le _ [] body)]
  · have hopen : ∀ ds, (c :: ds).head? ≠ some '\n' := by simpa using hc
    rw [heredocTail_broken (.inr (by rw [hdrop]; exact hopen _)),
      heredocTail_broken (.inr (by rw [hrest]; exact hopen _)), hintro]

/-! ## Lexemes -/

/-- A part of a text that holds all that a lexeme takes gives the same lexeme. -/
theorem tail_append {c : Char} (h : (tail c (xs ++ ys)).2.length ≤ xs.length) :
    tail c (xs ++ ys) = tail c xs := by
  unfold tail at h ⊢
  split_ifs at h ⊢
  · rw [takeWhile_append_of_le h]
  · rw [takeWhile_append_of_le h]
  · rw [takeWhile_append_of_le h]
  · rw [numberTail_append h]
  · rw [quotedTail_append_of_le h]
  · cases hmark : Mark.ofChar? c with
    | some m => rfl
    | none =>
      rw [hmark] at h
      rcases xs with - | ⟨d, rest⟩
      · -- Nothing is taken behind the first character, so the character stands alone.
        rw [List.nil_append] at h ⊢
        split at h
        · simp_all
        · cases h
        · cases h
        · exact absurd h (Nat.not_le_of_lt (Nat.zero_lt_of_lt (introducer_length_lt _)))
        · split <;> simp_all
      rw [List.cons_append] at h ⊢
      by_cases hline : c = '/' ∧ d = '/'
      · rcases hline with ⟨rfl, rfl⟩
        simp only [List.length_cons] at h ⊢
        rw [takeWhile_append_of_le (Nat.le_of_succ_le_succ h)]
      by_cases hblock : c = '/' ∧ d = '*'
      · rcases hblock with ⟨rfl, rfl⟩
        simp only [List.length_cons] at h ⊢
        rw [commentTail_front (Nat.le_of_succ_le_succ h)]
      by_cases hdoc : c = '<' ∧ d = '<'
      · rcases hdoc with ⟨rfl, rfl⟩
        exact heredocTail_append h
      · clear h
        split <;> simp_all

/-- The text of the first lexemes of a text is cut into these, and what is behind it into the
others. -/
theorem split_append {as bs : List Lexeme} (h : split (xs ++ ys) = as ++ bs)
    (hxs : as.flatMap text = xs) : split xs = as ∧ split ys = bs := by
  -- Along the front lexemes, each read from the text that is still in front of `ys`.
  induction as generalizing xs with
  | nil =>
    subst hxs
    exact ⟨rfl, h⟩
  | cons a as ih =>
    rcases xs with - | ⟨c, cs⟩
    · have hsound := split_sound _ a (by rw [h]; exact List.mem_cons_self)
      exact absurd (List.append_eq_nil_iff.1 hxs).1 hsound.text_ne_nil
    · rw [List.cons_append, split_cons, List.cons_append, List.cons.injEq] at h
      rcases h with ⟨hfirst, hrest⟩
      rw [← hfirst, List.flatMap_cons, next_text, List.cons_append, List.cons.injEq] at hxs
      have hcs := hxs.2
      have hle : (tail c (cs ++ ys)).2.length ≤ cs.length := by
        have hlength := congrArg List.length hcs
        rw [List.length_append] at hlength
        omega
      -- The first lexeme ends inside `xs`, so what follows `xs` had no part in it.
      have htail := tail_append hle
      have hdrop : cs.drop (tail c (cs ++ ys)).2.length = as.flatMap text := by
        generalize (tail c (cs ++ ys)).2 = front at hcs
        rw [← hcs, List.drop_left]
      rw [List.drop_append_of_le_length hle, hdrop] at hrest
      rcases ih hrest rfl with ⟨has, hbs⟩
      refine ⟨?_, hbs⟩
      rw [split_cons, ← htail, hdrop, has, ← hfirst, next, next, htail]

/-- The text of neighbouring lexemes is cut into these lexemes. -/
theorem split_flatMap {cs : List Char} {as bs ds : List Lexeme} (h : split cs = as ++ bs ++ ds) :
    split (bs.flatMap text) = bs := by
  have hcs : cs = as.flatMap text ++ (bs.flatMap text ++ ds.flatMap text) := by
    rw [← flatMap_text_split cs, h]
    simp
  rw [hcs, List.append_assoc] at h
  have hbehind := (split_append h rfl).2
  exact (split_append hbehind rfl).1

end Overlay.Hcl.Lexeme
