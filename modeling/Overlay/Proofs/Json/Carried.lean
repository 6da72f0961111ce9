import Overlay.Proofs.Json.Quoting
import Overlay.Proofs.Value.Reading

/-!
# What an evaluation carries

An expression may hold texts that have become shorter on the way to it. Its evaluation then fails,
or gives a value with less text than the one that was meant.

* `Value.textSize` counts the characters of all strings and keys in a value.
* `Carries` says of an evaluation that it gives the value meant if that one survives, and else has a
  problem or gives a smaller one. `CarriesEntry` and `CarriesEntries` say so of an object's entries.
* Entries that evaluate without problems have different keys, so an object has all of their text
  (`evaluateEntries_size`).
-/

namespace Overlay

open Hcl (Expr Entry evaluateItems evaluateEntries)

/-! ## Sizes -/

namespace Value

/-- How many characters the strings and the keys in a value have. -/
def textSize : Value → Nat
  | null | unknown | bool _ | number _ | capsule _ => 0
  | string s => s.length
  | list items | set items | tuple items => itemsSize items
  | map entries | object entries => entriesSize entries
where
  /-- How many they have in all items. -/
  itemsSize : List Value → Nat
  | [] => 0
  | v :: vs => v.textSize + itemsSize vs
  /-- How many they have in all keys and values. -/
  entriesSize : List (String × Value) → Nat
  | [] => 0
  | (key, v) :: rest => key.length + v.textSize + entriesSize rest

open textSize (itemsSize entriesSize)

theorem entriesSize_insert {values : Dict Value} {key : String} (h : values.find? key = none)
    (v : Value) :
    entriesSize (values.insert key v) = entriesSize values + (key.length + v.textSize) := by
  induction values with
  | nil => simp [Dict.insert, entriesSize]
  | cons kv rest ih =>
    rcases kv with ⟨k, w⟩
    unfold Dict.find? at h
    have hne : k ≠ key := by
      rintro rfl
      simp at h
    rw [if_neg hne] at h
    unfold Dict.insert
    split
    · simp only [entriesSize]
      omega
    · rw [if_neg (Ne.symm hne)]
      simp only [entriesSize, ih h]
      omega

end Value

open Value.textSize (itemsSize entriesSize)

namespace Json

/-! ## Values -/

/-- What is left of two parts together. -/
theorem Kept.both {α β γ : Type} {A B : Prop} {f : α → β → γ} {size : α → Nat} {size' : β → Nat}
    {total : γ → Nat} (htotal : ∀ x y, total (f x y) = size x + size' y) {x x' : α} {y y' : β}
    (hx : Kept A size x x') (hy : Kept B size' y y') :
    Kept (A ∧ B) total (f x y) (f x' y') := by
  have hle := hx.size_le
  have hle' := hy.size_le
  unfold Kept
  rw [htotal, htotal]
  rcases hx with ⟨hA, rfl⟩ | ⟨hA, hlt⟩
  · rcases hy with ⟨hB, rfl⟩ | ⟨hB, hlt⟩
    · exact .inl ⟨⟨hA, hB⟩, rfl⟩
    · exact .inr ⟨fun h => hB h.2, by omega⟩
  · exact .inr ⟨fun h => hA h.1, by omega⟩

/-- Whether an evaluation gives what is left of `v`, or has a problem because it does not survive. -/
def Carries {α : Type} (survives : Prop) (size : α → Nat) (x : Evaluated α) (v : α) : Prop :=
  ¬survives ∧ x.faults ≠ [] ∨ ∃ w, x = .pure w ∧ Kept survives size w v

/-- An evaluation that cannot fail. -/
theorem carries_pure {α : Type} (size : α → Nat) (v : α) : Carries True size (.pure v) v :=
  .inr ⟨v, rfl, .inl ⟨trivial, rfl⟩⟩

/-- What survives is the value. -/
theorem Carries.eq_pure {α : Type} {survives : Prop} {size : α → Nat} {x : Evaluated α} {v : α}
    (h : Carries survives size x v) (hsurvives : survives) : x = .pure v := by
  rcases h with ⟨hspoiled, -⟩ | ⟨w, rfl, ⟨-, rfl⟩ | ⟨hspoiled, -⟩⟩
  · exact absurd hsurvives hspoiled
  · rfl
  · exact absurd hsurvives hspoiled

/-- An evaluation to the value without problems shows that it survives. -/
theorem Carries.survives {α : Type} {survives : Prop} {size : α → Nat} {x : Evaluated α} {v : α}
    (h : Carries survives size x v) (hfaults : x.faults = []) (hresult : x.result = v) :
    survives := by
  rcases h with ⟨-, hfault⟩ | ⟨w, rfl, ⟨hsurvives, -⟩ | ⟨-, hlt⟩⟩
  · exact absurd hfaults hfault
  · exact hsurvives
  · have hsame : w = v := hresult
    rw [hsame] at hlt
    exact absurd hlt (Nat.lt_irrefl _)

theorem Carries.map {α β : Type} {survives : Prop} {size : α → Nat} {size' : β → Nat} {f : α → β}
    (hsize : ∀ x, size' (f x) = size x) {x : Evaluated α} {v : α} (h : Carries survives size x v) :
    Carries survives size' (x.map f) (f v) := by
  rcases h with hfault | ⟨w, rfl, hkept⟩
  · exact .inl hfault
  · refine .inr ⟨f w, rfl, ?_⟩
    unfold Kept
    rw [hsize, hsize]
    rcases hkept with ⟨hsurvives, rfl⟩ | hlt
    · exact .inl ⟨hsurvives, rfl⟩
    · exact .inr hlt

theorem carries_cons {A B : Prop} {e : Expr} {es : List Expr} {v : Value} {vs : List Value}
    (he : Carries A Value.textSize e.evaluate v) (hes : Carries B itemsSize (evaluateItems es) vs) :
    Carries (A ∧ B) itemsSize (evaluateItems (e :: es)) (v :: vs) := by
  unfold evaluateItems
  rcases he with ⟨hA, hfault⟩ | ⟨w, hw, hkept⟩
  · refine .inl ⟨fun h => hA h.1, ?_⟩
    exact List.append_ne_nil_of_left_ne_nil hfault _
  · rcases hes with ⟨hB, hfault⟩ | ⟨ws, hws, hkept'⟩
    · refine .inl ⟨fun h => hB h.2, ?_⟩
      exact List.append_ne_nil_of_right_ne_nil _ hfault
    · rw [hw, hws]
      refine .inr ⟨w :: ws, rfl, ?_⟩
      exact hkept.both (f := List.cons) (fun _ _ => rfl) hkept'

/-! ## Entries -/

/-- Whether an entry gives what is left of a key and its value, or has a problem. -/
def CarriesEntry (survives : Prop) (e : Entry) (key : String) (v : Value) : Prop :=
  ¬survives ∧ e.value.evaluate.faults ≠ [] ∨
    ∃ l w, e.key.evaluate = .pure (some l) ∧ e.value.evaluate = .pure w ∧
      Kept survives (fun kv => kv.1.length + kv.2.textSize) (l, w) (key, v)

/-- Whether entries give what is left of keys and values, or have a problem, whatever stands in
front of them. -/
def CarriesEntries (survives : Prop) (es : List Entry) (entries : List (String × Value)) : Prop :=
  ¬survives ∧ (∀ seen values, (evaluateEntries seen values es).faults ≠ []) ∨
    ∃ left, Hcl.Denotes left es ∧ Kept survives entriesSize left entries

/-- The problems of entries are those of the first value, some about its key, and those of the
others. -/
theorem exists_evaluateEntries_cons (seen : Dict Span) (values : Dict Value) (e : Entry)
    (es : List Entry) : ∃ seen' values' own, (evaluateEntries seen values (e :: es)).faults =
      e.value.evaluate.faults ++ (own ++ (evaluateEntries seen' values' es).faults) := by
  rcases e with ⟨key, value⟩
  rw [evaluateEntries]
  dsimp only [Entry.value]
  split
  · exact ⟨seen, values, key.evaluate.faults, List.append_assoc _ _ _⟩
  · next name _ =>
    split
    · next first _ =>
      refine ⟨seen, values, key.evaluate.faults ++ [⟨.duplicateKey name first, key.span⟩], ?_⟩
      rw [List.append_assoc, List.append_assoc]
      rfl
    · exact ⟨_, _, key.evaluate.faults, List.append_assoc _ _ _⟩

theorem carriesEntries_nil : CarriesEntries True [] [] :=
  .inr ⟨[], .nil, .inl ⟨trivial, rfl⟩⟩

theorem carriesEntries_cons {A B : Prop} {e : Entry} {es : List Entry} {key : String} {v : Value}
    {entries : List (String × Value)} (he : CarriesEntry A e key v)
    (hes : CarriesEntries B es entries) :
    CarriesEntries (A ∧ B) (e :: es) ((key, v) :: entries) := by
  rcases he with ⟨hA, hfault⟩ | ⟨l, w, hkey, hvalue, hkept⟩
  · refine .inl ⟨fun h => hA h.1, ?_⟩
    intro seen values
    rcases exists_evaluateEntries_cons seen values e es with ⟨seen', values', own, hfaults⟩
    rw [hfaults]
    exact List.append_ne_nil_of_left_ne_nil hfault _
  · rcases hes with ⟨hB, hfault⟩ | ⟨left, hleft, hkept'⟩
    · refine .inl ⟨fun h => hB h.2, ?_⟩
      intro seen values
      rcases exists_evaluateEntries_cons seen values e es with ⟨seen', values', own, hfaults⟩
      rw [hfaults]
      have hmore := hfault seen' values'
      exact List.append_ne_nil_of_right_ne_nil _ (List.append_ne_nil_of_right_ne_nil _ hmore)
    · refine .inr ⟨(l, w) :: left, .cons ⟨hkey, hvalue⟩ hleft, ?_⟩
      exact hkept.both (f := fun kv entries => kv :: entries) (fun _ _ => rfl) hkept'

/-- Without problems the keys differ, and nothing is lost. -/
theorem evaluateEntries_size {es : List Entry} {left : List (String × Value)}
    (h : Hcl.Denotes left es) : ∀ {seen : Dict Span} {values : Dict Value},
      (∀ k, seen.find? k = none → values.find? k = none) →
        (evaluateEntries seen values es).faults = [] →
          entriesSize (evaluateEntries seen values es).result =
            entriesSize values + entriesSize left := by
  induction h with
  | nil =>
    intro seen values _ _
    rfl
  | @cons e kv es left hkv hrest ih =>
    intro seen values hfresh hfaults
    rcases e with ⟨key, value⟩
    rcases kv with ⟨k, v⟩
    rcases hkv with ⟨hkey, hvalue⟩
    simp only [Entry.key, Entry.value] at hkey hvalue
    unfold evaluateEntries at hfaults ⊢
    rw [hkey, hvalue] at hfaults ⊢
    dsimp only [Evaluated.pure] at hfaults ⊢
    cases hfind : seen.find? k with
    | some first =>
      rw [hfind] at hfaults
      exact absurd hfaults (List.cons_ne_nil _ _)
    | none =>
      rw [hfind] at hfaults
      dsimp only at hfaults ⊢
      -- The keys seen so far include those of the values, so the next key is new to both.
      have hnext : ∀ l, (seen.insert k key.span).find? l = none →
          (values.insert k v).find? l = none := by
        intro l hl
        by_cases hsame : l = k
        · subst hsame
          rw [Dict.find?_insert_self] at hl
          cases hl
        · rw [Dict.find?_insert_of_ne hsame] at hl ⊢
          exact hfresh l hl
      have hsize := ih hnext hfaults
      rw [hsize, Value.entriesSize_insert (hfresh k hfind) v, entriesSize]
      omega

/-- The dictionary of entries whose keys were meant to ascend. -/
theorem carries_entries {survives : Prop} {es : List Entry} {entries : List (String × Value)}
    (h : CarriesEntries survives es entries) (hasc : Dict.Ascending entries) :
    Carries survives entriesSize (evaluateEntries [] [] es) entries := by
  rcases h with ⟨hspoiled, hfault⟩ | ⟨left, hleft, ⟨hsurvives, rfl⟩ | ⟨hspoiled, hlt⟩⟩
  · exact .inl ⟨hspoiled, hfault [] []⟩
  · have hevaluated : evaluateEntries [] [] es = .pure ([] ++ left) :=
      Hcl.evaluateEntries_of_denotes hleft (fun _ _ => rfl) hasc
    exact .inr ⟨left, hevaluated, .inl ⟨hsurvives, rfl⟩⟩
  · -- Shortened keys need not ascend, but the size of the dictionary does not depend on the order.
    by_cases hfaults : (evaluateEntries [] [] es).faults = []
    · have hsize := evaluateEntries_size hleft (fun _ _ => rfl) hfaults
      refine .inr ⟨(evaluateEntries [] [] es).result, ?_, .inr ⟨hspoiled, ?_⟩⟩
      · unfold Evaluated.pure
        rw [← hfaults]
      · rw [hsize]
        show 0 + entriesSize left < entriesSize entries
        omega
    · exact .inl ⟨hspoiled, hfaults⟩

end Json

end Overlay
