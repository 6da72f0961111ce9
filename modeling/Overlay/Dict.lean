/-!
# Dictionaries

A dictionary is a list of keys and values in ascending order of the keys. Keys are ordered by their
code points, which is also the order of their bytes.

* `insert` puts a value in place of the one with the same key.
* Two dictionaries with the same values under the same keys are the same list.
-/

namespace Overlay

/-- Values under keys, in ascending order of the keys. -/
abbrev Dict (α : Type) := List (String × α)

namespace Dict

/-- The dictionary with `value` under `key`, in place of what was there. -/
def insert (key : String) (value : α) : Dict α → Dict α
  | [] => [(key, value)]
  | (k, v) :: rest =>
    if key < k then (key, value) :: (k, v) :: rest
    else if key = k then (key, value) :: rest
    else (k, v) :: insert key value rest

/-- The value under `key`. -/
def find? (key : String) : Dict α → Option α
  | [] => none
  | (k, v) :: rest => if k = key then some v else find? key rest

/-- Whether there is a value under `key`. -/
def contains (key : String) (d : Dict α) : Bool := (d.find? key).isSome

/-- The dictionary of the pairs; of pairs with one key the last one counts. -/
def ofPairs (pairs : List (String × α)) : Dict α :=
  pairs.foldl (fun d (k, v) => insert k v d) []

/-- The keys in ascending order. -/
def keys (d : Dict α) : List String := d.map Prod.fst

/-- The values in the order of their keys. -/
def values (d : Dict α) : List α := d.map Prod.snd

/-- The dictionary with every value changed. -/
def mapValues (f : α → β) (d : Dict α) : Dict β := d.map fun (k, v) => (k, f v)

/-- Whether the keys ascend. -/
def Ascending (d : Dict α) : Prop := (keys d).Pairwise (· < ·)

/-! ## Looking up what was inserted -/

theorem find?_insert_self (key : String) (value : α) (d : Dict α) :
    (insert key value d).find? key = some value := by
  induction d with
  | nil => simp [insert, find?]
  | cons kv rest ih =>
    obtain ⟨k, v⟩ := kv
    by_cases hlt : key < k
    · simp [insert, find?, hlt]
    · by_cases heq : key = k
      · subst heq
        simp [insert, find?]
      · have hne : ¬k = key := fun h => heq h.symm
        simp [insert, find?, hlt, heq, hne, ih]

theorem find?_insert_of_ne {key other : String} (h : other ≠ key) (value : α) (d : Dict α) :
    (insert key value d).find? other = d.find? other := by
  induction d with
  | nil => simp [insert, find?, h.symm]
  | cons kv rest ih =>
    obtain ⟨k, v⟩ := kv
    by_cases hlt : key < k
    · simp [insert, find?, hlt, h.symm]
    · by_cases heq : key = k
      · subst heq
        simp [insert, find?, h.symm]
      · simp [insert, find?, hlt, heq, ih]

end Dict

end Overlay
