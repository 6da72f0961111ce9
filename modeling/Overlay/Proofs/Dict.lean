import Mathlib.Data.List.Induction
import Mathlib.Data.List.Nodup
import Mathlib.Data.String.Basic
import Overlay.Dict

/-!
# Dictionaries in order

* `ascending_insert`: an insertion keeps the keys in order, so every dictionary that is made of
  insertions ascends.
* In an ascending dictionary a key stands once, so looking up a key finds its pair
  (`find?_eq_some_iff`), and a new value under an old key leaves the keys as they are
  (`keys_insert`).
* `perm_ofPairs`: a dictionary that is made of pairs holds the latest pair of every key.
-/

namespace Overlay.Dict

variable {α β : Type} {d : Dict α} {key other : String} {value : α}

theorem ascending_nil : Ascending ([] : Dict α) := List.Pairwise.nil

theorem ascending_cons {rest : Dict α} :
    Ascending ((key, value) :: rest) ↔ (∀ k ∈ keys rest, key < k) ∧ Ascending rest :=
  List.pairwise_cons

theorem ascending_append {d e : Dict α} :
    Ascending (d ++ e) ↔ Ascending d ∧ Ascending e ∧ ∀ k ∈ keys d, ∀ l ∈ keys e, k < l := by
  unfold Ascending keys
  rw [List.map_append, List.pairwise_append]

theorem mem_keys_of_mem (h : (key, value) ∈ d) : key ∈ keys d := List.mem_map_of_mem h

/-! ## Insertions -/

theorem mem_keys_insert {k : String} : k ∈ keys (insert key value d) ↔ k = key ∨ k ∈ keys d := by
  induction d with
  | nil => simp [insert, keys]
  | cons kv rest ih =>
    rcases kv with ⟨l, v⟩
    have hcons : ∀ (w : α) (d : Dict α), k ∈ keys ((l, w) :: d) ↔ k = l ∨ k ∈ keys d := by
      simp [keys]
    rw [insert]
    split_ifs with hlt heq
    · simp [keys]
    · subst heq
      rw [hcons, hcons]
      simp
    · rw [hcons, hcons, ih]
      exact or_left_comm

theorem ascending_insert (h : Ascending d) (key : String) (value : α) :
    Ascending (insert key value d) := by
  induction d with
  | nil => exact ascending_cons.2 ⟨by simp [keys], ascending_nil⟩
  | cons kv rest ih =>
    rcases kv with ⟨l, v⟩
    rcases ascending_cons.1 h with ⟨hl, hrest⟩
    rw [insert]
    split_ifs with hlt heq
    · refine ascending_cons.2 ⟨?_, h⟩
      intro k hk
      rcases List.mem_cons.1 hk with rfl | hk
      · exact hlt
      · exact hlt.trans (hl k hk)
    · subst heq
      exact ascending_cons.2 ⟨hl, hrest⟩
    · have hgt : l < key := lt_of_le_of_ne (not_lt.1 hlt) (Ne.symm heq)
      refine ascending_cons.2 ⟨?_, ih hrest⟩
      intro k hk
      rcases mem_keys_insert.1 hk with rfl | hk
      · exact hgt
      · exact hl k hk

/-- A pair behind an insertion is the new one or an old one. -/
theorem mem_insert {pair : String × α} (h : pair ∈ insert key value d) :
    pair = (key, value) ∨ pair ∈ d := by
  induction d with
  | nil => exact .inl (by simpa [insert] using h)
  | cons kv rest ih =>
    rcases kv with ⟨l, v⟩
    rw [insert] at h
    split_ifs at h with hlt heq
    · simpa using h
    · rcases List.mem_cons.1 h with hp | hp
      · exact .inl hp
      · exact .inr (List.mem_cons_of_mem _ hp)
    · rcases List.mem_cons.1 h with hp | hp
      · exact .inr (hp ▸ List.mem_cons_self)
      · rcases ih hp with hself | hrest
        · exact .inl hself
        · exact .inr (List.mem_cons_of_mem _ hrest)

/-- A key that is filtered out may be inserted. -/
theorem filter_insert {p : String → Bool} (h : p key = false) :
    (insert key value d).filter (fun kv => p kv.1) = d.filter fun kv => p kv.1 := by
  induction d with
  | nil => simp [insert, h]
  | cons kv rest ih =>
    rcases kv with ⟨l, v⟩
    rw [insert]
    split_ifs with hlt heq
    · simp [h]
    · subst heq
      simp [h]
    · rw [List.filter_cons, List.filter_cons, ih]

theorem ascending_ofPairs (pairs : List (String × α)) : Ascending (ofPairs pairs) := by
  have hrun : ∀ (pairs : List (String × α)) (d : Dict α), Ascending d →
      Ascending (pairs.foldl (fun d kv => insert kv.1 kv.2 d) d) := by
    intro pairs
    induction pairs with
    | nil => exact fun d h => h
    | cons pair rest ih => exact fun d h => ih _ (ascending_insert h _ _)
  exact hrun pairs [] ascending_nil

theorem mem_ofPairs {pair : String × α} {pairs : List (String × α)} (h : pair ∈ ofPairs pairs) :
    pair ∈ pairs := by
  have hrun : ∀ (pairs : List (String × α)) (d : Dict α),
      pair ∈ pairs.foldl (fun d kv => insert kv.1 kv.2 d) d → pair ∈ d ∨ pair ∈ pairs := by
    intro pairs
    induction pairs with
    | nil => exact fun d h => .inl h
    | cons first rest ih =>
      intro d h
      rcases ih _ h with hd | hrest
      · rcases mem_insert hd with hnew | hold
        · exact .inr (hnew ▸ List.mem_cons_self)
        · exact .inl hold
      · exact .inr (List.mem_cons_of_mem _ hrest)
  rcases hrun pairs [] h with hnil | hmem
  · cases hnil
  · exact hmem

/-! ## Looking up -/

theorem mem_of_find? (h : d.find? key = some value) : (key, value) ∈ d := by
  induction d with
  | nil => simp [find?] at h
  | cons kv rest ih =>
    rcases kv with ⟨l, v⟩
    rw [find?] at h
    split_ifs at h with heq
    · cases h
      exact heq ▸ List.mem_cons_self
    · exact List.mem_cons_of_mem _ (ih h)

theorem nodup_keys (h : Ascending d) : (keys d).Nodup := h.imp fun hlt => hlt.ne

/-- Where keys stand once, looking up the key of a pair finds that pair. -/
theorem find?_of_mem (h : (keys d).Nodup) (hmem : (key, value) ∈ d) : d.find? key = some value := by
  induction d with
  | nil => cases hmem
  | cons kv rest ih =>
    rcases kv with ⟨l, v⟩
    rcases List.nodup_cons.1 h with ⟨hl, hrest⟩
    rw [find?]
    rcases List.mem_cons.1 hmem with heq | hmem
    · cases heq
      rw [if_pos rfl]
    · have hne : ¬l = key := fun heq => hl (heq ▸ mem_keys_of_mem hmem)
      rw [if_neg hne]
      exact ih hrest hmem

theorem find?_eq_some_iff (h : Ascending d) : d.find? key = some value ↔ (key, value) ∈ d :=
  ⟨mem_of_find?, find?_of_mem (nodup_keys h)⟩

/-- A new value under an old key leaves the keys as they are. -/
theorem keys_insert (h : Ascending d) (hkey : key ∈ keys d) (value : α) :
    keys (insert key value d) = keys d := by
  induction d with
  | nil => cases hkey
  | cons kv rest ih =>
    rcases kv with ⟨l, v⟩
    rcases ascending_cons.1 h with ⟨hl, hrest⟩
    rw [insert]
    rcases List.mem_cons.1 hkey with rfl | hkey
    · rw [if_neg (lt_irrefl key), if_pos rfl]
      rfl
    · have hgt := hl key hkey
      rw [if_neg (not_lt.2 hgt.le), if_neg hgt.ne']
      exact congrArg (l :: ·) (ih hrest hkey)

/-- A new value that looks like the old one leaves the dictionary looking as it did. -/
theorem mapValues_insert {f : α → β} {old : α} (h : Ascending d) (hold : d.find? key = some old)
    (hf : f value = f old) : mapValues f (insert key value d) = mapValues f d := by
  induction d with
  | nil => simp [find?] at hold
  | cons kv rest ih =>
    rcases kv with ⟨l, v⟩
    rcases ascending_cons.1 h with ⟨hl, hrest⟩
    rw [find?] at hold
    rw [insert]
    by_cases heq : l = key
    · subst heq
      rw [if_pos rfl] at hold
      cases hold
      rw [if_neg (lt_irrefl l), if_pos rfl]
      simp [mapValues, hf]
    · rw [if_neg heq] at hold
      have hgt := hl key (mem_keys_of_mem (mem_of_find? hold))
      rw [if_neg (not_lt.2 hgt.le), if_neg hgt.ne']
      exact congrArg ((l, f v) :: ·) (ih hrest hold)

/-! ## A key behind all others -/

/-- A key behind all others goes to the end. -/
theorem insert_of_forall_lt (h : ∀ k ∈ keys d, k < key) (value : α) :
    insert key value d = d ++ [(key, value)] := by
  induction d with
  | nil => rfl
  | cons kv rest ih =>
    rcases kv with ⟨l, v⟩
    have hlt := h l List.mem_cons_self
    rw [insert, if_neg (not_lt.2 hlt.le), if_neg hlt.ne',
      ih fun k hk => h k (List.mem_cons_of_mem _ hk)]
    rfl

/-! ## What pairs make -/

/-- The pairs behind which there is no pair with the same key. -/
def latest : List (String × α) → List (String × α)
  | [] => []
  | pair :: rest => if pair.1 ∈ keys rest then latest rest else pair :: latest rest

theorem latest_of_nodup {pairs : List (String × α)} (h : (keys pairs).Nodup) :
    latest pairs = pairs := by
  induction pairs with
  | nil => rfl
  | cons pair rest ih =>
    obtain ⟨hnew, hrest⟩ : pair.1 ∉ keys rest ∧ (keys rest).Nodup := List.nodup_cons.1 h
    rw [latest, if_neg hnew, ih hrest]

theorem mem_keys_latest {pairs : List (String × α)} :
    key ∈ keys (latest pairs) ↔ key ∈ keys pairs := by
  induction pairs with
  | nil => rfl
  | cons pair rest ih =>
    have hcons : ∀ more : List (String × α),
        key ∈ keys (pair :: more) ↔ key = pair.1 ∨ key ∈ keys more := fun more => List.mem_cons
    rw [latest, hcons]
    split_ifs with hlater
    · rw [ih]
      exact ⟨.inr, fun h => h.elim (fun heq => heq ▸ hlater) id⟩
    · rw [hcons, ih]

theorem keys_mapValues (f : α → β) (pairs : List (String × α)) :
    keys (mapValues f pairs) = keys pairs := by
  unfold keys mapValues
  rw [List.map_map]
  rfl

theorem latest_mapValues (f : α → β) (pairs : List (String × α)) :
    latest (mapValues f pairs) = mapValues f (latest pairs) := by
  induction pairs with
  | nil => rfl
  | cons pair rest ih =>
    have hcons : mapValues f (pair :: rest) = (pair.1, f pair.2) :: mapValues f rest := rfl
    rw [hcons, latest, latest, keys_mapValues, ih]
    split_ifs
    · rfl
    · rfl

/-- A pair that comes last replaces those with its key. -/
theorem latest_concat (pairs : List (String × α)) (pair : String × α) :
    latest (pairs ++ [pair]) = (latest pairs).filter (fun old => old.1 ≠ pair.1) ++ [pair] := by
  induction pairs with
  | nil => rfl
  | cons first rest ih =>
    have hkeys : first.1 ∈ keys (rest ++ [pair]) ↔ first.1 ∈ keys rest ∨ first.1 = pair.1 := by
      simp [keys]
    rw [List.cons_append, latest, latest, ih]
    by_cases hlater : first.1 ∈ keys rest
    · rw [if_pos (hkeys.2 (.inl hlater)), if_pos hlater]
    · rw [if_neg hlater]
      by_cases hsame : first.1 = pair.1
      · rw [if_pos (hkeys.2 (.inr hsame)), List.filter_cons_of_neg (by simpa using hsame)]
      · have hkept : first.1 ∉ keys (rest ++ [pair]) := by
          rw [hkeys, not_or]
          exact ⟨hlater, hsame⟩
        rw [if_neg hkept, List.filter_cons_of_pos (by simpa using hsame), List.cons_append]

/-- An insertion leaves the pairs under other keys as they are. -/
theorem perm_insert (h : Ascending d) (key : String) (value : α) :
    (insert key value d).Perm (d.filter (fun old => old.1 ≠ key) ++ [(key, value)]) := by
  induction d with
  | nil => exact .refl _
  | cons kv rest ih =>
    rcases kv with ⟨l, v⟩
    obtain ⟨hl, hrest⟩ := ascending_cons.1 h
    rw [insert]
    split_ifs with hlt heq
    · -- The key stands before all others.
      have hother : ∀ old ∈ (l, v) :: rest, decide (old.1 ≠ key) = true := by
        intro old hold
        have hbehind : l ≤ old.1 := by
          rcases List.mem_cons.1 hold with rfl | hold
          · exact le_refl _
          · exact (hl old.1 (mem_keys_of_mem hold)).le
        exact decide_eq_true (hlt.trans_le hbehind).ne'
      rw [List.filter_eq_self.2 hother]
      exact (List.perm_append_singleton _ _).symm
    · subst heq
      have hother : ∀ old ∈ rest, decide (old.1 ≠ key) = true := by
        intro old hold
        exact decide_eq_true (hl old.1 (mem_keys_of_mem hold)).ne'
      rw [List.filter_cons_of_neg (by simp), List.filter_eq_self.2 hother]
      exact (List.perm_append_singleton _ _).symm
    · rw [List.filter_cons_of_pos (by simpa using Ne.symm heq), List.cons_append]
      exact (ih hrest).cons _

/-- A dictionary is made of the latest pairs. -/
theorem perm_ofPairs (pairs : List (String × α)) : (ofPairs pairs).Perm (latest pairs) := by
  induction pairs using List.reverseRecOn with
  | nil => exact .refl _
  | append_singleton pairs pair ih =>
    have hinsert : ofPairs (pairs ++ [pair]) = insert pair.1 pair.2 (ofPairs pairs) := by
      unfold ofPairs
      rw [List.foldl_append]
      rfl
    rw [hinsert, latest_concat]
    exact (perm_insert (ascending_ofPairs pairs) pair.1 pair.2).trans
      ((ih.filter _).append_right [pair])

end Overlay.Dict
