import Overlay.Proofs.Toml.Keys
import Overlay.Toml.Dates

/-!
# Documents with dates

The dates that tables stand for leave the keys of all other tables as they are, so no key stands
twice in the document that a text is with its dates (`parseDated?_distinct`). A document is as it
was if none of its tables stands for a date (`withDates?_of_undated`).
-/

namespace Overlay

/-- Whether no table of a document stands for a date. -/
def Json.Undated : Json → Prop
  | null | bool _ | integer _ | float _ | string _ => True
  | array items => itemsUndated items
  | object members => Toml.marked? members = none ∧ membersUndated members
where
  /-- Whether none in the items does. -/
  itemsUndated : List Json → Prop
  | [] => True
  | x :: xs => x.Undated ∧ itemsUndated xs
  /-- Whether none in the members does. -/
  membersUndated : List (String × Json) → Prop
  | [] => True
  | (_, x) :: rest => x.Undated ∧ membersUndated rest

namespace Toml

/-! ## Keys -/

theorem date?_distinct {text : String} {x : Json} (h : date? text = some x) : x.Distinct := by
  unfold date? at h
  split at h
  · cases h
    exact ⟨List.nodup_singleton _, trivial, trivial⟩
  · cases h

theorem keys_membersWithDates {members dated : List (String × Json)}
    (h : withDates?.membersWithDates? members = some dated) :
    Dict.keys dated = Dict.keys members := by
  induction members generalizing dated with
  | nil =>
    cases h
    rfl
  | cons member rest ih =>
    rcases member with ⟨key, x⟩
    rcases Option.bind_eq_some_iff.1 h with ⟨y, -, h⟩
    rcases Option.bind_eq_some_iff.1 h with ⟨others, hothers, heq⟩
    cases heq
    exact congrArg (key :: ·) (ih hothers)

mutual

/-- A document keeps its keys apart with the dates that its tables stand for. -/
theorem withDates?_distinct : ∀ {x y : Json}, x.Distinct → withDates? x = some y → y.Distinct
  | .null, _, hx, h | .bool _, _, hx, h | .integer _, _, hx, h | .float _, _, hx, h
  | .string _, _, hx, h => by
    cases h
    exact hx
  | .array items, y, hx, h => by
    rw [withDates?.eq_def] at h
    rcases Option.map_eq_some_iff.1 h with ⟨dated, hdated, rfl⟩
    exact itemsWithDates?_distinct hx hdated
  | .object members, y, hx, h => by
    rw [withDates?.eq_def] at h
    dsimp only at h
    split at h
    · exact date?_distinct h
    · cases h
    · rcases Option.map_eq_some_iff.1 h with ⟨dated, hdated, rfl⟩
      refine ⟨?_, membersWithDates?_distinct hx.2 hdated⟩
      rw [keys_membersWithDates hdated]
      exact hx.1

theorem itemsWithDates?_distinct : ∀ {xs ys : List Json}, Json.Distinct.itemsDistinct xs →
    withDates?.itemsWithDates? xs = some ys → Json.Distinct.itemsDistinct ys
  | [], ys, _, h => by
    cases h
    trivial
  | x :: xs, ys, hx, h => by
    rcases Option.bind_eq_some_iff.1 h with ⟨y, hy, h⟩
    rcases Option.bind_eq_some_iff.1 h with ⟨others, hothers, heq⟩
    cases heq
    exact ⟨withDates?_distinct hx.1 hy, itemsWithDates?_distinct hx.2 hothers⟩

theorem membersWithDates?_distinct : ∀ {members dated : List (String × Json)},
    Json.Distinct.membersDistinct members → withDates?.membersWithDates? members = some dated →
      Json.Distinct.membersDistinct dated
  | [], dated, _, h => by
    cases h
    trivial
  | (key, x) :: rest, dated, hx, h => by
    rcases Option.bind_eq_some_iff.1 h with ⟨y, hy, h⟩
    rcases Option.bind_eq_some_iff.1 h with ⟨others, hothers, heq⟩
    cases heq
    exact ⟨withDates?_distinct hx.1 hy, membersWithDates?_distinct hx.2 hothers⟩

end

/-- No key stands twice in the document that a text is with its dates. -/
theorem parseDated?_distinct {text : String} {x : Json} (h : parseDated? text = some x) :
    x.Distinct := by
  rcases Option.bind_eq_some_iff.1 h with ⟨t, ht, h⟩
  rcases Option.bind_eq_some_iff.1 h with ⟨dated, hdated, heq⟩
  cases heq
  rcases readTable?_distinct ht with ⟨hkeys, hmembers⟩
  refine ⟨?_, membersWithDates?_distinct hmembers hdated⟩
  rw [keys_membersWithDates hdated]
  exact hkeys

/-! ## Documents without dates -/

mutual

/-- A document is as it was if none of its tables stands for a date. -/
theorem withDates?_of_undated : ∀ {x : Json}, x.Undated → withDates? x = some x
  | .null, _ | .bool _, _ | .integer _, _ | .float _, _ | .string _, _ => rfl
  | .array items, h => by
    rw [withDates?.eq_def]
    dsimp only
    rw [itemsWithDates?_of_undated h, Option.map_some]
  | .object members, h => by
    rw [withDates?.eq_def]
    dsimp only
    rw [h.1]
    dsimp only
    rw [membersWithDates?_of_undated h.2, Option.map_some]

theorem itemsWithDates?_of_undated : ∀ {xs : List Json}, Json.Undated.itemsUndated xs →
    withDates?.itemsWithDates? xs = some xs
  | [], _ => rfl
  | x :: xs, h => by
    rw [withDates?.itemsWithDates?, withDates?_of_undated h.1, itemsWithDates?_of_undated h.2]
    rfl

theorem membersWithDates?_of_undated : ∀ {members : List (String × Json)},
    Json.Undated.membersUndated members → withDates?.membersWithDates? members = some members
  | [], _ => rfl
  | (key, x) :: rest, h => by
    rw [withDates?.membersWithDates?, withDates?_of_undated h.1, membersWithDates?_of_undated h.2]
    rfl

end

/-- A text is read the same way with its dates and without, if no table in it stands for a date. -/
theorem parse?_eq_map_parseDated? {text : String} {t : Table} (h : readTable? text = some t)
    (hundated : Json.Undated.membersUndated (Item.toJson.membersToJson t.members)) :
    parse? text = (parseDated? text).map Json.collapse := by
  have hdated := membersWithDates?_of_undated hundated
  rw [parse?, parseDated?, h]
  simp only [Option.bind_eq_bind, Option.bind_some, hdated]
  rfl

end Toml

end Overlay
