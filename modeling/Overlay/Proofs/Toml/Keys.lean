import Overlay.Proofs.Source.Documents
import Overlay.Toml.Reader

/-!
# Keys of TOML tables

A key is set once, so no two keys of a table are the same.

* What sets a key, opens a table or adds one to an array keeps the keys of every table apart
  (`Table.set_distinct`, `Table.define_distinct`, `Table.append_distinct`), at the end of any path
  (`Table.descend_distinct`).
* So they are apart in the table that a text is read as (`readTable?_distinct`), and the document of
  the text has all of its members (`parse?_perm`).
-/

namespace Overlay

/-! ## Documents and tables -/

namespace Json

/-- Whether no two members of an object have one name, at any depth. -/
def Distinct : Json → Prop
  | null | bool _ | integer _ | float _ | string _ => True
  | array items => itemsDistinct items
  | object members => (Dict.keys members).Nodup ∧ membersDistinct members
where
  /-- Whether it is so in all items. -/
  itemsDistinct : List Json → Prop
  | [] => True
  | x :: xs => x.Distinct ∧ itemsDistinct xs
  /-- Whether it is so in all members. -/
  membersDistinct : List (String × Json) → Prop
  | [] => True
  | (_, x) :: rest => x.Distinct ∧ membersDistinct rest

theorem itemsDistinct_iff {items : List Json} :
    Distinct.itemsDistinct items ↔ ∀ x ∈ items, x.Distinct := by
  induction items with
  | nil => simp [Distinct.itemsDistinct]
  | cons x xs ih => rw [List.forall_mem_cons, Distinct.itemsDistinct, ih]

end Json

namespace Toml

/-- Whether no key stands twice in a table, at any depth of the item. -/
def Item.Distinct : Item → Prop
  | value x => x.Distinct
  | table _ members => (Dict.keys members).Nodup ∧ membersDistinct members
  | tables items => tablesDistinct items
where
  /-- Whether it is so in all members. -/
  membersDistinct : List (String × Item) → Prop
  | [] => True
  | (_, item) :: rest => item.Distinct ∧ membersDistinct rest
  /-- Whether it is so in all tables. -/
  tablesDistinct : List (List (String × Item)) → Prop
  | [] => True
  | members :: rest => ((Dict.keys members).Nodup ∧ membersDistinct members) ∧ tablesDistinct rest

theorem membersDistinct_iff {members : List (String × Item)} :
    Item.Distinct.membersDistinct members ↔ ∀ m ∈ members, m.2.Distinct := by
  induction members with
  | nil => simp [Item.Distinct.membersDistinct]
  | cons m rest ih => rw [List.forall_mem_cons, Item.Distinct.membersDistinct, ih]

namespace Table

/-- Whether no key stands twice in a table, at any depth. -/
structure Distinct (t : Table) : Prop where
  keys : (Dict.keys t.members).Nodup
  members : Item.Distinct.membersDistinct t.members

variable {t u : Table} {key : String} {item : Item} {dotted : Bool} {path : List String}

theorem empty_distinct (origin : Origin) : Distinct ⟨origin, []⟩ := ⟨List.nodup_nil, trivial⟩

/-! ## Changes of tables -/

theorem mem_place {m : String × Item} {members : List (String × Item)}
    (h : m ∈ put.place key item members) : m = (key, item) ∨ m ∈ members := by
  induction members with
  | nil => exact .inl (List.mem_singleton.1 h)
  | cons n rest ih =>
    rcases n with ⟨k, old⟩
    rw [put.place] at h
    split at h
    · next heq =>
      rcases List.mem_cons.1 h with rfl | hrest
      · exact .inl (by rw [heq])
      · exact .inr (List.mem_cons_of_mem _ hrest)
    · rcases List.mem_cons.1 h with rfl | hrest
      · exact .inr List.mem_cons_self
      · exact (ih hrest).imp_right (List.mem_cons_of_mem _)

theorem nodup_place {members : List (String × Item)} (h : (Dict.keys members).Nodup) :
    (Dict.keys (put.place key item members)).Nodup := by
  induction members with
  | nil => exact List.nodup_singleton _
  | cons m rest ih =>
    rcases m with ⟨k, old⟩
    rcases List.nodup_cons.1 h with ⟨hnew, hrest⟩
    rw [put.place]
    split
    · exact List.nodup_cons.2 ⟨hnew, hrest⟩
    · next hne =>
      refine List.nodup_cons.2 ⟨fun hmem => ?_, ih hrest⟩
      rcases List.mem_map.1 hmem with ⟨m, hm, heq⟩
      rcases mem_place hm with rfl | hold
      · exact hne heq.symm
      · exact hnew (List.mem_map.2 ⟨m, hold, heq⟩)

theorem Distinct.put (h : t.Distinct) (key : String) (item : Item) (hitem : item.Distinct) :
    (t.put key item).Distinct := by
  refine ⟨nodup_place h.keys, membersDistinct_iff.2 fun m hm => ?_⟩
  rcases mem_place hm with rfl | hold
  · exact hitem
  · exact membersDistinct_iff.1 h.members m hold

theorem Distinct.erase (h : t.Distinct) (key : String) : (t.erase key).Distinct := by
  have hsub : (t.erase key).members.Sublist t.members := List.filter_sublist
  refine ⟨h.keys.sublist (hsub.map _), membersDistinct_iff.2 fun m hm => ?_⟩
  exact membersDistinct_iff.1 h.members m (hsub.subset hm)

theorem Distinct.find? (h : t.Distinct) (hfind : t.find? key = some item) : item.Distinct :=
  membersDistinct_iff.1 h.members _ (Dict.mem_of_find? hfind)

/-- A change that keeps the keys of tables apart does so at the end of a path. -/
theorem descend_distinct {change : Table → Option Table}
    (hchange : ∀ {t u : Table}, t.Distinct → change t = some u → u.Distinct) :
    ∀ {path : List String} {t u : Table}, t.Distinct → descend dotted change path t = some u →
      u.Distinct := by
  intro path
  induction path with
  | nil => exact fun ht h => hchange ht h
  | cons key path ih =>
    intro t u ht h
    rw [descend] at h
    split at h
    · rcases Option.bind_eq_some_iff.1 h with ⟨child, hchild, hput⟩
      cases hput
      have hnew := ih (empty_distinct _) hchild
      exact ht.put key (.table _ _) ⟨hnew.keys, hnew.members⟩
    · next origin members hfind =>
      split_ifs at h
      rcases Option.bind_eq_some_iff.1 h with ⟨child, hchild, hput⟩
      cases hput
      have hold : (Dict.keys members).Nodup ∧ Item.Distinct.membersDistinct members := ht.find? hfind
      have hnew := ih ⟨hold.1, hold.2⟩ hchild
      exact ht.put key (.table _ _) ⟨hnew.keys, hnew.members⟩
    · -- An array of tables is entered at its last table; the others stay as they are.
      next lastTable others hfind =>
      rcases Option.bind_eq_some_iff.1 h with ⟨child, hchild, hput⟩
      cases hput
      have hold : ((Dict.keys lastTable).Nodup ∧ Item.Distinct.membersDistinct lastTable) ∧
          Item.Distinct.tablesDistinct others := ht.find? hfind
      have hnew := ih ⟨hold.1.1, hold.1.2⟩ hchild
      exact ht.put key (.tables _) ⟨⟨hnew.keys, hnew.members⟩, hold.2⟩
    · cases h

theorem set_distinct {isDotted : Bool} {x : Json} (hx : x.Distinct) (ht : t.Distinct)
    (h : set isDotted key x t = some u) : u.Distinct := by
  unfold set at h
  split_ifs at h
  cases h
  exact ht.put key (.value x) hx

theorem assign_distinct {x : Json} (hx : x.Distinct) (ht : t.Distinct)
    (h : assign path x t = some u) : u.Distinct := by
  unfold assign at h
  split at h
  · cases h
  · exact descend_distinct (set_distinct hx) ht h

theorem define_distinct (ht : t.Distinct) (h : define key t = some u) : u.Distinct := by
  unfold define at h
  split at h
  · cases h
    exact ht.put key (.table .header []) ⟨List.nodup_nil, trivial⟩
  · next members hfind =>
    cases h
    have hold : (Dict.keys members).Nodup ∧ Item.Distinct.membersDistinct members := ht.find? hfind
    exact (ht.erase key).put key (.table .header members) hold
  · cases h

theorem append_distinct (ht : t.Distinct) (h : append key t = some u) : u.Distinct := by
  unfold append at h
  split at h
  · cases h
    exact ht.put key (.tables [[]]) ⟨⟨List.nodup_nil, trivial⟩, trivial⟩
  · next items hfind =>
    cases h
    have hold : Item.Distinct.tablesDistinct items := ht.find? hfind
    exact ht.put key (.tables ([] :: items)) ⟨⟨List.nodup_nil, trivial⟩, hold⟩
  · cases h

theorem openTable_distinct {isArray : Bool} (ht : t.Distinct)
    (h : openTable isArray path t = some u) : u.Distinct := by
  unfold openTable at h
  split at h
  · cases h
  · cases isArray with
    | true => exact descend_distinct append_distinct ht h
    | false => exact descend_distinct define_distinct ht h

end Table

theorem keys_membersToJson (members : List (String × Item)) :
    Dict.keys (Item.toJson.membersToJson members) = Dict.keys members := by
  induction members with
  | nil => rfl
  | cons m rest ih =>
    rcases m with ⟨key, item⟩
    exact congrArg (key :: ·) ih

theorem nodup_membersToJson {members : List (String × Item)} (h : (Dict.keys members).Nodup) :
    (Dict.keys (Item.toJson.membersToJson members)).Nodup := by
  rwa [keys_membersToJson]

mutual

theorem Item.toJson_distinct : ∀ {item : Item}, item.Distinct → item.toJson.Distinct
  | .value _, h => h
  | .table _ _, h => ⟨nodup_membersToJson h.1, membersToJson_distinct h.2⟩
  | .tables items, h => by
    refine Json.itemsDistinct_iff.2 fun x hx => ?_
    exact Json.itemsDistinct_iff.1 (itemsToJson_distinct h) x (List.mem_reverse.1 hx)

theorem membersToJson_distinct : ∀ {members : List (String × Item)},
    Item.Distinct.membersDistinct members →
      Json.Distinct.membersDistinct (Item.toJson.membersToJson members)
  | [], _ => trivial
  | (_, _) :: _, h => ⟨Item.toJson_distinct h.1, membersToJson_distinct h.2⟩

theorem itemsToJson_distinct : ∀ {items : List (List (String × Item))},
    Item.Distinct.tablesDistinct items → Json.Distinct.itemsDistinct (Item.toJson.itemsToJson items)
  | [], _ => trivial
  | _ :: _, h =>
    ⟨⟨nodup_membersToJson h.1.1, membersToJson_distinct h.1.2⟩, itemsToJson_distinct h.2⟩

end

theorem Table.Distinct.toJson_distinct {t : Table} (h : t.Distinct) : t.toJson.Distinct :=
  ⟨nodup_membersToJson h.keys, membersToJson_distinct h.members⟩

/-! ## Values -/

/-- Whether no key stands twice in a document that a reader gives. -/
def ReadsDistinct (value : ValueReader) : Prop :=
  ∀ {cs : List Char} {x : Json} {rest : List Char}, value cs = some (x, rest) → x.Distinct

section Readers

variable {value : ValueReader} {x : Json} {cs rest : List Char} {t u : Table}

theorem integer?_distinct {n : Int} (h : integer? n = some x) : x.Distinct := by
  unfold integer? at h
  split_ifs at h
  cases h
  trivial

theorem float?_distinct {y : Numeric.Binary64} (h : float? y = some x) : x.Distinct := by
  unfold float? at h
  split_ifs at h
  all_goals
    cases h
    trivial

theorem readRadix_distinct (base : Nat) : ReadsDistinct (readRadix base) := by
  intro cs x rest h
  simp only [readRadix, Option.bind_eq_bind, Option.bind_eq_some_iff] at h
  rcases h with ⟨⟨ds, more⟩, -, values, -, y, hy, heq⟩
  cases heq
  exact integer?_distinct hy

theorem readDecimal_distinct (negative : Bool) : ReadsDistinct (readDecimal negative) := by
  intro cs x rest h
  simp only [readDecimal, Option.bind_eq_bind, Option.bind_eq_some_iff] at h
  rcases h with ⟨⟨whole, cs₁⟩, -, ⟨fraction, cs₂⟩, -, ⟨exponent, cs₃⟩, -, h⟩
  split at h
  · rcases Option.bind_eq_some_iff.1 h with ⟨y, hy, heq⟩
    cases heq
    exact integer?_distinct hy
  · rcases Option.bind_eq_some_iff.1 h with ⟨y, hy, heq⟩
    cases heq
    exact float?_distinct hy

theorem readNumber_distinct : ReadsDistinct readNumber := by
  intro cs x rest h
  unfold readNumber at h
  split at h
  · exact readRadix_distinct 16 h
  · exact readRadix_distinct 8 h
  · exact readRadix_distinct 2 h
  · dsimp only at h
    split at h
    · cases h
      trivial
    · cases h
      trivial
    · exact readDecimal_distinct _ h

theorem readScalar_distinct : ReadsDistinct readScalar := by
  intro cs x rest h
  have hbool : ∀ {cs : List Char}, readBool cs = some (x, rest) → x.Distinct := by
    intro cs h
    unfold readBool at h
    split at h
    · cases h
      trivial
    · cases h
      trivial
    · cases h
  unfold readScalar at h
  split at h
  · rcases Option.map_eq_some_iff.1 h with ⟨⟨text, more⟩, -, heq⟩
    cases heq
    trivial
  · rcases Option.map_eq_some_iff.1 h with ⟨⟨text, more⟩, -, heq⟩
    cases heq
    trivial
  · exact hbool h
  · exact hbool h
  · split at h
    · cases h
      exact ⟨List.pairwise_singleton _ _, trivial, trivial⟩
    · exact readNumber_distinct h

theorem readItems_distinct (hvalue : ReadsDistinct value) {fuel : Nat} {xs : List Json}
    (h : readItems value fuel cs = some (xs, rest)) : Json.Distinct.itemsDistinct xs := by
  induction fuel generalizing cs xs with
  | zero => cases h
  | succ fuel ih =>
    rw [readItems] at h
    split at h
    · cases h
      trivial
    · rcases Option.bind_eq_some_iff.1 h with ⟨⟨x, more⟩, hx, h⟩
      dsimp only at h
      split at h
      · cases h
        exact ⟨hvalue hx, trivial⟩
      · rcases Option.bind_eq_some_iff.1 h with ⟨⟨ys, others⟩, hys, heq⟩
        cases heq
        exact ⟨hvalue hx, ih hys⟩
      · cases h

theorem readAssignment_distinct (hvalue : ReadsDistinct value) {path : List String}
    (h : readAssignment value cs = some ((path, x), rest)) : x.Distinct := by
  simp only [readAssignment, Option.bind_eq_bind, Option.bind_eq_some_iff] at h
  rcases h with ⟨⟨key, cs₁⟩, -, cs₂, -, ⟨y, cs₃⟩, hy, heq⟩
  cases heq
  exact hvalue hy

theorem readInlineMembers_distinct (hvalue : ReadsDistinct value) {fuel : Nat} (ht : t.Distinct)
    (h : readInlineMembers value fuel t cs = some (u, rest)) : u.Distinct := by
  induction fuel generalizing cs t with
  | zero => cases h
  | succ fuel ih =>
    rw [readInlineMembers] at h
    rcases Option.bind_eq_some_iff.1 h with ⟨⟨⟨path, x⟩, more⟩, hx, h⟩
    rcases Option.bind_eq_some_iff.1 h with ⟨next, hnext, h⟩
    have hdistinct := Table.assign_distinct (readAssignment_distinct hvalue hx) ht hnext
    split at h
    · cases h
      exact hdistinct
    · exact ih hdistinct h
    · cases h

theorem readInlineTable_distinct (hvalue : ReadsDistinct value) :
    ReadsDistinct (readInlineTable value) := by
  intro cs x rest h
  unfold readInlineTable at h
  split at h
  · cases h
    exact ⟨List.nodup_nil, trivial⟩
  · rcases Option.map_eq_some_iff.1 h with ⟨⟨t, more⟩, ht, heq⟩
    cases heq
    exact (readInlineMembers_distinct hvalue (Table.empty_distinct _) ht).toJson_distinct

theorem readValue_distinct (room : Nat) : ReadsDistinct (readValue room) := by
  induction room with
  | zero =>
    intro cs x rest h
    cases h
  | succ room ih =>
    intro cs x rest h
    rw [readValue.eq_def] at h
    dsimp only at h
    split at h
    · split_ifs at h
      rcases Option.map_eq_some_iff.1 h with ⟨⟨xs, more⟩, hxs, heq⟩
      cases heq
      exact readItems_distinct ih hxs
    · split_ifs at h
      exact readInlineTable_distinct ih h
    · exact readScalar_distinct h

/-! ## Whole texts -/

variable {d e : Draft}

theorem readHeader_distinct (hd : d.root.Distinct) (h : readHeader d cs = some (e, rest)) :
    e.root.Distinct := by
  unfold readHeader at h
  rcases Option.bind_eq_some_iff.1 h with ⟨⟨path, cs₁⟩, -, h⟩
  rcases Option.bind_eq_some_iff.1 h with ⟨cs₂, -, h⟩
  dsimp only at h
  split at h
  all_goals
    rcases Option.bind_eq_some_iff.1 h with ⟨cs₃, -, h⟩
    rcases Option.bind_eq_some_iff.1 h with ⟨next, hnext, heq⟩
    cases heq
    exact Table.openTable_distinct hd hnext

theorem readMember_distinct (hd : d.root.Distinct) (h : readMember d cs = some (e, rest)) :
    e.root.Distinct := by
  simp only [readMember, Option.bind_eq_bind, Option.bind_eq_some_iff] at h
  rcases h with ⟨⟨⟨path, x⟩, cs₁⟩, hx, next, hnext, heq⟩
  cases heq
  have hvalue := readAssignment_distinct (readValue_distinct nestingLimit) hx
  exact Table.descend_distinct (Table.assign_distinct hvalue) hd hnext

theorem readLines_distinct {fuel : Nat} (hd : d.root.Distinct)
    (h : readLines fuel d cs = some e) : e.root.Distinct := by
  induction fuel generalizing d cs with
  | zero => cases h
  | succ fuel ih =>
    rw [readLines] at h
    split at h
    · cases h
      exact hd
    · dsimp only at h
      split_ifs at h
      all_goals
        rcases Option.bind_eq_some_iff.1 h with ⟨⟨next, more⟩, hnext, h⟩
        rcases Option.bind_eq_some_iff.1 h with ⟨others, -, h⟩
        refine ih ?_ h
      · exact readHeader_distinct hd hnext
      · cases hnext
        exact hd
      · exact readMember_distinct hd hnext

end Readers

/-- No key stands twice in the table that a text is read as, at any depth. -/
theorem readTable?_distinct {text : String} {t : Table} (h : readTable? text = some t) :
    t.toJson.Distinct := by
  rcases Option.bind_eq_some_iff.1 h with ⟨d, hd, heq⟩
  cases heq
  exact (readLines_distinct (Table.empty_distinct _) hd).toJson_distinct

/-- The document of a text has a member for every key of its table. -/
theorem parse?_perm {text : String} {t : Table} (h : readTable? text = some t) :
    ∃ members, parse? text = some (.object members) ∧
      members.Perm (Dict.mapValues Json.collapse (Item.toJson.membersToJson t.members)) := by
  have hdistinct := readTable?_distinct h
  refine ⟨_, by rw [parse?, h, Option.map_some]; rfl, ?_⟩
  have hlatest := Dict.perm_ofPairs (Dict.mapValues Json.collapse
    (Item.toJson.membersToJson t.members))
  rwa [← Json.collapseMembers_eq, Dict.latest_of_nodup] at hlatest
  rw [Dict.keys_mapValues]
  exact hdistinct.1

end Toml

end Overlay
