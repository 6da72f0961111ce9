import Overlay.Proofs.Value.Rereading

/-!
# Where a conversion fails

A conversion goes through the parts of a value in turn, and so on inside every part. What it
reports is the first part that does not convert.

* `visited` lists the steps into a value in the order in which a conversion to the type takes them;
  `enter?` is the part and the type that a step leads to, `follow?` those that a path leads to.
* `Culprit` says that a path leads to a part that fails by itself, and that everything which is
  visited before it is there and converts.
* `convert_cases`: a conversion fails with the first fault among the visited parts, unless it fails
  before it visits any.
* So the path of a fault leads to the first culprit (`convert_eq_error_iff`).
-/

namespace Overlay

/-! ## Steps -/

/-- The type of the parts that a step leads to. -/
def ValueType.part? : ValueType → PathStep → Option ValueType
  | .list t, .index _ | .set t, .index _ | .map t, .key _ => some t
  | .tuple ts, .index i => ts[i]?
  | .object ts, .member name => Dict.find? name ts
  | _, _ => none

/-- What a step is called. -/
def PathStep.label : PathStep → String
  | .member name => name
  | .key k => k
  | .index i => toString i

namespace Value

/-- The part that a step leads to. -/
def part? (v : Value) : PathStep → Option Value
  | .index i => v.items?.bind fun items => items[i]?
  | .key k => v.entries?.bind fun entries => entries.find? k
  | .member name => v.entries?.bind fun entries => entries.find? name

/-- The part that a step leads to, and the type that it is converted to. -/
def enter? (step : PathStep) (v : Value) (t : ValueType) : Option (Value × ValueType) := do
  let x ← v.part? step
  let u ← t.part? step
  return (x, u)

/-- The part that a path leads to, and the type that it is converted to. -/
def follow? : List PathStep → Value → ValueType → Option (Value × ValueType)
  | [], v, t => some (v, t)
  | step :: path, v, t => do
    let (x, u) ← enter? step v t
    follow? path x u

/-- The steps that a conversion takes in turn: to the items of a sequence, to the keys of a
dictionary, or to the declared attributes. A value of another kind, or of another length than the
tuple, is not entered. -/
def visited (v : Value) : ValueType → List PathStep
  | .list _ | .set _ => (List.range (v.items?.getD []).length).map .index
  | .map _ => (Dict.keys (v.entries?.getD [])).map .key
  | .tuple ts =>
    if v.items?.map List.length = some ts.length then (List.range ts.length).map .index else []
  | .object ts => if v.entries?.isSome then (Dict.keys ts).map .member else []
  | _ => []

/-- Whether the part that a step leads to is there and converts. -/
def Passes (v : Value) (t : ValueType) (step : PathStep) : Prop :=
  ∃ x u w, enter? step v t = some (x, u) ∧ x.convert u = .ok w

/-- Whether a conversion comes to a step: every part that it visits before converts. -/
def Reaches (v : Value) (t : ValueType) (step : PathStep) : Prop :=
  ∃ earlier later, visited v t = earlier ++ step :: later ∧ ∀ e ∈ earlier, Passes v t e

/-- Whether a path leads to what a conversion fails at first. -/
structure Culprit (v : Value) (t : ValueType) (path : List PathStep) (cause : ConversionFault) :
    Prop where
  /-- The path leads to a part, which fails by itself. -/
  found : ∃ x u, follow? path v t = some (x, u) ∧ x.convert u = .error (.here cause)
  /-- On every level the part that the path goes through is the first one that fails. -/
  first : ∀ front step back, path = front ++ step :: back →
    ∃ y s, follow? front v t = some (y, s) ∧ Reaches y s step

variable {v x : Value} {t u : ValueType} {step : PathStep} {path : List PathStep}
  {cause : ConversionFault}

theorem enter?_eq_some :
    enter? step v t = some (x, u) ↔ v.part? step = some x ∧ t.part? step = some u := by
  unfold enter?
  cases v.part? step with
  | none => simp
  | some y =>
    cases t.part? step with
    | none => simp
    | some s => simp

theorem follow?_cons (h : enter? step v t = some (x, u)) :
    follow? (step :: path) v t = follow? path x u := by
  rw [follow?, h]
  rfl

/-! ## Parts -/

theorem elementsOrdered_iff {ts : List ValueType} :
    ValueType.Ordered.elementsOrdered ts ↔ ∀ s ∈ ts, s.Ordered := by
  induction ts with
  | nil => simp [ValueType.Ordered.elementsOrdered]
  | cons s ts ih => rw [List.forall_mem_cons, ValueType.Ordered.elementsOrdered, ih]

theorem attributesOrdered_iff {ts : List (String × ValueType)} :
    ValueType.Ordered.attributesOrdered ts ↔ ∀ e ∈ ts, e.2.Ordered := by
  induction ts with
  | nil => simp [ValueType.Ordered.attributesOrdered]
  | cons e ts ih => rw [List.forall_mem_cons, ValueType.Ordered.attributesOrdered, ih]

theorem ordered_of_items? {items : List Value} (hv : v.Ordered) (h : v.items? = some items) :
    ∀ x ∈ items, x.Ordered := by
  cases v <;> cases h <;> exact itemsOrdered_iff.1 hv

theorem ordered_of_entries? {entries : Dict Value} (hv : v.Ordered)
    (h : v.entries? = some entries) : Dict.Ascending entries ∧ ∀ e ∈ entries, e.2.Ordered := by
  cases v <;> cases h <;> exact ⟨hv.1, entriesOrdered_iff.1 hv.2⟩

/-- A part of an ordered value is ordered. -/
theorem ordered_of_part? (hv : v.Ordered) (h : v.part? step = some x) : x.Ordered := by
  cases step with
  | index i =>
    rcases Option.bind_eq_some_iff.1 h with ⟨items, hitems, hx⟩
    exact ordered_of_items? hv hitems x (List.mem_of_getElem? hx)
  | key k =>
    rcases Option.bind_eq_some_iff.1 h with ⟨entries, hentries, hx⟩
    exact (ordered_of_entries? hv hentries).2 _ (Dict.mem_of_find? hx)
  | member name =>
    rcases Option.bind_eq_some_iff.1 h with ⟨entries, hentries, hx⟩
    exact (ordered_of_entries? hv hentries).2 _ (Dict.mem_of_find? hx)

/-- The type of a part is ordered, and smaller. -/
theorem type_of_part? (ht : t.Ordered) (h : t.part? step = some u) :
    u.Ordered ∧ sizeOf u < sizeOf t := by
  unfold ValueType.part? at h
  split at h
  · cases h
    exact ⟨ht, by simp⟩
  · cases h
    exact ⟨ht, by simp⟩
  · cases h
    exact ⟨ht, by simp⟩
  · next ts i =>
    have hmem := List.mem_of_getElem? h
    have hsize := List.sizeOf_lt_of_mem hmem
    exact ⟨elementsOrdered_iff.1 ht u hmem, by simp; omega⟩
  · next ts name =>
    have hmem := Dict.mem_of_find? h
    have hsize := List.sizeOf_lt_of_mem hmem
    simp only [Prod.mk.sizeOf_spec] at hsize
    exact ⟨attributesOrdered_iff.1 ht.2 _ hmem, by simp; omega⟩
  · cases h

/-! ## Faults of the parts -/

/-- The fault that a computation ends with. -/
def fault? {ε α : Type} : Except ε α → Option ε
  | .ok _ => none
  | .error f => some f

theorem fault?_eq_some {ε α : Type} {c : Except ε α} {f : ε} :
    fault? c = some f ↔ c = .error f := by
  cases c <;> simp [fault?]

theorem fault?_eq_none {ε α : Type} {c : Except ε α} : fault? c = none ↔ ∃ a, c = .ok a := by
  cases c <;> simp [fault?]

theorem fault?_map {ε α β : Type} {c : Except ε α} {g : α → β} : fault? (c.map g) = fault? c := by
  cases c <;> rfl

/-- What the step to a part reports: the fault of the part, or that it is lacking. -/
def faultAt? (v : Value) (t : ValueType) (step : PathStep) : Option ValueFault :=
  match enter? step v t with
  | some (x, u) => (fault? (x.convert u)).map (.within step)
  | none => some (.here (.missingAttribute step.label))

theorem faultAt?_of_enter? (h : enter? step v t = some (x, u)) :
    faultAt? v t step = (fault? (x.convert u)).map (.within step) := by
  rw [faultAt?, h]

theorem faultAt?_eq_none : faultAt? v t step = none ↔ Passes v t step := by
  unfold faultAt? Passes
  cases enter? step v t with
  | none => simp
  | some p => simp [fault?_eq_none, Prod.ext_iff]

/-- The first part of a collection goes before the others. -/
theorem fault?_parts {ε α β γ : Type} {c : Except ε α} {d : Except ε β} {g : α → β → γ}
    {w : ε → ε} :
    fault? (do
      let a ← c.mapError w
      let b ← d
      return g a b) = ((fault? c).map w).or (fault? d) := by
  cases c with
  | error f => rfl
  | ok a => cases d <;> rfl

section Collections

variable {f : Value → Except ValueFault Value}

theorem findSome?_cons_eq_or {α β : Type} (g : α → Option β) (a : α) (as : List α) :
    (a :: as).findSome? g = (g a).or (as.findSome? g) := by
  rw [List.findSome?_cons]
  cases g a <;> rfl

theorem fault?_convertItems (vs : List Value) (index : Nat) :
    fault? (convertItems f index vs) =
      (vs.zipIdx index).findSome? fun p => (fault? (f p.1)).map (.within (.index p.2)) := by
  induction vs generalizing index with
  | nil => rfl
  | cons v vs ih =>
    rw [convertItems, fault?_parts, List.zipIdx_cons, findSome?_cons_eq_or, ih]

theorem fault?_convertEntries (entries : Dict Value) :
    fault? (convertEntries f entries) =
      entries.findSome? fun p => (fault? (f p.2)).map (.within (.key p.1)) := by
  induction entries with
  | nil => rfl
  | cons e rest ih =>
    rcases e with ⟨k, v⟩
    rw [convertEntries, fault?_parts, findSome?_cons_eq_or, ih]

theorem fault?_convertTuple (ts : List ValueType) (vs : List Value) (index : Nat) :
    fault? (convert.convertTuple index ts vs) =
      ((vs.zip ts).zipIdx index).findSome? fun p =>
        (fault? (p.1.1.convert p.1.2)).map (.within (.index p.2)) := by
  induction ts generalizing index vs with
  | nil => cases vs <;> rfl
  | cons t ts ih =>
    cases vs with
    | nil => rfl
    | cons v vs =>
      rw [convert.convertTuple, fault?_parts, List.zip_cons_cons, List.zipIdx_cons,
        findSome?_cons_eq_or, ih]

theorem fault?_convertObject (entries : Dict Value) (ts : List (String × ValueType)) :
    fault? (convert.convertObject entries ts) = ts.findSome? fun p =>
      match entries.find? p.1 with
      | none => some (.here (.missingAttribute p.1))
      | some x => (fault? (x.convert p.2)).map (.within (.member p.1)) := by
  induction ts with
  | nil => rfl
  | cons e rest ih =>
    rcases e with ⟨name, t⟩
    rw [convert.convertObject, findSome?_cons_eq_or, ← ih]
    cases entries.find? name with
    | none => rfl
    | some x => exact fault?_parts

end Collections

/-! ## One level -/

section Level

variable {items : List Value} {entries : Dict Value} {type : ValueType}

theorem guarded_of_items? (h : v.items? = some items)
    (g : List Value → Except ValueFault Value) :
    convert.guarded v type (requireItems type v >>= g) = g items := by
  cases v <;> cases h <;> rfl

theorem guarded_of_entries? (h : v.entries? = some entries)
    (g : Dict Value → Except ValueFault Value) :
    convert.guarded v type (requireEntries type v >>= g) = g entries := by
  cases v <;> cases h <;> rfl

theorem requireItems_here (h : v.items? = none) {g : List Value → Except ValueFault Value}
    {f : ValueFault} (hf : (requireItems type v >>= g) = .error f) : ∃ c, f = .here c := by
  rw [requireItems, h] at hf
  cases hf
  exact ⟨_, rfl⟩

theorem requireEntries_here (h : v.entries? = none) {g : Dict Value → Except ValueFault Value}
    {f : ValueFault} (hf : (requireEntries type v >>= g) = .error f) : ∃ c, f = .here c := by
  rw [requireEntries, h] at hf
  cases hf
  exact ⟨_, rfl⟩

theorem toStringValue_here {f : ValueFault} (h : v.toStringValue = .error f) :
    ∃ c, f = .here c := by
  cases v <;> cases h <;> exact ⟨_, rfl⟩

theorem toNumberValue_here {f : ValueFault} (h : v.toNumberValue = .error f) :
    ∃ c, f = .here c := by
  unfold toNumberValue at h
  split at h
  · cases h
  · split at h <;> cases h
    exact ⟨_, rfl⟩
  · cases h
    exact ⟨_, rfl⟩

theorem toBoolValue_here {f : ValueFault} (h : v.toBoolValue = .error f) : ∃ c, f = .here c := by
  unfold toBoolValue at h
  split at h
  · cases h
  · split_ifs at h
    cases h
    exact ⟨_, rfl⟩
  · cases h
    exact ⟨_, rfl⟩

/-- Whether a conversion fails before it visits any part, or with the first fault of the parts that
it visits. -/
def FailsInTurn (v : Value) (t : ValueType) : Prop :=
  visited v t = [] ∧ (∃ c, v.convert t = .error (.here c)) ∨
    fault? (v.convert t) = (visited v t).findSome? (faultAt? v t)

/-- A conversion that visits nothing: its guard fails, or what it guards. -/
theorem failsInTurn_of_guarded {g : Except ValueFault Value} (hnone : visited v t = [])
    (hconvert : v.convert t = convert.guarded v type g)
    (hg : ∀ f, g = .error f → ∃ c, f = .here c) : FailsInTurn v t := by
  have hhere : ∀ f, v.convert t = .error f → ∃ c, f = .here c := by
    intro f hf
    rw [hconvert, convert.guarded] at hf
    split_ifs at hf
    · cases hf
      exact ⟨_, rfl⟩
    · exact hg f hf
  cases hc : v.convert t with
  | ok w =>
    right
    rw [hnone, hc]
    rfl
  | error f =>
    rcases hhere f hc with ⟨c, rfl⟩
    exact .inl ⟨hnone, c, hc⟩

theorem findSome?_congr {α β : Type} {g h : α → Option β} {as : List α}
    (heq : ∀ a ∈ as, g a = h a) : as.findSome? g = as.findSome? h := by
  induction as with
  | nil => rfl
  | cons a as ih =>
    rw [List.forall_mem_cons] at heq
    rw [findSome?_cons_eq_or, findSome?_cons_eq_or, heq.1, ih heq.2]

/-- What the steps to all items report, item by item. -/
theorem findSome?_indices {α : Type} (as : List α) (g : PathStep → Option ValueFault) :
    ((List.range as.length).map .index).findSome? g =
      as.zipIdx.findSome? fun p => g (.index p.2) := by
  rw [List.range_eq_range', ← List.zipIdx_map_snd 0 as, List.findSome?_map, List.findSome?_map]
  rfl

/-- What a sequence reports whose items are all converted to one type. -/
theorem findSome?_items (hitems : v.items? = some items)
    (htype : ∀ i, t.part? (.index i) = some u) :
    ((List.range items.length).map .index).findSome? (faultAt? v t) =
      fault? (convertItems (fun x => x.convert u) 0 items) := by
  rw [fault?_convertItems, findSome?_indices]
  refine findSome?_congr fun p hp => ?_
  have hpart : v.part? (.index p.2) = some p.1 := by
    rw [part?, hitems]
    exact List.mem_zipIdx_iff_getElem?.1 hp
  exact faultAt?_of_enter? (enter?_eq_some.2 ⟨hpart, htype p.2⟩)

theorem findSome?_tuple {ts : List ValueType} (hitems : v.items? = some items)
    (hlength : items.length = ts.length) :
    ((List.range ts.length).map .index).findSome? (faultAt? v (.tuple ts)) =
      fault? (convert.convertTuple 0 ts items) := by
  have hzip : ts.length = (items.zip ts).length := by simp [hlength]
  rw [fault?_convertTuple, hzip, findSome?_indices]
  refine findSome?_congr fun p hp => ?_
  have hboth := List.getElem?_zip_eq_some.1 (List.mem_zipIdx_iff_getElem?.1 hp)
  have hpart : v.part? (.index p.2) = some p.1.1 := by
    rw [part?, hitems]
    exact hboth.1
  exact faultAt?_of_enter? (enter?_eq_some.2 ⟨hpart, hboth.2⟩)

theorem findSome?_keys (hasc : Dict.Ascending entries) (hentries : v.entries? = some entries) :
    ((Dict.keys entries).map .key).findSome? (faultAt? v (.map u)) =
      fault? (convertEntries (fun x => x.convert u) entries) := by
  rw [fault?_convertEntries, Dict.keys, List.findSome?_map, List.findSome?_map]
  refine findSome?_congr fun p hp => ?_
  have hpart : v.part? (.key p.1) = some p.2 := by
    rw [part?, hentries]
    exact (Dict.find?_eq_some_iff hasc).2 hp
  exact faultAt?_of_enter? (enter?_eq_some.2 ⟨hpart, rfl⟩)

theorem findSome?_attributes {ts : List (String × ValueType)} (hasc : Dict.Ascending ts)
    (hentries : v.entries? = some entries) :
    ((Dict.keys ts).map .member).findSome? (faultAt? v (.object ts)) =
      fault? (convert.convertObject entries ts) := by
  rw [fault?_convertObject, Dict.keys, List.findSome?_map, List.findSome?_map]
  refine findSome?_congr fun p hp => ?_
  have htype : (ValueType.object ts).part? (.member p.1) = some p.2 :=
    (Dict.find?_eq_some_iff hasc).2 hp
  have hpart : v.part? (.member p.1) = entries.find? p.1 := by
    rw [part?, hentries]
    rfl
  cases hfind : entries.find? p.1 with
  | none =>
    have hlacking : enter? (.member p.1) v (.object ts) = none := by
      rw [enter?, hpart, hfind]
      rfl
    show faultAt? v (.object ts) (.member p.1) = _
    rw [faultAt?, hlacking]
    rfl
  | some x => exact faultAt?_of_enter? (enter?_eq_some.2 ⟨hpart.trans hfind, htype⟩)

theorem fault?_return {α : Type} {c : Except ValueFault α} {g : α → Value} :
    fault? (do return g (← c) : Except ValueFault Value) = fault? c := by
  cases c <;> rfl

/-- A conversion fails with the first fault among the parts that it visits, unless it fails before
it visits any. -/
theorem convert_cases (hv : v.Ordered) (ht : t.Ordered) : FailsInTurn v t := by
  cases t with
  | any => exact .inr rfl
  | string => exact failsInTurn_of_guarded rfl rfl fun f => toStringValue_here
  | number => exact failsInTurn_of_guarded rfl rfl fun f => toNumberValue_here
  | bool => exact failsInTurn_of_guarded rfl rfl fun f => toBoolValue_here
  -- A set converts all its items before it drops repeated ones, so its faults are those of a list.
  | list t | set t =>
    cases hitems : v.items? with
    | none =>
      exact failsInTurn_of_guarded (by simp [visited, hitems]) rfl fun f => requireItems_here hitems
    | some items =>
      right
      rw [convert, guarded_of_items? hitems, fault?_return, visited, hitems]
      exact (findSome?_items hitems fun i => rfl).symm
  | map t =>
    cases hentries : v.entries? with
    | none =>
      exact failsInTurn_of_guarded (by simp [visited, hentries, Dict.keys]) rfl fun f =>
        requireEntries_here hentries
    | some entries =>
      right
      have hasc := (ordered_of_entries? hv hentries).1
      rw [convert, guarded_of_entries? hentries, fault?_return, visited, hentries]
      exact (findSome?_keys hasc hentries).symm
  | tuple ts =>
    cases hitems : v.items? with
    | none =>
      exact failsInTurn_of_guarded (by simp [visited, hitems]) rfl fun f => requireItems_here hitems
    | some items =>
      -- A wrong length is a fault of the tuple itself, found before any item is looked at.
      by_cases hlength : items.length = ts.length
      · right
        have hvisited : visited v (.tuple ts) = (List.range ts.length).map .index := by
          simp [visited, hitems, hlength]
        have hconvert : fault? (v.convert (.tuple ts)) =
            fault? (convert.convertTuple 0 ts items) := by
          rw [convert, guarded_of_items? hitems, if_neg (not_not_intro hlength)]
          exact fault?_return
        rw [hconvert, hvisited, findSome?_tuple hitems hlength]
      · left
        refine ⟨by simp [visited, hitems, hlength], .tupleLength ts.length, ?_⟩
        rw [convert, guarded_of_items? hitems, if_pos hlength]
        rfl
  | object ts =>
    cases hentries : v.entries? with
    | none =>
      exact failsInTurn_of_guarded (by simp [visited, hentries]) rfl fun f =>
        requireEntries_here hentries
    | some entries =>
      right
      have hvisited : visited v (.object ts) = (Dict.keys ts).map .member := by
        simp [visited, hentries]
      rw [convert, guarded_of_entries? hentries, fault?_return, hvisited,
        findSome?_attributes ht.1 hentries]

end Level

/-! ## All levels -/

theorem culprit_nil : Culprit v t [] cause ↔ v.convert t = .error (.here cause) := by
  constructor
  · rintro ⟨⟨x, u, hfollow, hfault⟩, -⟩
    cases hfollow
    exact hfault
  · intro h
    refine ⟨⟨v, t, rfl, h⟩, ?_⟩
    intro front step back hpath
    cases front <;> cases hpath

theorem culprit_cons (h : enter? step v t = some (x, u)) :
    Culprit v t (step :: path) cause ↔ Reaches v t step ∧ Culprit x u path cause := by
  constructor
  · -- The first step of the path is its own place in the order, the rest lies below it.
    rintro ⟨⟨y, s, hfollow, hfault⟩, hfirst⟩
    rw [follow?_cons h] at hfollow
    refine ⟨?_, ⟨y, s, hfollow, hfault⟩, ?_⟩
    · rcases hfirst [] step path rfl with ⟨y, s, hnil, hreaches⟩
      cases hnil
      exact hreaches
    · intro front next back hpath
      rcases hfirst (step :: front) next back (by rw [hpath]; rfl) with ⟨y, s, hfront, hreaches⟩
      rw [follow?_cons h] at hfront
      exact ⟨y, s, hfront, hreaches⟩
  · rintro ⟨hreaches, ⟨y, s, hfollow, hfault⟩, hfirst⟩
    refine ⟨⟨y, s, (follow?_cons h).trans hfollow, hfault⟩, ?_⟩
    intro front next back hpath
    cases front with
    | nil =>
      cases hpath
      exact ⟨v, t, rfl, hreaches⟩
    | cons first front =>
      obtain ⟨rfl, hrest⟩ := List.cons.inj hpath
      rcases hfirst front next back hrest with ⟨y, s, hfront, hnext⟩
      exact ⟨y, s, (follow?_cons h).trans hfront, hnext⟩

/-- A path that leads anywhere leads into the part at its first step. -/
theorem Culprit.enter (h : Culprit v t (step :: path) cause) :
    ∃ x u, enter? step v t = some (x, u) := by
  rcases h.found with ⟨x, u, hfollow, -⟩
  rw [follow?] at hfollow
  cases henter : enter? step v t with
  | none =>
    rw [henter] at hfollow
    cases hfollow
  | some p => exact ⟨p.1, p.2, rfl⟩

/-- A conversion comes to the part whose fault is the first one, and not to any behind it. -/
theorem findSome?_eq_some_iff_reaches {f : ValueFault} :
    (visited v t).findSome? (faultAt? v t) = some f ↔
      ∃ step, Reaches v t step ∧ faultAt? v t step = some f := by
  rw [List.findSome?_eq_some_iff]
  constructor
  · rintro ⟨earlier, step, later, hvisited, hfault, hearlier⟩
    exact ⟨step, ⟨earlier, later, hvisited, fun e he => faultAt?_eq_none.1 (hearlier e he)⟩, hfault⟩
  · rintro ⟨step, ⟨earlier, later, hvisited, hearlier⟩, hfault⟩
    exact ⟨earlier, step, later, hvisited, hfault, fun e he => faultAt?_eq_none.2 (hearlier e he)⟩

/-- The path of a fault leads to the culprit. The induction is on the size of the type, which gets
smaller with every step. -/
theorem culprit_of_convert (t : ValueType) {v : Value} {f : ValueFault} (hv : v.Ordered)
    (ht : t.Ordered) (h : v.convert t = .error f) :
    ∃ path cause, f = .conversion path cause ∧ Culprit v t path cause := by
  have hhere : ∀ cause, f = .here cause →
      ∃ path cause, f = .conversion path cause ∧ Culprit v t path cause := by
    rintro cause rfl
    exact ⟨[], cause, rfl, culprit_nil.2 h⟩
  rcases convert_cases hv ht with ⟨-, cause, hcause⟩ | hturn
  · rw [h] at hcause
    exact hhere cause (Except.error.inj hcause)
  · rw [h] at hturn
    rcases findSome?_eq_some_iff_reaches.1 hturn.symm with ⟨step, hreaches, hfault⟩
    cases henter : enter? step v t with
    | none =>
      -- The part is lacking, which the whole is blamed for.
      rw [faultAt?, henter] at hfault
      exact hhere _ (Option.some.inj hfault).symm
    | some p =>
      rcases p with ⟨x, u⟩
      rw [faultAt?_of_enter? henter] at hfault
      rcases Option.map_eq_some_iff.1 hfault with ⟨g, hg, rfl⟩
      rcases enter?_eq_some.1 henter with ⟨hpart, htype⟩
      have hsmaller := type_of_part? ht htype
      rcases culprit_of_convert u (ordered_of_part? hv hpart) hsmaller.1 (fault?_eq_some.1 hg) with
        ⟨path, cause, rfl, hculprit⟩
      exact ⟨step :: path, cause, rfl, (culprit_cons henter).2 ⟨hreaches, hculprit⟩⟩
termination_by sizeOf t
decreasing_by exact hsmaller.2

/-- A conversion fails with the culprit that a path leads to. -/
theorem convert_of_culprit (hv : v.Ordered) (ht : t.Ordered) (h : Culprit v t path cause) :
    v.convert t = .error (.conversion path cause) := by
  induction path generalizing v t with
  | nil => exact culprit_nil.1 h
  | cons step path ih =>
    rcases h.enter with ⟨x, u, henter⟩
    rcases (culprit_cons henter).1 h with ⟨hreaches, hculprit⟩
    rcases enter?_eq_some.1 henter with ⟨hpart, htype⟩
    have hfault := ih (ordered_of_part? hv hpart) (type_of_part? ht htype).1 hculprit
    have hstep : faultAt? v t step = some (.conversion (step :: path) cause) := by
      rw [faultAt?_of_enter? henter, hfault]
      rfl
    have hturn := findSome?_eq_some_iff_reaches.2 ⟨step, hreaches, hstep⟩
    rcases convert_cases hv ht with ⟨hnone, -⟩ | hcases
    · rw [hnone] at hturn
      cases hturn
    · exact fault?_eq_some.1 (hcases.trans hturn)

/-- A conversion fails exactly at its first culprit: with the path that leads to it and with its
cause. So nothing else than a conversion fault is reported, the path always leads to a part, which
fails by itself with the same cause, and on every level the parts that are visited before are there
and convert. -/
theorem convert_eq_error_iff (hv : v.Ordered) (ht : t.Ordered) (f : ValueFault) :
    v.convert t = .error f ↔ ∃ path cause, f = .conversion path cause ∧ Culprit v t path cause := by
  constructor
  · exact culprit_of_convert t hv ht
  · rintro ⟨path, cause, rfl, h⟩
    exact convert_of_culprit hv ht h

/-- In the attribute `b`, which is visited behind `a`, the second item is the first one that does
not convert. -/
theorem convert_eq_error_iff_nested :
    let t : ValueType := .object [("a", .set .bool), ("b", .list (.map .number)), ("c", .string)]
    let v : Value := .object [("a", .tuple [.bool true, .string "false"]),
      ("b", .tuple [.object [("k", .string "1")], .map [("k", .null), ("l", .string "x")],
        .string "y"])]
    let path : List PathStep := [.member "b", .index 1, .key "l"]
    v.Ordered ∧ t.Ordered ∧ v.convert t = .error (.conversion path .numberText) ∧
      Culprit v t path .numberText ∧
      ValueFault.message (.conversion path .numberText) =
        "attribute \"b\", element 1, element \"l\": a number is required" := by
  intro t v path
  have hab : ["a", "b"].Pairwise (· < ·) := by decide +kernel
  have habc : ["a", "b", "c"].Pairwise (· < ·) := by decide +kernel
  have hk : ["k"].Pairwise (· < ·) := List.pairwise_singleton _ _
  have hkl : ["k", "l"].Pairwise (· < ·) := by decide +kernel
  have hitems : Ordered.itemsOrdered [.object [("k", .string "1")],
      .map [("k", .null), ("l", .string "x")], .string "y"] :=
    ⟨⟨hk, trivial, trivial⟩, ⟨hkl, trivial, trivial, trivial⟩, trivial, trivial⟩
  have hv : v.Ordered := ⟨hab, ⟨trivial, trivial, trivial⟩, hitems, trivial⟩
  have ht : t.Ordered := ⟨habc, trivial, trivial, trivial, trivial⟩
  have hconvert : v.convert t = .error (.conversion path .numberText) := by decide +kernel
  rcases (convert_eq_error_iff hv ht _).1 hconvert with ⟨p, c, heq, hculprit⟩
  cases heq
  exact ⟨hv, ht, hconvert, hculprit, by decide +kernel⟩

end Value

end Overlay
