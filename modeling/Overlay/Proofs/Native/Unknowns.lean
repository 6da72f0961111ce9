import Overlay.Native.Basic
import Overlay.Proofs.Value.Culprit
import Overlay.Resolution.Basic

/-!
# Unknown values and templates

A value has a native form exactly if nothing in it is unknown. Where it has none, what is reported
is the first unknown part, and where one variable of a package has none, the others still have
theirs.

* `walk` lists a value and all parts in it, depth first, each behind the path that leads to it
  (`partAt?_of_mem_walk`).
* `BlamesFirst` says of such a list that a fault is that of the first unknown part. Each of its
  lemmas puts known parts in front of a list or one level around it, as the conversion does on its
  way back, so the fault of a value is that of the first unknown part in it
  (`blamesFirst_of_toNative`).
* `nativeEntries_known` and `nativeEntries_unknown` say what becomes of the variables of a package.
-/

namespace Overlay

namespace Value

/-! ## Depth-first order -/

/-- The parts, seen from the value that the step leads out of. -/
def beneath (step : PathStep) (parts : List (List PathStep × Value)) :
    List (List PathStep × Value) :=
  parts.map fun p => (step :: p.1, p.2)

/-- The value and all parts in it, depth first, each behind the path that leads to it. -/
def walk (v : Value) : List (List PathStep × Value) :=
  ([], v) :: match v with
    | list items | set items | tuple items => walkItems 0 items
    | map entries | object entries => walkEntries entries
    | null | unknown | bool _ | number _ | string _ | capsule _ => []
where
  /-- The items, the first of which is at `index`, and all parts in them. -/
  walkItems (index : Nat) : List Value → List (List PathStep × Value)
  | [] => []
  | v :: vs => beneath (.index index) v.walk ++ walkItems (index + 1) vs
  /-- The values under all keys, and all parts in them. -/
  walkEntries : List (String × Value) → List (List PathStep × Value)
  | [] => []
  | (k, v) :: rest => beneath (.key k) v.walk ++ walkEntries rest

/-- The part that a path leads to. -/
def partAt? (v : Value) : List PathStep → Option Value
  | [] => some v
  | step :: path => (v.part? step).bind fun x => x.partAt? path

variable {v x : Value} {f : ValueFault} {path : List PathStep} {step : PathStep}
  {parts front more : List (List PathStep × Value)}

theorem mem_beneath (h : (path, x) ∈ beneath step parts) :
    ∃ rest, path = step :: rest ∧ (rest, x) ∈ parts := by
  rcases List.mem_map.1 h with ⟨⟨rest, y⟩, hy, heq⟩
  cases heq
  exact ⟨rest, rfl, hy⟩

theorem mem_walkItems {items : List Value} {index : Nat}
    (h : (path, x) ∈ walk.walkItems index items) :
    ∃ i y rest, path = .index (index + i) :: rest ∧ items[i]? = some y ∧ (rest, x) ∈ y.walk := by
  induction items generalizing index with
  | nil => cases h
  | cons v vs ih =>
    rw [walk.walkItems] at h
    rcases List.mem_append.1 h with hfirst | hmore
    · rcases mem_beneath hfirst with ⟨rest, rfl, hrest⟩
      exact ⟨0, v, rest, rfl, rfl, hrest⟩
    · rcases ih hmore with ⟨i, y, rest, rfl, hy, hrest⟩
      refine ⟨i + 1, y, rest, ?_, hy, hrest⟩
      rw [Nat.add_assoc, Nat.add_comm 1 i]

theorem mem_walkEntries {entries : List (String × Value)}
    (h : (path, x) ∈ walk.walkEntries entries) :
    ∃ k y rest, path = .key k :: rest ∧ (k, y) ∈ entries ∧ (rest, x) ∈ y.walk := by
  induction entries with
  | nil => cases h
  | cons e entries ih =>
    rcases e with ⟨k, v⟩
    rw [walk.walkEntries] at h
    rcases List.mem_append.1 h with hfirst | hmore
    · rcases mem_beneath hfirst with ⟨rest, rfl, hrest⟩
      exact ⟨k, v, rest, rfl, List.mem_cons_self, hrest⟩
    · rcases ih hmore with ⟨l, y, rest, rfl, hy, hrest⟩
      exact ⟨l, y, rest, rfl, List.mem_cons_of_mem _ hy, hrest⟩

/-- Every part that is listed is the value itself, or is listed with one of the value's parts. -/
theorem mem_walk (hv : v.Ordered) (h : (path, x) ∈ v.walk) :
    path = [] ∧ x = v ∨
      ∃ step rest y, path = step :: rest ∧ v.part? step = some y ∧ (rest, x) ∈ y.walk := by
  have hitems : ∀ items, v.items? = some items → (path, x) ∈ walk.walkItems 0 items →
      ∃ step rest y, path = step :: rest ∧ v.part? step = some y ∧ (rest, x) ∈ y.walk := by
    intro items hitems hmem
    rcases mem_walkItems hmem with ⟨i, y, rest, rfl, hy, hrest⟩
    refine ⟨_, rest, y, rfl, ?_, hrest⟩
    rw [part?, hitems, Nat.zero_add]
    exact hy
  -- The keys are ordered, so an entry that is met is the one found under its key.
  have hentries : ∀ entries, v.entries? = some entries → (path, x) ∈ walk.walkEntries entries →
      ∃ step rest y, path = step :: rest ∧ v.part? step = some y ∧ (rest, x) ∈ y.walk := by
    intro entries hentries hmem
    rcases mem_walkEntries hmem with ⟨k, y, rest, rfl, hy, hrest⟩
    refine ⟨_, rest, y, rfl, ?_, hrest⟩
    rw [part?, hentries]
    exact (Dict.find?_eq_some_iff (ordered_of_entries? hv hentries).1).2 hy
  rw [walk.eq_def] at h
  rcases List.mem_cons.1 h with hself | hbelow
  · cases hself
    exact .inl ⟨rfl, rfl⟩
  · right
    -- A value has items or entries or nothing below it.
    cases v with
    | list items | set items | tuple items => exact hitems items rfl hbelow
    | map entries | object entries => exact hentries entries rfl hbelow
    | null | unknown | bool _ | number _ | string _ | capsule _ => cases hbelow

/-- The path of a part that is listed leads to the part. The induction is on the path. -/
theorem partAt?_of_mem_walk (hv : v.Ordered) (h : (path, x) ∈ v.walk) :
    v.partAt? path = some x := by
  induction path generalizing v with
  | nil =>
    rcases mem_walk hv h with ⟨-, rfl⟩ | ⟨step, rest, y, hpath, -⟩
    · rfl
    · cases hpath
  | cons step path ih =>
    rcases mem_walk hv h with ⟨hpath, -⟩ | ⟨step, rest, y, hpath, hy, hrest⟩
    · cases hpath
    · cases hpath
      rw [partAt?, hy]
      exact ih (ordered_of_part? hv hy) hrest

/-! ## Known values -/

mutual

/-- All parts of a known value are known. -/
theorem isKnown_of_mem_walk : ∀ {v : Value}, v.isKnown = true → ∀ p ∈ v.walk, p.2.isKnown = true
  | null, _, p, hp | bool _, _, p, hp | number _, _, p, hp | string _, _, p, hp
  | capsule _, _, p, hp => by
    rcases List.mem_singleton.1 hp with rfl
    rfl
  | list _, h, p, hp | set _, h, p, hp | tuple _, h, p, hp => by
    rcases List.mem_cons.1 hp with rfl | hp
    · exact h
    · exact isKnown_of_mem_walkItems h p hp
  | map _, h, p, hp | object _, h, p, hp => by
    rcases List.mem_cons.1 hp with rfl | hp
    · exact h
    · exact isKnown_of_mem_walkEntries h p hp

theorem isKnown_of_mem_walkItems : ∀ {items : List Value} {index : Nat},
    isKnown.areKnown items = true → ∀ p ∈ walk.walkItems index items, p.2.isKnown = true
  | v :: vs, index, h, p, hp => by
    rw [isKnown.areKnown, Bool.and_eq_true] at h
    rcases List.mem_append.1 hp with hfirst | hmore
    · rcases mem_beneath hfirst with ⟨rest, -, hrest⟩
      exact isKnown_of_mem_walk h.1 (rest, p.2) hrest
    · exact isKnown_of_mem_walkItems h.2 p hmore

theorem isKnown_of_mem_walkEntries : ∀ {entries : List (String × Value)},
    isKnown.areEntriesKnown entries = true →
      ∀ p ∈ walk.walkEntries entries, p.2.isKnown = true
  | (k, v) :: rest, h, p, hp => by
    rw [isKnown.areEntriesKnown, Bool.and_eq_true] at h
    rcases List.mem_append.1 hp with hfirst | hmore
    · rcases mem_beneath hfirst with ⟨path, -, hpath⟩
      exact isKnown_of_mem_walk h.1 (path, p.2) hpath
    · exact isKnown_of_mem_walkEntries h.2 p hmore

end

mutual

/-- A value has a native form exactly if it is known. -/
theorem fault?_toNative_eq_none : ∀ v : Value, fault? v.toNative = none ↔ v.isKnown = true
  | null | bool _ | number _ | string _ | capsule _ => by
    constructor
    · intro _
      rfl
    · intro _
      rfl
  | unknown => by
    constructor
    · intro h
      cases h
    · intro h
      cases h
  | list items | set items | tuple items => by
    rw [toNative, fault?_map, isKnown]
    exact fault?_toNativeItems_eq_none items 0
  | map entries | object entries => by
    rw [toNative, fault?_map, isKnown]
    exact fault?_toNativeEntries_eq_none entries

theorem fault?_toNativeItems_eq_none : ∀ (items : List Value) (index : Nat),
    fault? (toNative.toNativeItems index items) = none ↔ isKnown.areKnown items = true
  | [], index => by
    constructor
    · intro _
      rfl
    · intro _
      rfl
  | v :: vs, index => by
    rw [toNative.toNativeItems, fault?_parts, Option.or_eq_none_iff, Option.map_eq_none_iff,
      fault?_toNative_eq_none v, fault?_toNativeItems_eq_none vs, isKnown.areKnown,
      Bool.and_eq_true]

theorem fault?_toNativeEntries_eq_none : ∀ entries : List (String × Value),
    fault? (toNative.toNativeEntries entries) = none ↔ isKnown.areEntriesKnown entries = true
  | [] => by
    constructor
    · intro _
      rfl
    · intro _
      rfl
  | (k, v) :: rest => by
    rw [toNative.toNativeEntries, fault?_parts, Option.or_eq_none_iff, Option.map_eq_none_iff,
      fault?_toNative_eq_none v, fault?_toNativeEntries_eq_none rest, isKnown.areEntriesKnown,
      Bool.and_eq_true]

end

/-! ## The first unknown part -/

/-- The fault is that of the first unknown part listed. Every part in front of it is known, or is a
part around it, which the path goes through. -/
def BlamesFirst (parts : List (List PathStep × Value)) (f : ValueFault) : Prop :=
  ∃ path front back, f = .conversion path .unknown ∧
    parts = front ++ (path, .unknown) :: back ∧
      ∀ p ∈ front, p.2.isKnown = true ∨ p.1 <+: path ∧ p.1 ≠ path

namespace BlamesFirst

/-- One level around all parts. -/
theorem within (h : BlamesFirst parts f) : BlamesFirst (beneath step parts) (f.within step) := by
  rcases h with ⟨path, front, back, rfl, rfl, hfront⟩
  refine ⟨step :: path, beneath step front, beneath step back, rfl, ?_, ?_⟩
  · simp only [beneath, List.map_append, List.map_cons]
  · intro p hp
    rcases List.mem_map.1 hp with ⟨q, hq, rfl⟩
    rcases hfront q hq with hknown | ⟨haround, hne⟩
    · exact .inl hknown
    · right
      constructor
      · exact (List.prefix_cons_inj step).2 haround
      · intro heq
        exact hne (List.cons.inj heq).2

/-- Parts behind do not count. -/
theorem append (h : BlamesFirst parts f) : BlamesFirst (parts ++ more) f := by
  rcases h with ⟨path, front, back, rfl, rfl, hfront⟩
  refine ⟨path, front, back ++ more, rfl, ?_, hfront⟩
  rw [List.append_assoc, List.cons_append]

/-- Known parts in front do not count. -/
theorem behind (h : BlamesFirst parts f) (hknown : ∀ p ∈ more, p.2.isKnown = true) :
    BlamesFirst (more ++ parts) f := by
  rcases h with ⟨path, front, back, rfl, rfl, hfront⟩
  refine ⟨path, more ++ front, back, rfl, (List.append_assoc ..).symm, ?_⟩
  intro p hp
  rcases List.mem_append.1 hp with hmore | hp
  · exact .inl (hknown p hmore)
  · exact hfront p hp

/-- The whole is in front of its parts. -/
theorem root (h : BlamesFirst parts f) (hparts : ∀ p ∈ parts, p.1 ≠ []) :
    BlamesFirst (([], v) :: parts) f := by
  rcases h with ⟨path, front, back, rfl, rfl, hfront⟩
  refine ⟨path, ([], v) :: front, back, rfl, rfl, ?_⟩
  intro p hp
  rcases List.mem_cons.1 hp with rfl | hp
  · right
    have hpath := hparts (path, unknown) (List.mem_append_right _ List.mem_cons_self)
    exact ⟨List.nil_prefix, hpath.symm⟩
  · exact hfront p hp

end BlamesFirst

theorem path_ne_nil_of_mem_walkItems {items : List Value} {index : Nat} :
    ∀ p ∈ walk.walkItems index items, p.1 ≠ [] := by
  intro p hp
  rcases mem_walkItems hp with ⟨i, y, rest, hpath, -⟩
  rw [hpath]
  exact List.cons_ne_nil _ _

theorem path_ne_nil_of_mem_walkEntries {entries : List (String × Value)} :
    ∀ p ∈ walk.walkEntries entries, p.1 ≠ [] := by
  intro p hp
  rcases mem_walkEntries hp with ⟨k, y, rest, hpath, -⟩
  rw [hpath]
  exact List.cons_ne_nil _ _

mutual

/-- A value without a native form is blamed for its first unknown part. -/
theorem blamesFirst_of_toNative : ∀ {v : Value} {f : ValueFault},
    fault? v.toNative = some f → BlamesFirst v.walk f
  | unknown, f, h => by
    cases h
    refine ⟨[], [], [], rfl, rfl, ?_⟩
    intro p hp
    cases hp
  | null, f, h | bool _, f, h | number _, f, h | string _, f, h | capsule _, f, h => by
    cases h
  | list items, f, h | set items, f, h | tuple items, f, h => by
    rw [toNative, fault?_map] at h
    exact (blamesFirst_of_toNativeItems h).root path_ne_nil_of_mem_walkItems
  | map entries, f, h | object entries, f, h => by
    rw [toNative, fault?_map] at h
    exact (blamesFirst_of_toNativeEntries h).root path_ne_nil_of_mem_walkEntries

theorem blamesFirst_of_toNativeItems : ∀ {items : List Value} {index : Nat} {f : ValueFault},
    fault? (toNative.toNativeItems index items) = some f →
      BlamesFirst (walk.walkItems index items) f
  | [], index, f, h => by cases h
  | v :: vs, index, f, h => by
    rw [toNative.toNativeItems, fault?_parts, Option.or_eq_some_iff, Option.map_eq_none_iff] at h
    rcases h with hfirst | ⟨hnone, hmore⟩
    · rcases Option.map_eq_some_iff.1 hfirst with ⟨g, hg, rfl⟩
      exact (blamesFirst_of_toNative hg).within.append
    · refine (blamesFirst_of_toNativeItems hmore).behind ?_
      intro p hp
      rcases mem_beneath hp with ⟨rest, -, hrest⟩
      exact isKnown_of_mem_walk ((fault?_toNative_eq_none v).1 hnone) (rest, p.2) hrest

theorem blamesFirst_of_toNativeEntries : ∀ {entries : List (String × Value)} {f : ValueFault},
    fault? (toNative.toNativeEntries entries) = some f → BlamesFirst (walk.walkEntries entries) f
  | [], f, h => by cases h
  | (k, v) :: rest, f, h => by
    rw [toNative.toNativeEntries, fault?_parts, Option.or_eq_some_iff, Option.map_eq_none_iff] at h
    rcases h with hfirst | ⟨hnone, hmore⟩
    · rcases Option.map_eq_some_iff.1 hfirst with ⟨g, hg, rfl⟩
      exact (blamesFirst_of_toNative hg).within.append
    · refine (blamesFirst_of_toNativeEntries hmore).behind ?_
      intro p hp
      rcases mem_beneath hp with ⟨path, -, hpath⟩
      exact isKnown_of_mem_walk ((fault?_toNative_eq_none v).1 hnone) (path, p.2) hpath

end

theorem isKnown_of_toNative {x : NativeValue} (h : v.toNative = .ok x) : v.isKnown = true :=
  (fault?_toNative_eq_none v).1 (fault?_eq_none.2 ⟨x, h⟩)

theorem isKnown_eq_false_of_toNative (h : v.toNative = .error f) : v.isKnown = false := by
  rw [← Bool.not_eq_true, ← fault?_toNative_eq_none, fault?_eq_some.2 h]
  exact Option.some_ne_none f

end Value

/-! ## The variables of a package -/

namespace Resolved

open Value (isKnown_of_toNative isKnown_eq_false_of_toNative)

variable {package : PackageId}

/-- The known variables have their native values, in order. -/
theorem nativeEntries_known (vars : Dict Variable) :
    List.Forall₂ (fun nv nx => nx.1 = nv.1 ∧ nv.2.value.toNative = .ok nx.2)
      (vars.filter fun nv => nv.2.value.isKnown) (nativeEntries package vars).1 := by
  induction vars with
  | nil => exact .nil
  | cons nv vars ih =>
    rcases nv with ⟨name, v⟩
    rw [nativeEntries, List.filter_cons]
    cases hx : v.value.toNative with
    | ok x =>
      rw [if_pos (isKnown_of_toNative hx)]
      exact .cons ⟨rfl, hx⟩ ih
    | error f =>
      rw [if_neg (ne_true_of_eq_false (isKnown_eq_false_of_toNative hx))]
      exact ih

/-- The unknown variables are reported, in order. -/
theorem nativeEntries_unknown (vars : Dict Variable) :
    List.Forall₂ (fun nv d => ∃ f, nv.2.value.toNative = .error f ∧ d = unconverted package nv.2 f)
      (vars.filter fun nv => !nv.2.value.isKnown) (nativeEntries package vars).2 := by
  induction vars with
  | nil => exact .nil
  | cons nv vars ih =>
    rcases nv with ⟨name, v⟩
    rw [nativeEntries, List.filter_cons]
    cases hx : v.value.toNative with
    | ok x =>
      rw [isKnown_of_toNative hx]
      exact ih
    | error f =>
      rw [isKnown_eq_false_of_toNative hx]
      exact .cons ⟨f, hx, rfl⟩ ih

/-- A package that is not there has no variables. -/
theorem nativeVariables_eq (r : Resolved) (package : PackageId) :
    r.nativeVariables package = nativeEntries package ((r.package? package).getD []) := by
  rw [nativeVariables]
  cases r.package? package with
  | none => rfl
  | some vars => rfl

/-- Unknown parts are all that keeps a value from its native form, and they keep no other value from
it.

* A value has a native form exactly if it is known.
* The path of the fault of any other value leads to an unknown part. In depth-first order every part
  in front of it is known, or is a part around it.
* Of the variables of a package exactly the known ones are there, in order, each with its own native
  value, and for each of the others there is exactly one report, in order, with the range of its
  declaration. -/
theorem toNative_isolates_unknowns :
    (∀ v : Value, (∃ x, v.toNative = .ok x) ↔ v.isKnown = true) ∧
    (∀ (v : Value) (f : ValueFault), v.Ordered → v.toNative = .error f →
      ∃ path front back, f = .conversion path .unknown ∧ v.partAt? path = some .unknown ∧
        v.walk = front ++ (path, .unknown) :: back ∧
          ∀ p ∈ front, p.2.isKnown = true ∨ p.1 <+: path ∧ p.1 ≠ path) ∧
    ∀ (r : Resolved) (package : PackageId),
      let vars := (r.package? package).getD []
      List.Forall₂ (fun nv nx => nx.1 = nv.1 ∧ nv.2.value.toNative = .ok nx.2)
        (vars.filter fun nv => nv.2.value.isKnown) (r.nativeVariables package).1 ∧
      List.Forall₂ (fun nv d => ∃ f, nv.2.value.toNative = .error f ∧
          d = unconverted package nv.2 f ∧ d.category = .conversionFailure ∧
            d.subject = some nv.2.range)
        (vars.filter fun nv => !nv.2.value.isKnown) (r.nativeVariables package).2 := by
  refine ⟨?_, ?_, ?_⟩
  · intro v
    rw [← Value.fault?_toNative_eq_none, Value.fault?_eq_none]
  · intro v f hv h
    rcases Value.blamesFirst_of_toNative (Value.fault?_eq_some.2 h) with
      ⟨path, front, back, rfl, hwalk, hfront⟩
    -- The walk meets the value at the path, and a path of the walk leads back to it.
    have hmem : (path, Value.unknown) ∈ v.walk := by
      rw [hwalk]
      exact List.mem_append_right _ List.mem_cons_self
    exact ⟨path, front, back, rfl, Value.partAt?_of_mem_walk hv hmem, hwalk, hfront⟩
  · intro r package vars
    rw [nativeVariables_eq]
    constructor
    · exact nativeEntries_known vars
    · refine (nativeEntries_unknown vars).imp ?_
      rintro nv d ⟨f, hf, rfl⟩
      exact ⟨f, hf, rfl, rfl, rfl⟩

/-- In the attribute `b` the unknown part is behind a known item and inside of a map; what comes
behind it, in `c`, is not blamed. The package has two variables, of which the other one is known. -/
theorem toNative_isolates_unknowns_nested :
    let v : Value := .object [("a", .list [.null]),
      ("b", .tuple [.string "x", .map [("k", .bool true), ("l", .unknown)]]), ("c", .unknown)]
    let path : List PathStep := [.key "b", .index 1, .key "l"]
    let r : Resolved := ⟨⟨"p"⟩, .flat,
      [("p", [("fine", { Variable.bare "fine" default with value := .bool true }),
        ("late", { Variable.bare "late" default with value := v })])]⟩
    v.Ordered ∧ v.isKnown = false ∧ v.toNative = .error (.conversion path .unknown) ∧
      v.partAt? path = some .unknown ∧
      (r.nativeVariables ⟨"p"⟩).1 = [("fine", .bool true)] ∧
      (r.nativeVariables ⟨"p"⟩).2.map Diagnostic.subject = [some default] := by
  intro v path r
  have habc : ["a", "b", "c"].Pairwise (· < ·) := by decide +kernel
  have hkl : ["k", "l"].Pairwise (· < ·) := by decide +kernel
  have hv : v.Ordered :=
    ⟨habc, ⟨trivial, trivial⟩, ⟨trivial, ⟨hkl, trivial, trivial, trivial⟩, trivial⟩, trivial,
      trivial⟩
  have hfault : v.toNative = .error (.conversion path .unknown) := rfl
  rcases toNative_isolates_unknowns with ⟨-, hpath, -⟩
  rcases hpath v _ hv hfault with ⟨p, front, back, heq, hpart, -⟩
  cases heq
  refine ⟨hv, rfl, hfault, hpart, ?_, ?_⟩
  · rfl
  · rfl

end Resolved

end Overlay
