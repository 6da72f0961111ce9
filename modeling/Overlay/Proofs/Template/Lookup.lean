import Overlay.Proofs.Numeric.NumberText
import Overlay.Proofs.Template.Mirror
import Overlay.Proofs.Text.Dots

/-!
# Strict look-ups

A dotted path leads from the values of a pack through maps and sequences, one key at a time. A
look-up gives what the whole path leads to, and where it leads nowhere, it says how far it leads.

* `NativeValue.Under` is one step, and `child_eq_ok_iff` and `child_eq_error` say that a look-up takes
  it or reports why there is none. `NativeValue.Leads` is a path of such steps.
* `follow_eq_ok_iff` and `follow_eq_error` are the run: the text of the path that was walked stays
  that of the keys in front, so the fault names the place where the path gets stuck.
* `lookup_strict` says it of variables and metadata alike. The metadata of every context in a tree
  of packs is a map (`metadata_of_mem_walkFrom`).
-/

namespace Overlay

open Numeric (Sign AreDigits)
open Text (joinDots splitDots)

/-! ## Keys and values -/

/-- The text writes the number: decimal digits, with or without a plus sign in front. -/
def WritesIndex (key : String) (n : Nat) : Prop :=
  ∃ (sign : Sign) (ds : List Char), key.toList = sign.text ++ ds ∧ sign ≠ .minus ∧ ds ≠ [] ∧
    AreDigits ds ∧ Numeric.value ds = n

namespace NativeValue

/-- Whether a value is a map or a sequence. -/
def IsCollection : NativeValue → Prop
  | map _ | seq _ => True
  | absent | bool _ | int _ | float _ | string _ | handle _ => False

/-- What stands under a key: the entry of a map, or the item of a sequence at the index that the key
writes. -/
inductive Under (key : String) : NativeValue → NativeValue → Prop where
  | entry {entries : Dict NativeValue} {x : NativeValue} (h : entries.find? key = some x) :
    Under key (.map entries) x
  | item {items : List NativeValue} {i : Nat} {x : NativeValue} (hkey : WritesIndex key i)
    (h : items[i]? = some x) : Under key (.seq items) x

/-- The keys lead from one value to the other, each to what stands under it. -/
inductive Leads : NativeValue → List String → NativeValue → Prop where
  | here (v : NativeValue) : Leads v [] v
  | under {key : String} {rest : List String} {v x y : NativeValue} (h : Under key v x)
    (hrest : Leads x rest y) : Leads v (key :: rest) y

variable {v y : NativeValue} {front rest : List String}

/-- A path leads somewhere only if every front of it does. -/
theorem Leads.exists_of_append (h : Leads v (front ++ rest) y) : ∃ x, Leads v front x := by
  induction front generalizing v with
  | nil => exact ⟨v, .here v⟩
  | cons key front ih =>
    rcases h with - | ⟨hkey, hrest⟩
    rcases ih hrest with ⟨x, hx⟩
    exact ⟨x, .under hkey hx⟩

end NativeValue

namespace Context

open NativeValue (IsCollection Under Leads)

variable {c : Context} {entries : Dict NativeValue} {v x : NativeValue} {path key : String}
  {parts keys : List String} {e : LookupFault}

/-! ## One step -/

/-- Behind no sign or a plus sign, a text is read as digits. -/
theorem index?_eq {sign : Sign} {ds : List Char} (hkey : key.toList = sign.text ++ ds)
    (hsign : sign ≠ .minus) (hds : sign = .absent → Numeric.Unsigned ds) :
    index? key =
      if ds ≠ [] ∧ ds.all Numeric.isDigit = true then some (Numeric.value ds) else none := by
  cases sign with
  | plus =>
    unfold index?
    rw [hkey]
    rfl
  | minus => exact absurd rfl hsign
  | absent =>
    unfold index?
    rw [hkey]
    rcases ds with - | ⟨c, cs⟩
    · rfl
    · have hplus := (Numeric.unsigned_cons.1 (hds rfl)).2
      split
      next hcons => exact absurd (List.cons.inj hcons).1 hplus
      next => rfl

theorem index?_eq_some_iff {n : Nat} : index? key = some n ↔ WritesIndex key n := by
  constructor
  · intro h
    rcases Numeric.exists_sign key.toList with ⟨sign, ds, hkey, hds⟩
    by_cases hsign : sign = .minus
    · -- A minus sign is no digit.
      subst hsign
      have hnone : index? key = none := by
        unfold index?
        rw [hkey]
        rfl
      rw [hnone] at h
      cases h
    · rw [index?_eq hkey hsign hds] at h
      split at h
      next hdigits =>
        exact ⟨sign, ds, hkey, hsign, hdigits.1, Numeric.areDigits_iff.2 hdigits.2,
          Option.some.inj h⟩
      next => cases h
  · rintro ⟨sign, ds, hkey, hsign, hne, hdigits, rfl⟩
    rw [index?_eq hkey hsign fun _ => hdigits.unsigned,
      if_pos ⟨hne, Numeric.areDigits_iff.1 hdigits⟩]

/-- What stands under a key, if anything does. -/
def under? (key : String) : NativeValue → Option NativeValue
  | .map entries => Dict.find? key entries
  | .seq items => (index? key).bind fun i => items[i]?
  | _ => none

theorem under?_eq_some_iff : under? key v = some x ↔ Under key v x := by
  constructor
  · intro h
    cases v with
    | map entries => exact .entry h
    | seq items =>
      rcases Option.bind_eq_some_iff.1 h with ⟨i, hi, hx⟩
      exact .item (index?_eq_some_iff.1 hi) hx
    | absent | bool | int | float | string | handle => cases h
  · rintro (⟨h⟩ | ⟨hkey, h⟩)
    · exact h
    · exact Option.bind_eq_some_iff.2 ⟨_, index?_eq_some_iff.2 hkey, h⟩

/-- The path gets stuck at a value: nothing stands under the key, and the fault says whether
anything could. -/
structure Stuck (path key : String) (v : NativeValue) (e : LookupFault) : Prop where
  nothing : ∀ x, ¬Under key v x
  fault : e = .missingKey path key ∧ IsCollection v ∨ e = .notTraversable path key ∧ ¬IsCollection v

theorem child_eq_ok_iff : child path key v = .ok x ↔ Under key v x := by
  have hchild : child path key v = .ok x ↔ under? key v = some x := by
    cases v with
    | map entries =>
      simp only [child, under?]
      cases Dict.find? key entries <;> simp
    | seq items =>
      simp only [child, under?]
      cases (index? key).bind fun i => items[i]? <;> simp
    | absent | bool | int | float | string | handle => simp [child, under?]
  exact hchild.trans under?_eq_some_iff

theorem child_eq_error (h : child path key v = .error e) : Stuck path key v e := by
  refine ⟨fun x hx => ?_, ?_⟩
  · rw [child_eq_ok_iff.2 hx] at h
    cases h
  · cases v with
    | map entries =>
      simp only [child] at h
      split at h
      · cases h
      · exact .inl ⟨(Except.error.inj h).symm, trivial⟩
    | seq items =>
      simp only [child] at h
      split at h
      · cases h
      · exact .inl ⟨(Except.error.inj h).symm, trivial⟩
    | absent | bool | int | float | string | handle =>
      exact .inr ⟨(Except.error.inj h).symm, id⟩

/-! ## A whole path -/

theorem follow_eq_ok_iff : follow path v keys = .ok x ↔ Leads v keys x := by
  induction keys generalizing path v with
  | nil =>
    constructor
    · rintro ⟨⟩
      exact .here _
    · rintro ⟨⟩
      rfl
  | cons key rest ih =>
    rw [follow]
    constructor
    · intro h
      rcases hchild : child path key v with e | y
      · rw [hchild] at h
        cases h
      · rw [hchild] at h
        exact .under (child_eq_ok_iff.1 hchild) (ih.1 h)
    · rintro (- | ⟨hkey, hrest⟩)
      rw [child_eq_ok_iff.2 hkey]
      exact ih.2 hrest

/-- The path gets stuck behind some of the keys, and its text is that of the keys walked. -/
theorem follow_eq_error (hparts : parts ≠ []) (h : follow (joinDots parts) v keys = .error e) :
    ∃ front key rest x, keys = front ++ key :: rest ∧ Leads v front x ∧
      Stuck (joinDots (parts ++ front)) key x e := by
  induction keys generalizing parts v with
  | nil => cases h
  | cons key rest ih =>
    rw [follow] at h
    rcases hchild : child (joinDots parts) key v with e' | y
    · rw [hchild] at h
      cases h
      rw [← List.append_nil parts] at hchild
      exact ⟨[], key, rest, v, rfl, .here v, child_eq_error hchild⟩
    · rw [hchild] at h
      have hnext : follow (joinDots (parts ++ [key])) y rest = .error e := by
        rw [Text.joinDots_concat hparts]
        exact h
      rcases ih (List.append_ne_nil_of_left_ne_nil hparts [key]) hnext with
        ⟨front, key', rest', x, rfl, hfront, hstuck⟩
      rw [List.append_assoc] at hstuck
      exact ⟨key :: front, key', rest', x, rfl, .under (child_eq_ok_iff.1 hchild) hfront, hstuck⟩

theorem lookupIn_eq_ok_iff :
    lookupIn entries path = .ok x ↔ Leads (.map entries) (splitDots path) x := by
  unfold lookupIn
  rcases hsplit : splitDots path with - | ⟨first, rest⟩
  · exact absurd hsplit (Text.splitDots_ne_nil path)
  simp only
  cases hfind : Dict.find? first entries with
  | none =>
    refine ⟨nofun, ?_⟩
    rintro (- | ⟨⟨h⟩, -⟩)
    rw [hfind] at h
    cases h
  | some v =>
    simp only [follow_eq_ok_iff]
    constructor
    · exact fun h => .under (.entry hfind) h
    · rintro (- | ⟨⟨h⟩, hrest⟩)
      rw [hfind] at h
      cases h
      exact hrest

theorem lookupIn_eq_error (h : lookupIn entries path = .error e) :
    ∃ front key rest x, splitDots path = front ++ key :: rest ∧ Leads (.map entries) front x ∧
      Stuck (joinDots front) key x e := by
  unfold lookupIn at h
  rcases hsplit : splitDots path with - | ⟨first, rest⟩
  · exact absurd hsplit (Text.splitDots_ne_nil path)
  rw [hsplit] at h
  simp only at h
  cases hfind : Dict.find? first entries with
  | none =>
    rw [hfind] at h
    refine ⟨[], first, rest, .map entries, rfl, .here _, ?_,
      .inl ⟨(Except.error.inj h).symm, trivial⟩⟩
    rintro x ⟨hx⟩
    rw [hfind] at hx
    cases hx
  | some v =>
    rw [hfind] at h
    have hfirst : joinDots [first] = first := String.intercalate_singleton
    rw [← hfirst] at h
    rcases follow_eq_error (List.cons_ne_nil first []) h with
      ⟨front, key, rest, x, rfl, hfront, hstuck⟩
    exact ⟨first :: front, key, rest, x, rfl, .under (.entry hfind) hfront, hstuck⟩

theorem dot_not_mem_of_mem_splitDots (path : String) (h : key ∈ splitDots path) :
    '.' ∉ key.toList := by
  rcases List.mem_map.1 h with ⟨cs, hcs, rfl⟩
  rw [String.toList_ofList]
  exact Text.not_mem_of_mem_splitAtChar hcs

/-! ## Look-ups -/

/-- A look-up of a path from `root` succeeds if and only if every front of the path leads somewhere,
and gives what the whole path leads to. A fault names a front of the path, to which the look-up
succeeds if it is not empty, and the key behind that, under which there is nothing; it is the fault
of a value that cannot be traversed exactly if the value there is neither a map nor a sequence. -/
structure Strict (root : NativeValue) (look : String → Except LookupFault NativeValue)
    (path : String) : Prop where
  succeeds : (∃ v, look path = .ok v) ↔ ∀ front, front <+: splitDots path → ∃ v, Leads root front v
  value : ∀ v, look path = .ok v ↔ Leads root (splitDots path) v
  fault : ∀ e, look path = .error e → ∃ front key rest v,
    splitDots path = front ++ key :: rest ∧ Leads root front v ∧
      (front = [] ∨ look (joinDots front) = .ok v) ∧ Stuck (joinDots front) key v e

theorem lookupIn_strict (entries : Dict NativeValue) (path : String) :
    Strict (.map entries) (lookupIn entries) path := by
  refine ⟨⟨?_, ?_⟩, fun v => lookupIn_eq_ok_iff, ?_⟩
  · rintro ⟨v, hv⟩ front ⟨rest, hrest⟩
    have hleads := lookupIn_eq_ok_iff.1 hv
    rw [← hrest] at hleads
    exact hleads.exists_of_append
  · intro h
    rcases h (splitDots path) (List.prefix_refl _) with ⟨v, hv⟩
    exact ⟨v, lookupIn_eq_ok_iff.2 hv⟩
  · intro e he
    rcases lookupIn_eq_error he with ⟨front, key, rest, v, hsplit, hfront, hstuck⟩
    refine ⟨front, key, rest, v, hsplit, hfront, ?_, hstuck⟩
    by_cases hne : front = []
    · exact .inl hne
    · -- The keys in front are cut apart again where they are looked up by themselves.
      have hdots : ∀ part ∈ front, '.' ∉ part.toList := by
        intro part hpart
        refine dot_not_mem_of_mem_splitDots path ?_
        rw [hsplit]
        exact List.mem_append_left _ hpart
      rw [← Text.splitDots_joinDots hne hdots] at hfront
      exact .inr (lookupIn_eq_ok_iff.2 hfront)

/-! ## Metadata -/

mutual

theorem metadata_of_mem_walkFrom (r : Resolved) (path : List String) (dotted : String) :
    ∀ p : Pack, ∀ d ∈ (ofNode r ⟨path, p⟩).walkFrom dotted, ∃ entries, d.2.metadata = .map entries
  | ⟨name, aliasName, metadata, source, dependencies⟩ => by
    intro d hd
    rw [walkFrom_eq, dependencies_build] at hd
    exact metadata_of_mem_walkAll r path dotted dependencies d hd

theorem metadata_of_mem_walkAll (r : Resolved) (path : List String) (dotted : String) :
    ∀ ps : List Pack,
      ∀ d ∈ walkFrom.walkAll dotted (ps.map fun d => (d.key, ofNode r ⟨path ++ [d.key], d⟩)),
        ∃ entries, d.2.metadata = .map entries
  | [] => fun d hd => nomatch hd
  | p :: ps => by
    intro d hd
    rw [List.map_cons, walkFrom.walkAll] at hd
    rcases List.mem_cons.1 hd with rfl | hd
    · exact ⟨_, (ofNode_mirrors r ⟨path ++ [p.key], p⟩).metadata⟩
    · rcases List.mem_append.1 hd with hd | hd
      · exact metadata_of_mem_walkFrom r (path ++ [p.key]) (childPath dotted p.key) p d hd
      · exact metadata_of_mem_walkAll r path dotted ps d hd

end

/-- Strict look-ups succeed and fail where they say, for the variables of every context, and for its
metadata, which is a map in every context that is made for a tree of packs. -/
theorem lookup_strict :
    (∀ (c : Context) (path : String), Strict (.map c.values) c.lookup path) ∧
    (∀ (c : Context) (entries : Dict NativeValue), c.metadata = .map entries →
      ∀ path, Strict (.map entries) c.lookupMetadata path) ∧
    ∀ (r : Resolved) (p : Pack),
      ∀ c ∈ (ofPack r p).1 :: (ofPack r p).1.walk.map Prod.snd,
        ∃ entries, c.metadata = .map entries := by
  refine ⟨fun c path => lookupIn_strict c.values path, ?_, ?_⟩
  · intro c entries hmetadata path
    have hlook : c.lookupMetadata = lookupIn entries := by
      funext path
      rw [lookupMetadata, hmetadata]
    rw [hlook]
    exact lookupIn_strict entries path
  · intro r p c hc
    rcases List.mem_cons.1 hc with rfl | hc
    · exact ⟨_, (ofNode_mirrors r ⟨[p.name], p⟩).metadata⟩
    · rcases List.mem_map.1 hc with ⟨d, hd, rfl⟩
      exact metadata_of_mem_walkFrom r [p.name] "" p d hd

/-- A context with values of every depth. -/
def labelledContext : Context :=
  let labels : NativeValue :=
    .map [("team", .string "core"), ("tiers", .seq [.string "a", .string "b"])]
  ⟨"web", [("labels", labels)], Metadata.toNative { pack := { name := "web" } }, []⟩

theorem lookup_strict_labelled :
    labelledContext.lookup "labels.tiers.+1" = .ok (.string "b") ∧
    (∃ front key rest v, splitDots "labels.team.lead.0" = front ++ key :: rest ∧
      (front = [] ∨ labelledContext.lookup (joinDots front) = .ok v) ∧
        Stuck (joinDots front) key v (.notTraversable "labels.team" "lead")) ∧
    ∃ entries, labelledContext.metadata = .map entries ∧
      Strict (.map entries) labelledContext.lookupMetadata "pack.name" ∧
        labelledContext.lookupMetadata "pack.name" = .ok (.string "web") := by
  obtain ⟨hvalues, hmetadata, -⟩ := lookup_strict
  have htier : labelledContext.lookup "labels.tiers.+1" = .ok (.string "b") := by rfl
  have hlead : labelledContext.lookup "labels.team.lead.0" =
      .error (.notTraversable "labels.team" "lead") := by rfl
  have hname : labelledContext.lookupMetadata "pack.name" = .ok (.string "web") := by rfl
  rcases (hvalues labelledContext "labels.team.lead.0").fault _ hlead with
    ⟨front, key, rest, v, hsplit, -, hfront, hstuck⟩
  exact ⟨htier, ⟨front, key, rest, v, hsplit, hfront, hstuck⟩, _, rfl,
    hmetadata labelledContext _ rfl "pack.name", hname⟩

end Context

end Overlay
