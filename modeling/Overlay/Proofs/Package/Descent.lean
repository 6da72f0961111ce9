import Overlay.Proofs.Package.Position
import Overlay.Proofs.Text.Dots

/-!
# Descending in trees of packs

* `descend?` follows keys down a tree, one dependency after the other. A walk lists exactly what it
  reaches, under the path that it takes (`mem_walkFrom`), and no path twice (`nodup_paths`).
* `Made.each`: the dependencies of a tree that is made by the functions on packs are made so, too, and
  none of them is known under the key of the pack's own entry.
-/

namespace Overlay

theorem ne_empty_of_isIdentifier {name : String} (h : isIdentifier name = true) : name ≠ "" := by
  rintro rfl
  cases h

namespace Pack

variable {p q d child : Pack} {path keys : List String} {key : String} {node : PackNode}

/-! ## Dependencies -/

theorem addDependency_key (h : p.addDependency child = .ok q) : child.key ≠ selfKey := by
  unfold addDependency at h
  split at h
  · cases h
  · assumption

theorem Made.each (h : p.Made) : ∀ d ∈ p.dependencies, d.Made ∧ d.key ≠ selfKey := by
  induction h with
  | ofName h =>
    rcases ofName_eq_ok h with ⟨-, rfl⟩
    exact fun _ hd => absurd hd List.not_mem_nil
  | withAlias _ h ih =>
    rcases withAlias_eq_ok h with ⟨-, rfl⟩
    exact ih
  | withMetadata _ _ ih => exact ih
  | withVariables _ _ ih => exact ih
  | addDependency _ hchild h ih _ =>
    have hkey := addDependency_key h
    rw [addDependency_eq_ok h]
    intro d hd
    rcases List.mem_append.1 hd with hold | hnew
    · exact ih d hold
    · rw [List.mem_singleton.1 hnew]
      exact ⟨hchild, hkey⟩

theorem dependency?_eq_some (h : (p.dependencies.map Pack.key).Nodup) :
    p.dependency? key = some d ↔ d ∈ p.dependencies ∧ d.key = key := by
  unfold dependency?
  constructor
  · intro hfind
    exact ⟨List.mem_of_find?_eq_some hfind, by simpa using List.find?_some hfind⟩
  · rintro ⟨hmem, hkey⟩
    cases hfind : p.dependencies.find? fun e => e.key = key with
    | none =>
      rw [List.find?_eq_none] at hfind
      exact absurd hkey (by simpa using hfind d hmem)
    | some e =>
      -- There is only one dependency with the key.
      have hekey : e.key = key := by simpa using List.find?_some hfind
      rw [List.inj_on_of_nodup_map h (List.mem_of_find?_eq_some hfind) hmem (hekey.trans hkey.symm)]

/-! ## Keys in turn -/

/-- The pack that keys lead to, one dependency after the other. -/
def descend? (p : Pack) (keys : List String) : Option Pack := keys.foldlM dependency? p

@[simp] theorem descend?_nil (p : Pack) : p.descend? [] = some p := rfl

@[simp] theorem descend?_cons (p : Pack) (key : String) (keys : List String) :
    p.descend? (key :: keys) = (p.dependency? key).bind fun d => d.descend? keys := rfl

/-- The packs at positions are those that keys lead to. -/
theorem exists_nodeFrom? (hp : p.Keyed) :
    (∃ position, p.nodeFrom? path position = some node) ↔
      ∃ keys, node.path = path ++ keys ∧ p.descend? keys = some node.pack := by
  constructor
  · rintro ⟨position, h⟩
    -- Down along the position; the key at each number is read off.
    induction position generalizing path p with
    | nil =>
      cases h
      exact ⟨[], (List.append_nil path).symm, rfl⟩
    | cons i rest ih =>
      rcases nodeFrom?_cons_eq_some.1 h with ⟨d, hd, hnode⟩
      have hmem := List.mem_of_getElem? hd
      rcases ih (hp.each d hmem) hnode with ⟨keys, hpath, hdescend⟩
      refine ⟨d.key :: keys, by rw [hpath, List.append_assoc, List.singleton_append], ?_⟩
      rw [descend?_cons, (dependency?_eq_some hp.keys).2 ⟨hmem, rfl⟩]
      exact hdescend
  · rintro ⟨keys, hpath, h⟩
    -- Down along the keys; each is somewhere among the dependencies, at the number looked for.
    induction keys generalizing path p with
    | nil =>
      cases Option.some.inj h
      refine ⟨[], ?_⟩
      rw [List.append_nil] at hpath
      rw [nodeFrom?_nil, ← hpath]
    | cons key rest ih =>
      rcases Option.bind_eq_some_iff.1 ((descend?_cons p key rest).symm.trans h) with
        ⟨d, hd, hdescend⟩
      rcases (dependency?_eq_some hp.keys).1 hd with ⟨hmem, rfl⟩
      rcases List.getElem?_of_mem hmem with ⟨i, hi⟩
      have hbelow : node.path = (path ++ [d.key]) ++ rest := by
        rw [hpath, List.append_assoc, List.singleton_append]
      rcases ih (hp.each d hmem) hbelow hdescend with ⟨position, hnode⟩
      exact ⟨i :: position, nodeFrom?_cons_eq_some.2 ⟨d, hi, hnode⟩⟩

/-- A walk lists what keys lead to, each with the path that goes on with the keys. -/
theorem mem_walkFrom (hp : p.Keyed) :
    node ∈ p.walkFrom path ↔ ∃ keys, node.path = path ++ keys ∧ p.descend? keys = some node.pack := by
  rw [← exists_nodeFrom? hp, ← map_snd_positioned, List.mem_map]
  constructor
  · rintro ⟨⟨position, n⟩, hmem, rfl⟩
    exact ⟨position, (mem_positionedFrom path position n p).1 hmem⟩
  · rintro ⟨position, hnode⟩
    exact ⟨(position, node), (mem_positionedFrom path position node p).2 hnode, rfl⟩

/-! ## Whole trees -/

theorem walk_eq (p : Pack) : p.walk = ⟨[p.name], p⟩ :: walkFrom.walkAll [p.name] p.dependencies :=
  walkFrom_eq [p.name] p

/-- A walk takes no path twice. -/
theorem nodup_paths (hp : p.Made) : (p.walk.map PackNode.path).Nodup := by
  rw [← map_snd_positioned_walk, List.map_map, List.Nodup, List.pairwise_map]
  have hpositions := pairwise_positioned p
  rw [List.pairwise_map] at hpositions
  refine hpositions.imp_of_mem ?_
  rintro ⟨i, m⟩ ⟨j, n⟩ hm hn hlt hpath
  -- Equal paths stand at one position, but positions ascend.
  have hsame : i = j := path_inj hp (mem_positioned.1 hm) (mem_positioned.1 hn) hpath
  exact hlt.ne hsame

end Pack

end Overlay
