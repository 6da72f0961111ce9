import Mathlib.Data.List.Lex
import Mathlib.Data.List.Nodup
import Overlay.Proofs.Package.Tree

/-!
# Positions in trees of packs

A pack of a tree stands at a position: the numbers of the dependencies that lead to it from the
root. Positions are ordered as words are, so a pack comes before those that it depends on.

* `positioned` is a walk that notes the positions: it lists every pack that stands at a position,
  with that position (`mem_positioned`), and positions ascend (`pairwise_positioned`).
* `Made.keyed`: in a tree that is made by the functions on packs, the dependencies of one pack have
  different keys, failed additions included (`Made.tryDependency`).
* `path_inj`: so the path of a pack tells its position.
-/

namespace Overlay.Pack

/-! ## Nodes at positions -/

/-- The node at a position below a pack with the path given. -/
def nodeFrom? (path : List String) (p : Pack) : List Nat → Option PackNode
  | [] => some ⟨path, p⟩
  | i :: rest => p.dependencies[i]?.bind fun d => nodeFrom? (path ++ [d.key]) d rest

/-- The node at a position of a tree. -/
def nodeAt? (p : Pack) (position : List Nat) : Option PackNode := p.nodeFrom? [p.name] position

/-- The packs of a tree in the order of a walk, with their positions. -/
def positioned (path : List String) : Pack → List (List Nat × PackNode)
  | ⟨name, aliasName, metadata, source, dependencies⟩ =>
    ([], ⟨path, ⟨name, aliasName, metadata, source, dependencies⟩⟩) ::
      positionedAll path 0 dependencies
where
  /-- The packs of the trees of dependencies, the first of which has the number `i`. -/
  positionedAll (path : List String) (i : Nat) : List Pack → List (List Nat × PackNode)
  | [] => []
  | p :: ps =>
    (positioned (path ++ [p.key]) p).map (fun x => (i :: x.1, x.2)) ++ positionedAll path (i + 1) ps

variable {p q d child : Pack} {path : List String} {node m n : PackNode} {i j : List Nat}
  {position : List Nat}

@[simp] theorem nodeFrom?_nil (path : List String) (p : Pack) :
    p.nodeFrom? path [] = some ⟨path, p⟩ := rfl

theorem nodeFrom?_cons_eq_some {k : Nat} :
    p.nodeFrom? path (k :: position) = some node ↔
      ∃ d, p.dependencies[k]? = some d ∧ d.nodeFrom? (path ++ [d.key]) position = some node :=
  Option.bind_eq_some_iff

theorem positioned_eq (path : List String) (p : Pack) :
    p.positioned path = ([], ⟨path, p⟩) :: positioned.positionedAll path 0 p.dependencies := by
  cases p
  rfl

mutual

theorem map_snd_positioned (path : List String) :
    ∀ p : Pack, (p.positioned path).map Prod.snd = p.walkFrom path
  | ⟨name, aliasName, metadata, source, dependencies⟩ => by
    rw [positioned_eq, walkFrom_eq, List.map_cons, map_snd_positionedAll path 0 dependencies]

theorem map_snd_positionedAll (path : List String) (i : Nat) :
    ∀ ps : List Pack, (positioned.positionedAll path i ps).map Prod.snd = walkFrom.walkAll path ps
  | [] => rfl
  | p :: ps => by
    rw [positioned.positionedAll, walkFrom.walkAll, List.map_append, List.map_map,
      map_snd_positionedAll path (i + 1) ps, ← map_snd_positioned (path ++ [p.key]) p]
    rfl

end

mutual

/-- The packs that are listed are those that stand at positions. -/
theorem mem_positionedFrom (path : List String) (position : List Nat) (node : PackNode) :
    ∀ p : Pack, (position, node) ∈ p.positioned path ↔ p.nodeFrom? path position = some node
  | ⟨name, aliasName, metadata, source, dependencies⟩ => by
    rw [positioned_eq, List.mem_cons, mem_positionedAll path 0 position node dependencies]
    cases position with
    | nil => simp [eq_comm]
    | cons k rest => simp [nodeFrom?_cons_eq_some]

theorem mem_positionedAll (path : List String) (i : Nat) (position : List Nat) (node : PackNode) :
    ∀ ps : List Pack, (position, node) ∈ positioned.positionedAll path i ps ↔
      ∃ k rest d, position = (i + k) :: rest ∧ ps[k]? = some d ∧
        d.nodeFrom? (path ++ [d.key]) rest = some node
  | [] => by simp [positioned.positionedAll]
  | p :: ps => by
    rw [positioned.positionedAll, List.mem_append,
      mem_positionedAll path (i + 1) position node ps, List.mem_map]
    constructor
    · rintro (⟨⟨rest, n⟩, hmem, heq⟩ | ⟨k, rest, d, rfl, hd, hnode⟩)
      · cases heq
        exact ⟨0, rest, p, rfl, rfl, (mem_positionedFrom (path ++ [p.key]) rest n p).1 hmem⟩
      · exact ⟨k + 1, rest, d, by rw [Nat.add_right_comm, Nat.add_assoc], hd, hnode⟩
    · rintro ⟨k, rest, d, rfl, hd, hnode⟩
      cases k with
      | zero =>
        cases hd
        left
        exact ⟨(rest, node), (mem_positionedFrom (path ++ [p.key]) rest node p).2 hnode, rfl⟩
      | succ k =>
        right
        exact ⟨k, rest, d, by rw [Nat.add_right_comm, Nat.add_assoc], hd, hnode⟩

end

mutual

theorem pairwise_positionedFrom (path : List String) :
    ∀ p : Pack, ((p.positioned path).map Prod.fst).Pairwise (· < ·)
  | ⟨name, aliasName, metadata, source, dependencies⟩ => by
    rw [positioned_eq, List.map_cons, List.pairwise_cons]
    constructor
    · -- The positions below the root are not empty.
      intro position hposition
      rcases List.mem_map.1 hposition with ⟨⟨position, node⟩, hmem, rfl⟩
      rcases (mem_positionedAll path 0 position node dependencies).1 hmem with
        ⟨k, rest, d, rfl, -⟩
      exact List.nil_lt_cons _ _
    · exact pairwise_positionedAll path 0 dependencies

theorem pairwise_positionedAll (path : List String) (i : Nat) :
    ∀ ps : List Pack, ((positioned.positionedAll path i ps).map Prod.fst).Pairwise (· < ·)
  | [] => List.Pairwise.nil
  | p :: ps => by
    rw [positioned.positionedAll, List.map_append, List.map_map, List.pairwise_append]
    refine ⟨?_, pairwise_positionedAll path (i + 1) ps, ?_⟩
    · have hbelow := pairwise_positionedFrom (path ++ [p.key]) p
      rw [List.pairwise_map] at hbelow ⊢
      exact hbelow.imp fun hlt => List.cons_lt_cons_iff.2 (.inr ⟨rfl, hlt⟩)
    · -- The numbers of later dependencies are greater.
      intro front hfront back hback
      rcases List.mem_map.1 hfront with ⟨⟨below, -⟩, -, rfl⟩
      rcases List.mem_map.1 hback with ⟨⟨position, node⟩, hmem, rfl⟩
      rcases (mem_positionedAll path (i + 1) position node ps).1 hmem with ⟨k, rest, d, rfl, -⟩
      exact List.cons_lt_cons_iff.2 (.inl (by omega))

end

/-- A walk lists the nodes of a tree in the order of their positions. -/
theorem map_snd_positioned_walk (p : Pack) : (p.positioned [p.name]).map Prod.snd = p.walk :=
  map_snd_positioned [p.name] p

theorem mem_positioned :
    (position, node) ∈ p.positioned [p.name] ↔ p.nodeAt? position = some node :=
  mem_positionedFrom [p.name] position node p

theorem pairwise_positioned (p : Pack) :
    ((p.positioned [p.name]).map Prod.fst).Pairwise (· < ·) :=
  pairwise_positionedFrom [p.name] p

/-! ## Keys of dependencies -/

/-- Whether the dependencies of every pack in a tree have different keys. -/
inductive Keyed : Pack → Prop where
  | intro {p : Pack} (keys : (p.dependencies.map key).Nodup)
      (each : ∀ d ∈ p.dependencies, Keyed d) : Keyed p

theorem Keyed.keys (h : p.Keyed) : (p.dependencies.map key).Nodup := by
  cases h
  assumption

theorem Keyed.each (h : p.Keyed) : ∀ d ∈ p.dependencies, Keyed d := by
  cases h
  assumption

theorem addDependency_fresh (h : p.addDependency child = .ok q) :
    child.key ∉ p.dependencies.map key := by
  unfold addDependency at h
  split at h
  · cases h
  · split at h
    · cases h
    · next hnone =>
      intro hmem
      rcases List.mem_map.1 hmem with ⟨d, hd, hkey⟩
      rw [Option.not_isSome_iff_eq_none, dependency?, List.find?_eq_none] at hnone
      exact hnone d hd (by simpa using hkey)

theorem Made.keyed (h : p.Made) : p.Keyed := by
  induction h with
  | ofName h =>
    rcases ofName_eq_ok h with ⟨-, rfl⟩
    exact .intro List.nodup_nil (by simp)
  | withAlias _ h ih =>
    rcases withAlias_eq_ok h with ⟨-, rfl⟩
    exact .intro ih.keys ih.each
  | withMetadata _ metadata ih => exact .intro ih.keys ih.each
  | withVariables _ source ih => exact .intro ih.keys ih.each
  -- The only step that adds a key, and it refuses one that is there.
  | addDependency _ _ h ih ihchild =>
    have hfresh := addDependency_fresh h
    rw [addDependency_eq_ok h]
    constructor
    · rw [List.map_append, List.map_singleton]
      refine List.nodup_append.2 ⟨ih.keys, List.nodup_singleton _, ?_⟩
      intro old hold new hnew heq
      rw [List.mem_singleton.1 hnew] at heq
      exact hfresh (heq ▸ hold)
    · intro d hd
      rcases List.mem_append.1 hd with hold | hnew
      · exact ih.each d hold
      · rw [List.mem_singleton.1 hnew]
        exact ihchild

/-- What an attempt to add a dependency leaves; if the dependency is refused, that is the pack as it
was. -/
def tryDependency (p child : Pack) : Pack := (p.addDependency child).toOption.getD p

/-- Failed additions make no other trees. -/
theorem Made.tryDependency (hp : p.Made) (hchild : child.Made) : (p.tryDependency child).Made := by
  unfold Pack.tryDependency
  cases h : p.addDependency child with
  | error e => exact hp
  | ok q => exact hp.addDependency hchild h

/-! ## Paths -/

/-- The path at a position goes on from that of the pack above with one name for each number. -/
theorem exists_path_of_nodeFrom? (h : p.nodeFrom? path position = some node) :
    ∃ names, node.path = path ++ names ∧ names.length = position.length := by
  induction position generalizing path p with
  | nil =>
    cases h
    exact ⟨[], (List.append_nil path).symm, rfl⟩
  | cons k rest ih =>
    rcases nodeFrom?_cons_eq_some.1 h with ⟨d, -, hd⟩
    rcases ih hd with ⟨names, hpath, hlength⟩
    refine ⟨d.key :: names, ?_, ?_⟩
    · rw [hpath, List.append_assoc, List.singleton_append]
    · rw [List.length_cons, List.length_cons, hlength]

/-- The last name of a path is the key of the pack, but for the root. -/
theorem getLast?_path (h : p.nodeFrom? path position = some node) (hne : position ≠ []) :
    node.path.getLast? = some node.pack.key := by
  induction position generalizing path p with
  | nil => exact absurd rfl hne
  | cons k rest ih =>
    rcases nodeFrom?_cons_eq_some.1 h with ⟨d, -, hd⟩
    cases rest with
    | nil =>
      cases hd
      exact List.getLast?_concat
    | cons l rest => exact ih hd (List.cons_ne_nil _ _)

theorem nodeFrom?_path_inj (hp : p.Keyed) (hm : p.nodeFrom? path i = some m)
    (hn : p.nodeFrom? path j = some n) (h : m.path = n.path) : i = j := by
  -- Down the first position; where it ends, the equal paths leave no names for the other one.
  induction i generalizing path p j with
  | nil =>
    cases hm
    rcases exists_path_of_nodeFrom? hn with ⟨names, hpath, hlength⟩
    have hnames : names = [] := List.self_eq_append_right.1 (h.trans hpath)
    rw [hnames] at hlength
    exact (List.length_eq_zero_iff.1 hlength.symm).symm
  | cons a i ih =>
    rcases nodeFrom?_cons_eq_some.1 hm with ⟨d, hd, hm⟩
    rcases exists_path_of_nodeFrom? hm with ⟨names, hpath, -⟩
    rw [List.append_assoc] at hpath
    cases j with
    | nil =>
      cases hn
      have hnil := List.self_eq_append_right.1 (h.symm.trans hpath)
      cases hnil
    | cons b j =>
      rcases nodeFrom?_cons_eq_some.1 hn with ⟨e, he, hn⟩
      rcases exists_path_of_nodeFrom? hn with ⟨others, hpath', -⟩
      rw [List.append_assoc] at hpath'
      -- Both paths go on with the key of a dependency, so it is the same dependency.
      have hkeys : d.key = e.key := by
        have htails := List.append_cancel_left (hpath.symm.trans (h.trans hpath'))
        exact (List.cons.inj htails).1
      have hab : a = b := by
        have hlt : a < (p.dependencies.map key).length := by
          rw [List.length_map]
          exact (List.getElem?_eq_some_iff.1 hd).1
        refine (List.getElem?_inj hlt hp.keys).1 ?_
        rw [List.getElem?_map, List.getElem?_map, hd, he, Option.map_some, Option.map_some, hkeys]
      subst hab
      have hde : d = e := Option.some.inj (hd.symm.trans he)
      subst hde
      rw [ih (hp.each d (List.mem_of_getElem? hd)) hm hn]

/-- The path of a pack tells its position. -/
theorem path_inj (hp : p.Made) (hm : p.nodeAt? i = some m) (hn : p.nodeAt? j = some n)
    (h : m.path = n.path) : i = j := nodeFrom?_path_inj hp.keyed hm hn h

theorem nodeAt?_addressable (hp : p.Made) (h : p.nodeAt? position = some node) :
    Addressable node.path := by
  have hlisted : node ∈ p.walk := by
    rw [← map_snd_positioned_walk]
    exact List.mem_map_of_mem (mem_positioned.2 h)
  exact walk_addressable hp node hlisted

end Overlay.Pack
