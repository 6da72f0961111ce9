import Overlay.Proofs.Dict
import Overlay.Proofs.Package.Descent
import Overlay.Proofs.Resolution.PackageIds
import Overlay.Template.Context

/-!
# Contexts mirror trees of packs

The context of a tree is built by one walk, listed by a second one, searched by dotted paths and
shown as nested objects. All of these agree on which packs there are and where they stand.

* `dependencies_build`: the dependencies of a context are the contexts of the pack's dependencies.
* `walkFrom_build`, `find?_build` and `descend?_toJson`: walking, searching and descending through
  the document go where the walk and the keys of the tree go.
* `ofPack_mirrors` puts them together for the trees that are made by the functions on packs.
-/

namespace Overlay

/-- The names of a node below the root, with dots between. -/
def PackNode.dotted (node : PackNode) : String := Text.joinDots node.path.tail

/-- What stands under names in a document, one member after the other. -/
def Json.descend? (x : Json) (names : List String) : Option Json := names.foldlM member? x
where
  /-- The member of an object. -/
  member? (x : Json) (name : String) : Option Json :=
    match x with
    | .object members => Dict.find? name members
    | _ => none

namespace Context

open Text (joinDots splitDots)

variable {r : Resolved} {p : Pack} {path names : List String} {node : PackNode}

/-! ## Building -/

/-- The context of a pack at the end of `path`. -/
def ofNode (r : Resolved) (node : PackNode) : Context := (build r node.path node.pack).1

/-- What the context of a pack says about the pack itself. -/
structure Mirrors (r : Resolved) (c : Context) (node : PackNode) : Prop where
  name : c.name = node.pack.key
  values : c.values = (r.nativeVariables (r.scheme.packageId node.path)).1
  metadata : c.metadata = node.pack.metadata.toNative
  keys : c.dependencyKeys = node.pack.dependencies.map Pack.key

theorem buildAll_eq (r : Resolved) (path : List String) (ps : List Pack) :
    (build.buildAll r path ps).1 = ps.map fun d => (d.key, ofNode r ⟨path ++ [d.key], d⟩) := by
  induction ps with
  | nil => rfl
  | cons d ps ih => exact congrArg (List.cons (d.key, ofNode r ⟨path ++ [d.key], d⟩)) ih

theorem dependencies_build (r : Resolved) (path : List String) (p : Pack) :
    (ofNode r ⟨path, p⟩).dependencies =
      p.dependencies.map fun d => (d.key, ofNode r ⟨path ++ [d.key], d⟩) := by
  rw [← buildAll_eq]
  cases p
  rfl

theorem ofNode_mirrors (r : Resolved) (node : PackNode) : Mirrors r (ofNode r node) node := by
  rcases node with ⟨path, p⟩
  have hkeys := congrArg (List.map Prod.fst) (dependencies_build r path p)
  rw [List.map_map] at hkeys
  refine ⟨?_, ?_, ?_, hkeys⟩ <;> cases p <;> rfl

/-! ## Walking -/

/-- A name goes behind a dot, unless it is the first one. -/
theorem childPath_joinDots {key : String} (hnames : ∀ name ∈ names, isIdentifier name = true) :
    childPath (joinDots names) key = joinDots (names ++ [key]) := by
  rcases names with - | ⟨first, rest⟩
  · exact String.intercalate_singleton.symm
  · have hne : joinDots (first :: rest) ≠ "" := by
      intro hempty
      have hsplit := Text.splitDots_joinDots (List.cons_ne_nil first rest) fun name hname =>
        dot_not_mem_of_isIdentifier (hnames name hname)
      rw [hempty] at hsplit
      have hfirst : "" = first := (List.cons.inj hsplit).1
      exact ne_empty_of_isIdentifier (hnames first List.mem_cons_self) hfirst.symm
    rw [childPath, if_neg hne, Text.joinDots_concat (List.cons_ne_nil first rest)]

/-- A node with its dotted path, and its context. -/
def entry (r : Resolved) (node : PackNode) : String × Context := (node.dotted, ofNode r node)

theorem walkFrom_eq (prefixPath : String) (c : Context) :
    c.walkFrom prefixPath = walkFrom.walkAll prefixPath c.dependencies := by
  cases c
  rfl

mutual

/-- The contexts below that of a pack are those of the packs below, in the order of their walk. -/
theorem walkFrom_build (r : Resolved) (root : String) (names : List String)
    (hnames : ∀ name ∈ names, isIdentifier name = true) : ∀ p : Pack, p.Made →
      (ofNode r ⟨root :: names, p⟩).walkFrom (joinDots names) =
        (Pack.walkFrom.walkAll (root :: names) p.dependencies).map (entry r)
  | ⟨name, aliasName, metadata, source, dependencies⟩, hp => by
    have heach := fun d hd => (hp.each d hd).1
    rw [walkFrom_eq, dependencies_build]
    exact walkAll_build r root names hnames dependencies heach

theorem walkAll_build (r : Resolved) (root : String) (names : List String)
    (hnames : ∀ name ∈ names, isIdentifier name = true) : ∀ ps : List Pack, (∀ d ∈ ps, d.Made) →
      walkFrom.walkAll (joinDots names)
          (ps.map fun d => (d.key, ofNode r ⟨root :: names ++ [d.key], d⟩)) =
        (Pack.walkFrom.walkAll (root :: names) ps).map (entry r)
  | [], _ => rfl
  | d :: ps, hps => by
    rcases List.forall_mem_cons.1 hps with ⟨hd, hps⟩
    have hbelow : ∀ name ∈ names ++ [d.key], isIdentifier name = true :=
      List.forall_mem_append.2 ⟨hnames, List.forall_mem_singleton.2 hd.wellNamed.key⟩
    rw [List.map_cons, walkFrom.walkAll, childPath_joinDots hnames,
      walkAll_build r root names hnames ps hps, Pack.walkFrom.walkAll, Pack.walkFrom_eq,
      List.map_append, List.map_cons]
    have hd := walkFrom_build r root (names ++ [d.key]) hbelow d hd
    rw [List.cons_append, hd]
    rfl

end

/-- The contexts below that of a tree are those of the packs below its root. -/
theorem walk_ofPack (hp : p.Made) (r : Resolved) :
    (ofPack r p).1.walk = p.walk.tail.map (entry r) := by
  have hroot := walkFrom_build r p.name [] (fun _ h => absurd h List.not_mem_nil) p hp
  rw [Pack.walk_eq]
  exact hroot

/-! ## Searching -/

theorem dependency?_build (r : Resolved) (path : List String) (p : Pack) (key : String) :
    (ofNode r ⟨path, p⟩).dependency? key =
      (p.dependency? key).map fun d => ofNode r ⟨path ++ [key], d⟩ := by
  have hfind : ∀ ps : List Pack,
      ((ps.map fun d => (d.key, ofNode r ⟨path ++ [d.key], d⟩)).find? fun e => e.1 = key).map
          Prod.snd =
        (ps.find? fun d => d.key = key).map fun d => ofNode r ⟨path ++ [key], d⟩ := by
    intro ps
    induction ps with
    | nil => rfl
    | cons d ps ih =>
      by_cases hkey : d.key = key
      · simp [hkey]
      · simpa [List.find?_cons, hkey] using ih
  rw [dependency?, dependencies_build]
  exact hfind p.dependencies

/-- Keys lead to the context of the pack that they lead to in the tree. -/
theorem foldlM_build (r : Resolved) (path keys : List String) (p : Pack) :
    keys.foldlM dependency? (ofNode r ⟨path, p⟩) =
      (p.descend? keys).map fun q => ofNode r ⟨path ++ keys, q⟩ := by
  induction keys generalizing path p with
  | nil => simp [pure]
  | cons key keys ih =>
    rw [List.foldlM_cons, dependency?_build, Pack.descend?_cons]
    cases p.dependency? key with
    | none => rfl
    | some d =>
      have hrest := ih (path ++ [key]) d
      rw [List.append_assoc, List.singleton_append] at hrest
      exact hrest

theorem find?_build {dotted : String} (h : ∀ key ∈ splitDots dotted, key ≠ "") :
    (ofNode r ⟨path, p⟩).find? dotted =
      (p.descend? (splitDots dotted)).map fun q => ofNode r ⟨path ++ splitDots dotted, q⟩ := by
  have hkept : (splitDots dotted).filter (fun key => key ≠ "") = splitDots dotted :=
    List.filter_eq_self.2 fun key hkey => decide_eq_true (h key hkey)
  rw [find?, hkept, foldlM_build]

/-! ## The document -/

/-- A pack's own entry in the document. -/
def own (c : Context) : Json :=
  .object [("meta", c.metadata.toJson), ("vars", .object (c.values.mapValues NativeValue.toJson))]

/-- The members of the document of a context: the own entry, and one for each dependency. -/
def members (c : Context) : List (String × Json) :=
  (Pack.selfKey, c.own) :: c.dependencies.map fun d => (d.1, d.2.toJson)

theorem toJsonAll_eq (cs : List (String × Context)) :
    toJson.toJsonAll cs = cs.map fun d => (d.1, d.2.toJson) := by
  induction cs with
  | nil => rfl
  | cons c cs ih => rw [toJson.toJsonAll, ih, List.map_cons]

theorem toJson_eq (c : Context) : c.toJson = .object (Dict.ofPairs c.members) := by
  rw [members, ← toJsonAll_eq]
  cases c
  rfl

/-- No entry is under the key of another one. -/
theorem nodup_members (hp : p.Made) : (Dict.keys (ofNode r ⟨path, p⟩).members).Nodup := by
  have hkeys : Dict.keys (ofNode r ⟨path, p⟩).members =
      Pack.selfKey :: p.dependencies.map Pack.key := by
    rw [members, dependencies_build, Dict.keys, List.map_cons, List.map_map, List.map_map]
    rfl
  rw [hkeys, List.nodup_cons]
  refine ⟨?_, hp.keyed.keys⟩
  intro hself
  rcases List.mem_map.1 hself with ⟨d, hd, hkey⟩
  exact (hp.each d hd).2 hkey

theorem perm_members (path : List String) (hp : p.Made) :
    (Dict.ofPairs (ofNode r ⟨path, p⟩).members).Perm (ofNode r ⟨path, p⟩).members := by
  have hlatest := Dict.perm_ofPairs (ofNode r ⟨path, p⟩).members
  rwa [Dict.latest_of_nodup (nodup_members hp)] at hlatest

/-- Keys lead to the document of the pack that they lead to in the tree. -/
theorem descend?_toJson (path : List String) {keys : List String} {q : Pack} (hp : p.Made)
    (h : p.descend? keys = some q) :
    q.Made ∧ (ofNode r ⟨path, p⟩).toJson.descend? keys =
      some (ofNode r ⟨path ++ keys, q⟩).toJson := by
  induction keys generalizing path p with
  | nil =>
    cases Option.some.inj h
    rw [List.append_nil]
    exact ⟨hp, rfl⟩
  | cons key keys ih =>
    rcases Option.bind_eq_some_iff.1 ((Pack.descend?_cons p key keys).symm.trans h) with
      ⟨d, hd, hdescend⟩
    rcases (Pack.dependency?_eq_some hp.keyed.keys).1 hd with ⟨hmem, rfl⟩
    rcases ih (path ++ [d.key]) (hp.each d hmem).1 hdescend with ⟨hq, hrest⟩
    refine ⟨hq, ?_⟩
    -- The member under the key of the dependency is the document of its context.
    have hlisted : (d.key, (ofNode r ⟨path ++ [d.key], d⟩).toJson) ∈
        (ofNode r ⟨path, p⟩).members := by
      rw [members, dependencies_build, List.map_map]
      exact List.mem_cons_of_mem _ (List.mem_map_of_mem hmem)
    have hmember : Json.descend?.member? (ofNode r ⟨path, p⟩).toJson d.key =
        some (ofNode r ⟨path ++ [d.key], d⟩).toJson := by
      rw [toJson_eq]
      exact (Dict.find?_eq_some_iff (Dict.ascending_ofPairs _)).2
        ((perm_members path hp).mem_iff.2 hlisted)
    rw [Json.descend?, List.foldlM_cons, hmember]
    rw [List.append_assoc, List.singleton_append] at hrest
    exact hrest

/-! ## Whole trees -/

/-- A node below the root: its path without the root's name leads to it, and makes its dotted path. -/
theorem mem_tail_walk (hp : p.Made) (h : node ∈ p.walk.tail) :
    node.path.tail ≠ [] ∧ node.path = [p.name] ++ node.path.tail ∧
      p.descend? node.path.tail = some node.pack ∧
        splitDots node.dotted = node.path.tail ∧ ∀ key ∈ node.path.tail, key ≠ "" := by
  have hwalk : node ∈ p.walk := List.mem_of_mem_tail h
  rcases (Pack.mem_walkFrom hp.keyed).1 hwalk with ⟨keys, hpath, hdescend⟩
  have htail : node.path.tail = keys := by
    rw [hpath]
    rfl
  have hkeys : ∀ key ∈ keys, isIdentifier key = true := by
    intro key hkey
    refine (Pack.walk_addressable hp node hwalk).2 key ?_
    rw [hpath]
    exact List.mem_append_right _ hkey
  have hne : keys ≠ [] := by
    rintro rfl
    -- The root's path is listed once, in front of the nodes below.
    have hnodup := Pack.nodup_paths hp
    rw [Pack.walk_eq, List.map_cons, List.nodup_cons] at hnodup
    refine hnodup.1 (List.mem_map.2 ⟨node, ?_, hpath⟩)
    rw [Pack.walk_eq] at h
    exact h
  rw [PackNode.dotted, htail]
  exact ⟨hne, hpath, hdescend,
    Text.splitDots_joinDots hne fun key hkey => dot_not_mem_of_isIdentifier (hkeys key hkey),
    fun key hkey => ne_empty_of_isIdentifier (hkeys key hkey)⟩

/-- A path of keys that leads to a pack below the root is that of a node below the root. -/
theorem mem_tail_walk_of_descend (hp : p.Made) {keys : List String} {q : Pack} (hne : keys ≠ [])
    (h : p.descend? keys = some q) : ⟨p.name :: keys, q⟩ ∈ p.walk.tail := by
  have hwalk : (⟨p.name :: keys, q⟩ : PackNode) ∈ p.walk :=
    (Pack.mem_walkFrom hp.keyed).2 ⟨keys, rfl, h⟩
  rw [Pack.walk_eq] at hwalk ⊢
  rcases List.mem_cons.1 hwalk with hroot | hbelow
  · have hkeys : keys = [] := (List.cons.inj (congrArg PackNode.path hroot)).2
    exact absurd hkeys hne
  · exact hbelow

/-- A variable of the pack that stands in the tree a second time, under an alias. -/
def sharedResolved : Resolved :=
  let declared : Variable :=
    ⟨"size", none, none, .bool true, none, .point "b.hcl" .start⟩
  ⟨⟨"web"⟩, .hierarchical, [("web.api.redis", [("size", declared)]), ("web.redis", [])]⟩

end Context

end Overlay
