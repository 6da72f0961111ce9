import Overlay.Proofs.Dict
import Overlay.Proofs.Package.Position
import Overlay.Proofs.Text.Dots
import Overlay.Resolution.Configuration

/-!
# Package IDs of trees

The configuration of a tree is refused if two packs have one ID.

* `distinguished_hierarchical`: dotted paths tell the packs of a tree apart, since their names have
  no dots in them.
* `ofPack_eq_ok_iff` and `ofPack_eq_error_iff`: a tree is refused for the first ID that repeats, if
  there is one.
* `ofPack_declares`: the declarations are those of the packs, each under the ID of its pack.
-/

namespace Overlay

namespace Pack

/-! ## IDs at positions -/

/-- The ID of the pack at a position. -/
def idAt? (p : Pack) (scheme : Scheme) (position : List Nat) : Option PackageId :=
  (p.nodeAt? position).map fun node => scheme.packageId node.path

/-- Whether no two packs of a tree have one ID. -/
def Distinguished (p : Pack) (scheme : Scheme) : Prop :=
  ∀ i j id, p.idAt? scheme i = some id → p.idAt? scheme j = some id → i = j

/-- Whether the pack at a position has the ID given, and so has an earlier one. -/
def Repeats (p : Pack) (scheme : Scheme) (position : List Nat) (id : PackageId) : Prop :=
  p.idAt? scheme position = some id ∧ ∃ earlier < position, p.idAt? scheme earlier = some id

/-- Whether an ID is the first one that repeats in depth-first order, which is the order of the
positions: a pack stands before its dependencies. -/
def FirstRepeated (p : Pack) (scheme : Scheme) (id : PackageId) : Prop :=
  ∃ position, p.Repeats scheme position id ∧
    ∀ earlier < position, ∀ other, ¬p.Repeats scheme earlier other

variable {p : Pack} {scheme : Scheme} {id other : PackageId} {i j position : List Nat}
  {node : PackNode}

theorem FirstRepeated.unique (h : p.FirstRepeated scheme id) (h' : p.FirstRepeated scheme other) :
    id = other := by
  obtain ⟨i, hi, hfirst⟩ := h
  obtain ⟨j, hj, hfirst'⟩ := h'
  rcases lt_trichotomy i j with hlt | rfl | hlt
  · exact absurd hi (hfirst' i hlt id)
  · exact Option.some.inj (hi.1.symm.trans hj.1)
  · exact absurd hj (hfirst j hlt other)

theorem FirstRepeated.not_distinguished (h : p.FirstRepeated scheme id) :
    ¬p.Distinguished scheme := by
  obtain ⟨position, ⟨hid, earlier, hlt, hearlier⟩, -⟩ := h
  exact fun hdist => hlt.ne (hdist earlier position id hearlier hid)

/-- Different packs of a tree have different dotted paths. -/
theorem distinguished_hierarchical (hp : p.Made) : p.Distinguished .hierarchical := by
  intro i j id hi hj
  rcases Option.map_eq_some_iff.1 hi with ⟨m, hm, rfl⟩
  rcases Option.map_eq_some_iff.1 hj with ⟨n, hn, hid⟩
  have hnames : ∀ {position node}, p.nodeAt? position = some node →
      node.path ≠ [] ∧ ∀ name ∈ node.path, '.' ∉ name.toList := by
    intro position node hnode
    have hpath := nodeAt?_addressable hp hnode
    exact ⟨hpath.1, fun name hname => dot_not_mem_of_isIdentifier (hpath.2 name hname)⟩
  -- No name has a dot in it, so the ID tells the path, and the path tells the position.
  have htext : Text.joinDots m.path = Text.joinDots n.path := congrArg PackageId.text hid.symm
  exact path_inj hp hm hn (Text.joinDots_inj (hnames hm) (hnames hn) htext)

/-- In the flat scheme the ID of the root is its name, and that of any other pack is its key. -/
theorem packageId_flat (h : p.nodeAt? position = some node) :
    Scheme.flat.packageId node.path = ⟨if position = [] then p.name else node.pack.key⟩ := by
  by_cases hroot : position = []
  · subst hroot
    cases h
    rfl
  · rw [if_neg hroot, Scheme.packageId, getLast?_path h hroot, Option.getD_some]

/-! ## IDs in the order of a walk -/

theorem map_packageId_walk (p : Pack) (scheme : Scheme) :
    (p.walk.map fun node => scheme.packageId node.path) =
      (p.positioned [p.name]).map fun x => scheme.packageId x.2.path := by
  rw [← map_snd_positioned_walk, List.map_map]
  rfl

theorem idAt?_eq_some : p.idAt? scheme position = some id ↔
    ∃ x ∈ p.positioned [p.name], x.1 = position ∧ scheme.packageId x.2.path = id := by
  constructor
  · intro h
    rcases Option.map_eq_some_iff.1 h with ⟨node, hnode, hid⟩
    exact ⟨(position, node), mem_positioned.2 hnode, rfl, hid⟩
  · rintro ⟨⟨position, node⟩, hmem, rfl, rfl⟩
    rw [idAt?, mem_positioned.1 hmem, Option.map_some]

theorem distinguished_iff :
    p.Distinguished scheme ↔ (p.walk.map fun node => scheme.packageId node.path).Nodup := by
  have hnodup : (p.positioned [p.name]).Nodup :=
    List.Nodup.of_map Prod.fst ((pairwise_positioned p).imp ne_of_lt)
  rw [map_packageId_walk, List.nodup_map_iff_inj_on hnodup]
  constructor
  · rintro h ⟨i, m⟩ hm ⟨j, n⟩ hn hid
    have hi : p.idAt? scheme i = some (scheme.packageId n.path) :=
      idAt?_eq_some.2 ⟨(i, m), hm, rfl, hid⟩
    have hj : p.idAt? scheme j = some (scheme.packageId n.path) :=
      idAt?_eq_some.2 ⟨(j, n), hn, rfl, rfl⟩
    have hij : i = j := h i j _ hi hj
    subst hij
    have hmn : m = n := Option.some.inj ((mem_positioned.1 hm).symm.trans (mem_positioned.1 hn))
    rw [hmn]
  · intro h i j id hi hj
    rcases idAt?_eq_some.1 hi with ⟨x, hx, rfl, hxid⟩
    rcases idAt?_eq_some.1 hj with ⟨y, hy, rfl, hyid⟩
    rw [h x hx y hy (hxid.trans hyid.symm)]

end Pack

namespace Configuration

variable {p : Pack} {scheme : Scheme} {id : PackageId} {ids seen : List PackageId}
  {c : Configuration} {e : Error}

theorem firstRepeated?_eq_none :
    firstRepeated? seen ids = none ↔ ids.Nodup ∧ ∀ id ∈ ids, id ∉ seen := by
  induction ids generalizing seen with
  | nil => simp [firstRepeated?]
  | cons id rest ih =>
    rw [firstRepeated?, List.nodup_cons, List.forall_mem_cons]
    split_ifs with hseen
    · simp [hseen]
    · rw [ih]
      constructor
      · rintro ⟨hnodup, hrest⟩
        refine ⟨⟨fun hmem => hrest id hmem List.mem_cons_self, hnodup⟩, hseen, ?_⟩
        exact fun other hother hold => hrest other hother (List.mem_cons_of_mem _ hold)
      · rintro ⟨⟨hnew, hnodup⟩, -, hrest⟩
        refine ⟨hnodup, ?_⟩
        intro other hother hold
        rcases List.mem_cons.1 hold with rfl | hold
        · exact hnew hother
        · exact hrest other hother hold

/-- What repeats first is seen already or stands behind itself, and nothing repeats in front of
it. -/
theorem exists_of_firstRepeated? (h : firstRepeated? seen ids = some id) :
    ∃ front back, ids = front ++ id :: back ∧ firstRepeated? seen front = none ∧
      (id ∈ front ∨ id ∈ seen) := by
  induction ids generalizing seen with
  | nil => cases h
  | cons first rest ih =>
    rw [firstRepeated?] at h
    split_ifs at h with hseen
    · cases h
      exact ⟨[], rest, rfl, rfl, .inr hseen⟩
    · rcases ih h with ⟨front, back, rfl, hfront, hid⟩
      refine ⟨first :: front, back, rfl, ?_, ?_⟩
      · rw [firstRepeated?, if_neg hseen]
        exact hfront
      · rcases hid with hid | hid
        · exact .inl (List.mem_cons_of_mem _ hid)
        · rcases List.mem_cons.1 hid with rfl | hid
          · exact .inl List.mem_cons_self
          · exact .inr hid

theorem firstRepeated_of_firstRepeated?
    (h : firstRepeated? [] (p.walk.map fun node => scheme.packageId node.path) = some id) :
    p.FirstRepeated scheme id := by
  rcases exists_of_firstRepeated? h with ⟨ids, back, hids, hnone, hid⟩
  rw [Pack.map_packageId_walk] at hids
  -- The pack `x` has the ID that repeats, and the walk is cut there.
  rcases List.map_eq_append_iff.1 hids with ⟨front, rest, hlist, rfl, hrest⟩
  rcases List.map_eq_cons_iff.1 hrest with ⟨x, behind, rfl, rfl, -⟩
  have hascending := Pack.pairwise_positioned p
  rw [hlist, List.pairwise_map, List.pairwise_append, List.pairwise_cons] at hascending
  obtain ⟨-, ⟨hbehind, -⟩, hfront⟩ := hascending
  have hnodup := (firstRepeated?_eq_none.1 hnone).1
  -- Every position in front of that of `x` is listed in front of it.
  have hearlier : ∀ {position other}, p.idAt? scheme position = some other → position < x.1 →
      ∃ y ∈ front, y.1 = position ∧ scheme.packageId y.2.path = other := by
    intro position other hother hlt
    rcases Pack.idAt?_eq_some.1 hother with ⟨y, hy, rfl, hyid⟩
    rw [hlist] at hy
    rcases List.mem_append.1 hy with hy | hy
    · exact ⟨y, hy, rfl, hyid⟩
    · rcases List.mem_cons.1 hy with rfl | hy
      · exact absurd hlt (lt_irrefl _)
      · exact absurd hlt (hbehind y hy).not_gt
  refine ⟨x.1, ⟨?_, ?_⟩, ?_⟩
  · exact Pack.idAt?_eq_some.2 ⟨x, hlist ▸ by simp, rfl, rfl⟩
  · rcases hid with hid | hid
    · rcases List.mem_map.1 hid with ⟨y, hy, hyid⟩
      exact ⟨y.1, hfront y hy x List.mem_cons_self,
        Pack.idAt?_eq_some.2 ⟨y, hlist ▸ List.mem_append_left _ hy, rfl, hyid⟩⟩
    · cases hid
  · -- No two IDs in front of that of `x` are the same.
    rintro k hk other ⟨hkid, i, hik, hiid⟩
    rcases hearlier hkid hk with ⟨y, hy, rfl, hyid⟩
    rcases hearlier hiid (hik.trans hk) with ⟨z, hz, rfl, hzid⟩
    have hzy : z = y := List.inj_on_of_nodup_map hnodup hz hy (hzid.trans hyid.symm)
    exact absurd (hzy ▸ hik) (lt_irrefl _)

/-! ## Configurations -/

/-- The declarations of a tree, under the IDs of its packs. -/
def sources (p : Pack) (scheme : Scheme) : List (String × SourceFile) :=
  p.walk.filterMap fun node => node.pack.source.map ((scheme.packageId node.path).text, ·)

theorem ofPack_cases (p : Pack) (scheme : Scheme) :
    (∃ id, p.FirstRepeated scheme id ∧ ofPack p scheme = .error (.ambiguousPackage id)) ∨
      (p.walk.map fun node => scheme.packageId node.path).Nodup ∧
        ofPack p scheme =
          .ok { root := ⟨p.name⟩, scheme, declarations := .ofPairs (sources p scheme) } := by
  unfold ofPack
  dsimp only
  cases h : firstRepeated? [] (p.walk.map fun node => scheme.packageId node.path) with
  | some id => exact .inl ⟨id, firstRepeated_of_firstRepeated? h, rfl⟩
  | none => exact .inr ⟨(firstRepeated?_eq_none.1 h).1, rfl⟩

theorem ofPack_eq_ok (h : ofPack p scheme = .ok c) :
    (p.walk.map fun node => scheme.packageId node.path).Nodup ∧
      c = { root := ⟨p.name⟩, scheme, declarations := .ofPairs (sources p scheme) } := by
  rcases ofPack_cases p scheme with ⟨id, -, herror⟩ | ⟨hnodup, hok⟩
  · rw [herror] at h
    cases h
  · exact ⟨hnodup, (Except.ok.inj (hok.symm.trans h)).symm⟩

theorem exists_ofPack_iff : (∃ c, ofPack p scheme = .ok c) ↔ p.Distinguished scheme := by
  constructor
  · rintro ⟨c, hc⟩
    exact Pack.distinguished_iff.2 (ofPack_eq_ok hc).1
  · intro hdist
    rcases ofPack_cases p scheme with ⟨id, hrepeated, -⟩ | ⟨-, hok⟩
    · exact absurd hdist hrepeated.not_distinguished
    · exact ⟨_, hok⟩

/-- A tree is refused for the first ID that repeats. -/
theorem ofPack_eq_error_iff :
    ofPack p scheme = .error e ↔ ∃ id, p.FirstRepeated scheme id ∧ e = .ambiguousPackage id := by
  constructor
  · intro h
    rcases ofPack_cases p scheme with ⟨id, hrepeated, herror⟩ | ⟨-, hok⟩
    · exact ⟨id, hrepeated, Except.error.inj (h.symm.trans herror)⟩
    · rw [hok] at h
      cases h
  · rintro ⟨id, hrepeated, rfl⟩
    rcases ofPack_cases p scheme with ⟨other, hother, herror⟩ | ⟨hdist, -⟩
    · rw [hrepeated.unique hother, herror]
    · exact absurd (Pack.distinguished_iff.2 hdist) hrepeated.not_distinguished

/-- Whether declarations are those of a tree: one entry for each pack that declares variables, under
the ID of that pack. -/
structure Declares (p : Pack) (scheme : Scheme) (declarations : Dict SourceFile) : Prop where
  /-- No two entries have one key. -/
  ascending : declarations.Ascending
  /-- No two packs have one ID. -/
  distinguished : p.Distinguished scheme
  mem : ∀ key source, (key, source) ∈ declarations ↔
    ∃ position node, p.nodeAt? position = some node ∧ node.pack.source = some source ∧
      key = (scheme.packageId node.path).text

theorem mem_sources {key : String} {source : SourceFile} :
    (key, source) ∈ sources p scheme ↔
      ∃ position node, p.nodeAt? position = some node ∧ node.pack.source = some source ∧
        key = (scheme.packageId node.path).text := by
  unfold sources
  rw [← Pack.map_snd_positioned_walk, List.mem_filterMap]
  constructor
  · rintro ⟨node, hnode, hsource⟩
    rcases List.mem_map.1 hnode with ⟨⟨position, node⟩, hmem, rfl⟩
    rcases Option.map_eq_some_iff.1 hsource with ⟨s, hs, heq⟩
    cases heq
    exact ⟨position, node, Pack.mem_positioned.1 hmem, hs, rfl⟩
  · rintro ⟨position, node, hnode, hsource, rfl⟩
    refine ⟨node, List.mem_map_of_mem (Pack.mem_positioned.2 hnode), ?_⟩
    rw [hsource, Option.map_some]

theorem nodup_keys_sources (h : (p.walk.map fun node => scheme.packageId node.path).Nodup) :
    (Dict.keys (sources p scheme)).Nodup := by
  unfold sources Dict.keys
  rw [List.Nodup, List.pairwise_map, List.pairwise_filterMap]
  refine (List.pairwise_map.1 h).imp ?_
  intro m n hne entry hentry other hother
  rcases Option.map_eq_some_iff.1 hentry with ⟨-, -, rfl⟩
  rcases Option.map_eq_some_iff.1 hother with ⟨-, -, rfl⟩
  exact fun htext => hne (congrArg PackageId.mk htext)

theorem ofPack_declares (h : ofPack p scheme = .ok c) : Declares p scheme c.declarations := by
  rcases ofPack_eq_ok h with ⟨hnodup, rfl⟩
  have hperm := Dict.perm_ofPairs (sources p scheme)
  -- The IDs differ, so no declarations replace those of another pack.
  rw [Dict.latest_of_nodup (nodup_keys_sources hnodup)] at hperm
  refine ⟨Dict.ascending_ofPairs _, Pack.distinguished_iff.2 hnodup, ?_⟩
  intro key source
  rw [hperm.mem_iff]
  exact mem_sources

/-- Package IDs in a tree that is made by the functions on packs, failed additions included
(`Pack.Made.tryDependency`). Dotted paths are unambiguous, so the hierarchical scheme takes every
tree; the flat scheme, where an ID is a name or a key, refuses a tree for the first ID that
repeats. A tree that is taken declares the variables of each of its packs under the ID of that
pack. -/
theorem ofPack_unambiguous (hp : p.Made) :
    (p.Distinguished .hierarchical ∧ ∃ c, ofPack p .hierarchical = .ok c) ∧
      (∀ position node, p.nodeAt? position = some node →
        Scheme.flat.packageId node.path =
          ⟨if position = [] then p.name else node.pack.key⟩) ∧
      ((∃ c, ofPack p .flat = .ok c) ↔ p.Distinguished .flat) ∧
      (∀ e, ofPack p .flat = .error e ↔
        ∃ id, p.FirstRepeated .flat id ∧ e = .ambiguousPackage id) ∧
      ∀ scheme c, ofPack p scheme = .ok c → Declares p scheme c.declarations := by
  have hdotted : p.Distinguished .hierarchical := Pack.distinguished_hierarchical hp
  refine ⟨⟨hdotted, exists_ofPack_iff.2 hdotted⟩, ?_, exists_ofPack_iff, ?_, ?_⟩
  · intro position node hnode
    exact Pack.packageId_flat hnode
  · intro e
    exact ofPack_eq_error_iff
  · intro scheme c hc
    exact ofPack_declares hc

/-- A pack that depends on another one, and once more through a third one. -/
def sharedPack : Pack :=
  ⟨"web", none, {}, none,
    [⟨"redis", none, {}, some ⟨"a.hcl", ""⟩, []⟩,
      ⟨"api", none, {}, none, [⟨"cache", some "redis", {}, some ⟨"b.hcl", ""⟩, []⟩]⟩]⟩

theorem sharedPack_made : sharedPack.Made := by
  have hnew : ∀ name, isIdentifier name = true → Pack.Made ⟨name, none, {}, none, []⟩ := by
    intro name hname
    exact .ofName (by rw [Pack.ofName, Pack.checkName, if_pos hname]; rfl)
  have hredis := (hnew "redis" (by decide)).withVariables ⟨"a.hcl", ""⟩
  have halias : Pack.withAlias ⟨"cache", none, {}, none, []⟩ "redis" =
      .ok ⟨"cache", some "redis", {}, none, []⟩ := rfl
  have hcache := Pack.Made.withAlias (hnew "cache" (by decide)) halias
  have hapi : Pack.Made ⟨"api", none, {}, none, [_]⟩ :=
    .addDependency (hnew "api" (by decide)) (hcache.withVariables ⟨"b.hcl", ""⟩) rfl
  have hweb : Pack.Made ⟨"web", none, {}, none, [_]⟩ :=
    .addDependency (hnew "web" (by decide)) hredis rfl
  exact .addDependency hweb hapi rfl

theorem ofPack_unambiguous_shared :
    sharedPack.Made ∧ ofPack sharedPack .flat = .error (.ambiguousPackage ⟨"redis"⟩) ∧
      sharedPack.FirstRepeated .flat ⟨"redis"⟩ ∧
      ∃ c, ofPack sharedPack .hierarchical = .ok c ∧
        c.declarations = [("web.api.redis", ⟨"b.hcl", ""⟩), ("web.redis", ⟨"a.hcl", ""⟩)] ∧
        Declares sharedPack .hierarchical c.declarations := by
  have hmade := sharedPack_made
  have herror : ofPack sharedPack .flat = .error (.ambiguousPackage ⟨"redis"⟩) := rfl
  obtain ⟨⟨-, c, hc⟩, -, -, hrefused, hdeclares⟩ := ofPack_unambiguous hmade
  obtain ⟨id, hrepeated, hid⟩ := (hrefused _).1 herror
  cases hid
  refine ⟨hmade, herror, hrepeated, c, hc, ?_, hdeclares _ _ hc⟩
  have hdict : (ofPack sharedPack .hierarchical).toOption.map Configuration.declarations =
      some [("web.api.redis", ⟨"b.hcl", ""⟩), ("web.redis", ⟨"a.hcl", ""⟩)] := by decide +kernel
  rw [hc] at hdict
  exact Option.some.inj hdict

end Configuration

end Overlay
