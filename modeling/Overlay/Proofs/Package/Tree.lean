import Overlay.Package.Pack

/-!
# Packs that are made step by step

* `Pack.Made`: the trees that come from packs with a name alone by the functions on packs.
* `walk_addressable`: every path in such a tree is made of identifiers.
-/

namespace Overlay.Pack

/-- Whether a tree is made by the functions on packs. -/
inductive Made : Pack → Prop where
  | ofName {name : String} {p : Pack} (h : ofName name = .ok p) : Made p
  | withAlias {p q : Pack} {aliasName : String} (hp : Made p)
      (h : p.withAlias aliasName = .ok q) : Made q
  | withMetadata {p : Pack} (hp : Made p) (metadata : Metadata) : Made (p.withMetadata metadata)
  | withVariables {p : Pack} (hp : Made p) (source : SourceFile) : Made (p.withVariables source)
  | addDependency {p child q : Pack} (hp : Made p) (hchild : Made child)
      (h : p.addDependency child = .ok q) : Made q

/-- Whether a path is that of a pack: there are names, and all are identifiers. -/
def Addressable (path : List String) : Prop := path ≠ [] ∧ ∀ s ∈ path, isIdentifier s = true

theorem addressable_concat {path : List String} {name : String} (hpath : Addressable path)
    (hname : isIdentifier name = true) : Addressable (path ++ [name]) := by
  refine ⟨by simp, ?_⟩
  intro s hs
  rcases List.mem_append.1 hs with hold | hnew
  · exact hpath.2 s hold
  · rw [List.mem_singleton.1 hnew]
    exact hname

/-! ## Walks -/

variable {p q child : Pack} {path : List String} {node : PackNode} {name : String}

theorem walkFrom_eq (path : List String) (p : Pack) :
    p.walkFrom path = ⟨path, p⟩ :: walkFrom.walkAll path p.dependencies := by
  cases p
  rfl

theorem walkAll_concat (path : List String) (ps : List Pack) (child : Pack) :
    walkFrom.walkAll path (ps ++ [child]) =
      walkFrom.walkAll path ps ++ child.walkFrom (path ++ [child.key]) := by
  induction ps with
  | nil => simp [walkFrom.walkAll]
  | cons p ps ih => simp [walkFrom.walkAll, ih]

/-! ## What the functions on packs make -/

theorem checkName_eq_ok {u : Unit} (h : checkName name = .ok u) : isIdentifier name = true := by
  unfold checkName at h
  split at h
  · assumption
  · cases h

theorem ofName_eq_ok (h : ofName name = .ok p) :
    isIdentifier name = true ∧ p = ⟨name, none, {}, none, []⟩ := by
  unfold ofName at h
  cases hname : checkName name with
  | error e => simp [hname, bind, Except.bind] at h
  | ok u =>
    simp only [hname, bind, Except.bind, pure, Except.pure, Except.ok.injEq] at h
    exact ⟨checkName_eq_ok hname, h.symm⟩

theorem withAlias_eq_ok (h : p.withAlias name = .ok q) :
    isIdentifier name = true ∧ q = { p with aliasName := some name } := by
  unfold withAlias at h
  cases hname : checkName name with
  | error e => simp [hname, bind, Except.bind] at h
  | ok u =>
    simp only [hname, bind, Except.bind, pure, Except.pure, Except.ok.injEq] at h
    exact ⟨checkName_eq_ok hname, h.symm⟩

theorem addDependency_eq_ok (h : p.addDependency child = .ok q) :
    q = { p with dependencies := p.dependencies ++ [child] } := by
  unfold addDependency at h
  split at h
  · cases h
  · split at h
    · cases h
    · exact (Except.ok.inj h).symm

/-- Whether the names in a tree are identifiers: its own, its key, and those on the paths below. -/
structure WellNamed (p : Pack) : Prop where
  name : isIdentifier p.name = true
  key : isIdentifier p.key = true
  below : ∀ path, Addressable path →
    ∀ node ∈ walkFrom.walkAll path p.dependencies, Addressable node.path

theorem WellNamed.walkFrom (h : p.WellNamed) (hpath : Addressable path) :
    ∀ node ∈ p.walkFrom path, Addressable node.path := by
  rw [walkFrom_eq, List.forall_mem_cons]
  exact ⟨hpath, h.below path hpath⟩

theorem Made.wellNamed (h : p.Made) : p.WellNamed := by
  induction h with
  | ofName h =>
    rcases ofName_eq_ok h with ⟨hname, rfl⟩
    refine ⟨hname, hname, ?_⟩
    simp [walkFrom.walkAll]
  | withAlias _ h ih =>
    rcases withAlias_eq_ok h with ⟨hname, rfl⟩
    exact ⟨ih.name, hname, ih.below⟩
  | withMetadata _ metadata ih => exact ⟨ih.name, ih.key, ih.below⟩
  | withVariables _ source ih => exact ⟨ih.name, ih.key, ih.below⟩
  | addDependency _ _ h ih ihchild =>
    rw [addDependency_eq_ok h]
    refine ⟨ih.name, ih.key, ?_⟩
    intro path hpath node hnode
    rw [walkAll_concat] at hnode
    rcases List.mem_append.1 hnode with hold | hnew
    · exact ih.below path hpath node hold
    · exact ihchild.walkFrom (addressable_concat hpath ihchild.key) node hnew

/-- Every path in a tree is made of identifiers. -/
theorem walk_addressable (h : p.Made) : ∀ node ∈ p.walk, Addressable node.path := by
  have hname := h.wellNamed.name
  exact h.wellNamed.walkFrom ⟨by simp, by simpa using hname⟩

end Overlay.Pack
