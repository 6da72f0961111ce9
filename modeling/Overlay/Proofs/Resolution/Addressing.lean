import Overlay.Proofs.Resolution.PackageIds

/-!
# Addresses lead back

* `Scheme.exists_segments`: the address of a variable of a tree is made of names that lead back to
  that variable.
* `Addressing.Recovers` says it of the parts between the dots of the address. So the address tells
  the variable and the package ID, and in a tree that is taken that ID tells the pack
  (`ofPack_addresses`).
-/

namespace Overlay

/-! ## Addresses -/

theorem Scheme.resolveKey_hierarchical (root : PackageId) {first : String} {path : List String}
    (hpath : path ≠ []) (name : String) :
    hierarchical.resolveKey root (first :: (path ++ [name])) =
      .ok ⟨.ofSegments (first :: path), name⟩ := by
  have hlast : (first :: (path ++ [name])).getLast? = some name := by
    rw [← List.cons_append, List.getLast?_concat]
  have hfront : (first :: (path ++ [name])).dropLast = first :: path := by
    rw [← List.cons_append, List.dropLast_concat]
  cases path with
  | nil => exact absurd rfl hpath
  | cons second rest =>
    rw [List.cons_append] at hlast hfront ⊢
    rw [resolveKey, hlast, hfront]
    all_goals simp

/-- The address of a variable of a tree is made of names of its path and its own name, and it leads
back to the variable. -/
theorem Scheme.exists_segments (scheme : Scheme) (root : PackageId) {path : List String}
    (hpath : path ≠ []) (name : String) :
    ∃ first names, scheme.address ⟨scheme.packageId path, name⟩ = Text.joinDots (first :: names) ∧
      scheme.resolveKey root (first :: names) = .ok ⟨scheme.packageId path, name⟩ ∧
        ∀ n ∈ first :: names, n ∈ path ∨ n = name := by
  cases scheme with
  | hierarchical =>
    rcases List.exists_cons_of_ne_nil hpath with ⟨first, rest, rfl⟩
    refine ⟨first, rest ++ [name], ?_, ?_, ?_⟩
    · exact (Text.joinDots_concat hpath name).symm
    · cases rest with
      | nil => rfl
      | cons second rest =>
        exact resolveKey_hierarchical root (List.cons_ne_nil second rest) name
    · intro n hn
      rw [← List.cons_append, List.mem_append, List.mem_singleton] at hn
      exact hn
  -- A flat address keeps only the last segment of the path.
  | flat =>
    cases hlast : path.getLast? with
    | none => exact absurd (List.getLast?_eq_none_iff.1 hlast) hpath
    | some last =>
      refine ⟨last, [name], ?_, ?_, ?_⟩
      · simp [address, packageId, hlast, Text.joinDots]
      · simp [resolveKey, packageId, hlast]
      · intro n hn
        rcases List.mem_cons.1 hn with rfl | hn
        · exact .inl (List.mem_of_getLast? hlast)
        · exact .inr (List.mem_singleton.1 hn)

/-- A name without dots addresses a variable of the root package. -/
theorem Scheme.resolveKey_bare (scheme : Scheme) (root : PackageId) {name : String}
    (hname : isIdentifier name = true) :
    scheme.resolveKey root (Text.splitDots name) = .ok ⟨root, name⟩ := by
  have hsplit : Text.splitDots name = [name] := by
    rw [Text.splitDots, Text.splitAtChar_of_not_mem (dot_not_mem_of_isIdentifier hname),
      List.map_singleton, String.ofList_toList]
  rw [hsplit]
  cases scheme <;> rfl

namespace Addressing

/-- Whether the parts of the address of a variable are identifiers that lead back to it. -/
structure Recovers (a : Addressing) (target : Target) : Prop where
  identifiers : ∀ s ∈ Text.splitDots (a.scheme.address target), isIdentifier s = true
  target : a.scheme.resolveKey a.root (Text.splitDots (a.scheme.address target)) = .ok target

variable {a : Addressing} {t u : Target} {path : List String} {name : String}

theorem recovers_packageId (hpath : Pack.Addressable path) (hname : isIdentifier name = true) :
    a.Recovers ⟨a.scheme.packageId path, name⟩ := by
  rcases a.scheme.exists_segments a.root hpath.1 name with ⟨first, names, haddress, hkey, hnames⟩
  have hidentifiers : ∀ n ∈ first :: names, isIdentifier n = true := by
    intro n hn
    rcases hnames n hn with hn | rfl
    · exact hpath.2 n hn
    · exact hname
  have hsplit : Text.splitDots (a.scheme.address ⟨a.scheme.packageId path, name⟩) =
      first :: names := by
    rw [haddress]
    exact Text.splitDots_joinDots (List.cons_ne_nil _ _) fun n hn =>
      dot_not_mem_of_isIdentifier (hidentifiers n hn)
  constructor
  · rw [hsplit]
    exact hidentifiers
  · rw [hsplit]
    exact hkey

/-- Addresses that lead back tell what they address. -/
theorem Recovers.inj (ht : a.Recovers t) (hu : a.Recovers u)
    (h : a.scheme.address t = a.scheme.address u) : t = u := by
  have hkey := ht.target
  rw [h, hu.target] at hkey
  exact (Except.ok.inj hkey).symm

/-- Whether keys address the variables of the packs of a tree. -/
structure Addresses (a : Addressing) (p : Pack) : Prop where
  /-- Keys are relative to the ID of the root. -/
  root : a.root = a.scheme.packageId [p.name]
  /-- The address of a variable of a pack leads back to the ID of that pack and the variable. -/
  recovers : ∀ {position node name}, p.nodeAt? position = some node → isIdentifier name = true →
    a.Recovers ⟨a.scheme.packageId node.path, name⟩
  /-- Variables of different packs, and different variables of one pack, have different
  addresses. -/
  inj : ∀ {i j m n x y}, p.nodeAt? i = some m → p.nodeAt? j = some n → isIdentifier x = true →
    isIdentifier y = true →
    a.scheme.address ⟨a.scheme.packageId m.path, x⟩ =
      a.scheme.address ⟨a.scheme.packageId n.path, y⟩ → i = j ∧ x = y
  /-- A name alone leads where the address of the variable in the root package does. -/
  bare : ∀ {name}, isIdentifier name = true →
    a.scheme.resolveKey a.root (Text.splitDots name) =
      a.scheme.resolveKey a.root (Text.splitDots (a.scheme.address ⟨a.root, name⟩))

end Addressing

namespace Configuration

variable {p : Pack} {scheme : Scheme} {c : Configuration}

/-- In a tree that is made by the functions on packs and taken by a scheme, the addresses of
variables are made of identifiers, lead back to what they address and tell the pack and the
variable. -/
theorem ofPack_addresses (hp : p.Made) (h : ofPack p scheme = .ok c) :
    c.scheme = scheme ∧ c.addressing.Addresses p := by
  have hdistinguished : p.Distinguished scheme := exists_ofPack_iff.1 ⟨c, h⟩
  rcases ofPack_eq_ok h with ⟨-, rfl⟩
  refine ⟨rfl, ?_⟩
  have hroot : (⟨p.name⟩ : PackageId) = scheme.packageId [p.name] := by
    cases scheme with
    | hierarchical => exact congrArg PackageId.mk String.intercalate_singleton.symm
    | flat => rfl
  have hrecovers : ∀ {position node name}, p.nodeAt? position = some node →
      isIdentifier name = true →
        Addressing.Recovers ⟨⟨p.name⟩, scheme⟩ ⟨scheme.packageId node.path, name⟩ :=
    fun hnode hname => Addressing.recovers_packageId (Pack.nodeAt?_addressable hp hnode) hname
  constructor
  case root => exact hroot
  case recovers => exact hrecovers
  case inj =>
    intro i j m n x y hm hn hx hy haddress
    have htarget := (hrecovers hm hx).inj (hrecovers hn hy) haddress
    -- The package ID tells the pack, since no other pack of the tree has it.
    have hid : p.idAt? scheme i = some (scheme.packageId n.path) := by
      rw [Pack.idAt?, hm, Option.map_some]
      exact congrArg (fun t => some t.package) htarget
    have hother : p.idAt? scheme j = some (scheme.packageId n.path) := by
      rw [Pack.idAt?, hn, Option.map_some]
    exact ⟨hdistinguished i j _ hid hother, congrArg Target.variableName htarget⟩
  case bare =>
    intro name hname
    have hnode : p.nodeAt? [] = some ⟨[p.name], p⟩ := rfl
    have haddress := (hrecovers hnode hname).target
    rw [← hroot] at haddress
    exact (scheme.resolveKey_bare ⟨p.name⟩ hname).trans haddress.symm

theorem ofPack_addresses_shared :
    sharedPack.Made ∧ ∃ c, ofPack sharedPack .hierarchical = .ok c ∧ c.scheme = .hierarchical ∧
      c.addressing.Addresses sharedPack ∧
      c.addressing.Recovers ⟨⟨"web.api.redis"⟩, "port"⟩ := by
  have hpack : ∃ c, ofPack sharedPack .hierarchical = .ok c := ⟨_, rfl⟩
  obtain ⟨c, hc⟩ := hpack
  have h := ofPack_addresses sharedPack_made hc
  have hnode : sharedPack.nodeAt? [1, 0] = some ⟨["web", "api", "redis"], _⟩ := rfl
  have hport : isIdentifier "port" = true := by decide
  have hrecovers := h.2.recovers hnode hport
  have hid : Scheme.hierarchical.packageId ["web", "api", "redis"] = ⟨"web.api.redis"⟩ := by
    decide +kernel
  refine ⟨sharedPack_made, c, hc, h.1, h.2, ?_⟩
  have hscheme : c.addressing.scheme = .hierarchical := h.1
  rwa [hscheme, hid] at hrecovers

end Configuration

end Overlay
