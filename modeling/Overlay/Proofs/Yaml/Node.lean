import Mathlib.Tactic.SplitIfs
import Overlay.Proofs.Source.Documents
import Overlay.Yaml.Node

/-!
# Documents of YAML nodes

The document of a node is ordered, as its mappings are made into dictionaries
(`Node.toJson?_ordered`). A scalar is no collection in a document, whatever its tag asks for
(`taggedJson?_isScalar`) or it looks like (`Plain.json?_isScalar`).
-/

namespace Overlay

namespace Json

/-- Whether a document is neither an array nor an object. -/
def IsScalar : Json → Prop
  | array _ | object _ => False
  | _ => True

theorem IsScalar.ordered {x : Json} (h : x.IsScalar) : x.Ordered := by
  cases x <;> trivial

end Json

namespace Yaml

/-! ## Scalars -/

theorem Plain.floatJson_isScalar (x : Numeric.Binary64) : (Plain.floatJson x).IsScalar := by
  unfold Plain.floatJson
  split_ifs <;> trivial

theorem Plain.integerJson?_isScalar {n : Int} {x : Json} (h : Plain.integerJson? n = some x) :
    x.IsScalar := by
  unfold Plain.integerJson? at h
  split_ifs at h
  cases h
  trivial

theorem Plain.json?_isScalar {s : String} {x : Json} (h : Plain.json? s = some x) :
    x.IsScalar := by
  unfold Plain.json? at h
  dsimp only at h
  split at h
  · cases h
    trivial
  · split at h
    · cases h
      trivial
    · split at h
      · exact Plain.integerJson?_isScalar h
      · split at h
        · cases h
          trivial
        · cases hfloat : Plain.float? s.toList with
          | some y =>
            rw [hfloat] at h
            cases h
            exact Plain.floatJson_isScalar y
          | none =>
            rw [hfloat] at h
            cases h
            trivial

theorem taggedJson?_isScalar {tag text : String} {x : Json} (h : taggedJson? tag text = some x) :
    x.IsScalar := by
  unfold taggedJson? at h
  dsimp only at h
  split_ifs at h
  · rcases Option.map_eq_some_iff.1 h with ⟨b, -, rfl⟩
    trivial
  · rcases Option.bind_eq_some_iff.1 h with ⟨n, -, hn⟩
    exact Plain.integerJson?_isScalar hn
  · rcases Option.map_eq_some_iff.1 h with ⟨y, -, rfl⟩
    exact Plain.floatJson_isScalar y
  all_goals
    cases h
    trivial

namespace Node

mutual

/-- The document of a node is ordered. -/
theorem toJson?_ordered : ∀ {n : Node} {x : Json}, n.toJson? = some x → x.Ordered
  | scalar tag style text, x, h => by
    rw [toJson?.eq_def] at h
    dsimp only at h
    split at h
    · cases h
    · split at h
      · exact (taggedJson?_isScalar h).ordered
      · split at h
        · exact (Plain.json?_isScalar h).ordered
        · cases h
          trivial
  | sequence tag items, x, h => by
    rw [toJson?.eq_def] at h
    dsimp only at h
    split_ifs at h
    rcases Option.map_eq_some_iff.1 h with ⟨xs, hxs, rfl⟩
    exact itemsToJson?_ordered hxs
  -- A mapping is gathered into a dictionary, which orders its keys whatever order they came in.
  | mapping tag entries, x, h => by
    rw [toJson?.eq_def] at h
    dsimp only at h
    split_ifs at h
    rcases Option.map_eq_some_iff.1 h with ⟨pairs, hpairs, rfl⟩
    refine ⟨Dict.ascending_ofPairs pairs, Json.membersOrdered_iff.2 fun m hm => ?_⟩
    exact entriesToJson?_ordered hpairs m (Dict.mem_ofPairs hm)

theorem itemsToJson?_ordered : ∀ {ns : List Node} {xs : List Json},
    toJson?.itemsToJson? ns = some xs → Json.Ordered.itemsOrdered xs
  | [], xs, h => by
    cases h
    trivial
  | n :: ns, xs, h => by
    simp only [toJson?.itemsToJson?, Option.bind_eq_bind, Option.bind_eq_some_iff] at h
    rcases h with ⟨x, hx, ys, hys, hxs⟩
    cases hxs
    exact ⟨toJson?_ordered hx, itemsToJson?_ordered hys⟩

theorem entriesToJson?_ordered : ∀ {entries : List (Node × Node)} {pairs : List (String × Json)},
    toJson?.entriesToJson? entries = some pairs → ∀ pair ∈ pairs, pair.2.Ordered
  | [], pairs, h => by
    cases h
    simp
  | (key, n) :: rest, pairs, h => by
    simp only [toJson?.entriesToJson?, Option.bind_eq_bind, Option.bind_eq_some_iff] at h
    rcases h with ⟨name, -, x, hx, more, hmore, hpairs⟩
    cases hpairs
    exact List.forall_mem_cons.2 ⟨toJson?_ordered hx, entriesToJson?_ordered hmore⟩

end

end Node

end Yaml

end Overlay
