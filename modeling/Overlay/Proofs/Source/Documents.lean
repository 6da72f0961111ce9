import Overlay.Json.Reader
import Overlay.Proofs.Dict

/-!
# Documents in order

Documents are gathered from what a reader gives: the members of every object are put into a
dictionary, where the last one of a name counts.

* `Json.Ordered` says of a document that all its objects are dictionaries.
* `collapse_ordered`: a document that was gathered is ordered, so the documents of JSON texts are.
* `collapseMembers_eq`: an object that was gathered is the dictionary of its pairs.
-/

namespace Overlay

namespace Json

/-- Whether the names of the members of every object ascend. -/
def Ordered : Json → Prop
  | null | bool _ | integer _ | float _ | string _ => True
  | array items => itemsOrdered items
  | object members => Dict.Ascending members ∧ membersOrdered members
where
  /-- Whether it is so in all items. -/
  itemsOrdered : List Json → Prop
  | [] => True
  | x :: xs => x.Ordered ∧ itemsOrdered xs
  /-- Whether it is so in all members. -/
  membersOrdered : List (String × Json) → Prop
  | [] => True
  | (_, x) :: rest => x.Ordered ∧ membersOrdered rest

theorem membersOrdered_iff {members : List (String × Json)} :
    Ordered.membersOrdered members ↔ ∀ m ∈ members, m.2.Ordered := by
  induction members with
  | nil => simp [Ordered.membersOrdered]
  | cons m rest ih => rw [List.forall_mem_cons, Ordered.membersOrdered, ih]

/-- Members in order stay so with one more. -/
theorem membersOrdered_insert {members : Dict Json} (h : Ordered.membersOrdered members)
    {x : Json} (hx : x.Ordered) (name : String) :
    Ordered.membersOrdered (members.insert name x) := by
  rw [membersOrdered_iff] at h ⊢
  intro m hm
  rcases Dict.mem_insert hm with rfl | hold
  · exact hx
  · exact h m hold

mutual

theorem collapse_ordered : ∀ x : Json, x.collapse.Ordered
  | null | bool _ | integer _ | float _ | string _ => trivial
  | array items => collapseItems_ordered items
  | object members => collapseMembers_ordered members Dict.ascending_nil trivial

theorem collapseItems_ordered : ∀ items : List Json,
    Ordered.itemsOrdered (collapse.collapseItems items)
  | [] => trivial
  | x :: xs => ⟨collapse_ordered x, collapseItems_ordered xs⟩

theorem collapseMembers_ordered : ∀ (members : List (String × Json)) {front : Dict Json},
    Dict.Ascending front → Ordered.membersOrdered front →
      Dict.Ascending (collapse.collapseMembers front members) ∧
        Ordered.membersOrdered (collapse.collapseMembers front members)
  | [], _, hasc, hfront => ⟨hasc, hfront⟩
  | (name, x) :: rest, _, hasc, hfront =>
    collapseMembers_ordered rest (Dict.ascending_insert hasc name x.collapse)
      (membersOrdered_insert hfront (collapse_ordered x) name)

end

/-- Of members with one name the last one is left. -/
theorem collapseMembers_eq (members : List (String × Json)) :
    collapse.collapseMembers [] members = Dict.ofPairs (Dict.mapValues collapse members) := by
  have hrun : ∀ (members : List (String × Json)) (front : Dict Json),
      collapse.collapseMembers front members =
        (Dict.mapValues collapse members).foldl
          (fun d pair => Dict.insert pair.1 pair.2 d) front := by
    intro members
    induction members with
    | nil => exact fun _ => rfl
    | cons member rest ih => exact fun front => ih _
  exact hrun members []

theorem parse?_ordered {text : String} {x : Json} (h : parse? text = .ok x) : x.Ordered := by
  unfold parse? at h
  cases hread : read text with
  | error e =>
    rw [hread] at h
    cases h
  | ok y =>
    rw [hread] at h
    cases h
    exact collapse_ordered y

end Json

end Overlay
