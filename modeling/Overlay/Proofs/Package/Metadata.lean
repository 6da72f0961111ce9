import Overlay.Package.Metadata

/-!
# What metadata says

* What templates see of metadata says all of it: it is metadata again (`ofJson?_toNative`).
* A part of a document that metadata does not know says nothing (`ofJson?_insert`).
-/

namespace Overlay.Metadata

theorem items?_strings (texts : List String) :
    items? (NativeValue.toJson.toJsonItems (texts.map .string)) = some texts := by
  induction texts with
  | nil => rfl
  | cons text rest ih =>
    rw [List.map_cons, NativeValue.toJson.toJsonItems, NativeValue.toJson, items?, ih]
    rfl

/-- What templates see of metadata is metadata again. -/
theorem ofJson?_toNative (m : Metadata) : ofJson? m.toNative.toJson = some m := by
  rcases m with ⟨app, pack, identifier, flags, name⟩
  have hflags := items?_strings flags
  simp [toNative, NativeValue.toJson, NativeValue.toJson.toJsonEntries, ofJson?, parts?, record?,
    app?, pack?, integration?, text?, texts?, Dict.find?, hflags]

/-- A part with another name says nothing. -/
theorem ofJson?_insert (d : Dict Json) {name : String}
    (hname : name ∉ ["app", "pack", "integration"]) (x : Json) :
    ofJson? (.object (d.insert name x)) = ofJson? (.object d) := by
  have hfind : ∀ known ∈ ["app", "pack", "integration"],
      (d.insert name x).find? known = d.find? known := by
    intro known hknown
    refine Dict.find?_insert_of_ne ?_ x d
    rintro rfl
    exact hname hknown
  simp only [List.forall_mem_cons] at hfind
  rcases hfind with ⟨happ, hpack, hintegration, -⟩
  simp only [ofJson?, parts?, record?, happ, hpack, hintegration, Option.bind_eq_bind,
    Option.bind_some]

end Overlay.Metadata
