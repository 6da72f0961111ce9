import Mathlib.Data.Set.List
import Overlay.Proofs.Dict
import Overlay.Proofs.Source.Documents
import Overlay.Proofs.Source.Inline
import Overlay.Proofs.Source.Native

/-!
# The members of a document

* `document_object`: a document whose top level is an object is accepted exactly when its members
  address different variables, and then every member is an override.
* A JSON text can have two members of one name, and only the last one of them gets that far
  (`Json.collapseMembers_eq`). So `source_json` tells what is accepted of the members as they are
  written: a name that repeats is no error, and neither is a text that is `null`.
-/

namespace Overlay

namespace Addressing

variable {addressing : Addressing} {names : List String}

/-- Whether names address different variables: each is an address, and no two are addresses of one
variable. -/
def Unambiguous (addressing : Addressing) (names : List String) : Prop :=
  (∀ name ∈ names, addressing.targetOf? name ≠ none) ∧ (names.map addressing.targetOf?).Nodup

/-- Whether all names are addresses, and different names are addresses of different variables. -/
def TellsApart (addressing : Addressing) (names : List String) : Prop :=
  (∀ name ∈ names, addressing.targetOf? name ≠ none) ∧
    ∀ a ∈ names, ∀ b ∈ names, addressing.targetOf? a = addressing.targetOf? b → a = b

theorem unambiguous_iff :
    addressing.Unambiguous names ↔ addressing.TellsApart names ∧ names.Nodup := by
  constructor
  · rintro ⟨hall, hnodup⟩
    have hnames : names.Nodup := hnodup.of_map _
    exact ⟨⟨hall, (List.nodup_map_iff_inj_on hnames).1 hnodup⟩, hnames⟩
  · rintro ⟨⟨hall, hinj⟩, hnames⟩
    exact ⟨hall, (List.nodup_map_iff_inj_on hnames).2 hinj⟩

theorem tellsApart_congr {others : List String} (h : ∀ name, name ∈ names ↔ name ∈ others) :
    addressing.TellsApart names ↔ addressing.TellsApart others := by
  simp only [TellsApart, h]

end Addressing

namespace Decoding

variable {addressing : Addressing} {filename content : String} {whole : SourceRange}
  {format : Format} {r : Record} {o : Override} {member : String × Json}
  {members : List (String × Json)}

/-- The override that a member of a document is, if its name is an address. -/
def memberOverride? (addressing : Addressing) (filename : String) (whole : SourceRange)
    (member : String × Json) : Option Override :=
  (addressing.targetOf? member.1).map fun target =>
    ⟨target, .ofJson member.2, none, whole, .file filename⟩

theorem map_targetOf?_keys (members : List (String × Json)) :
    (Dict.keys members).map addressing.targetOf? =
      (members.map (memberOverride? addressing filename whole)).map
        (Option.map Override.target) := by
  unfold Dict.keys
  rw [List.map_map, List.map_map]
  refine List.map_congr_left ?_
  intro member _
  show addressing.targetOf? member.1 = ((addressing.targetOf? member.1).map _).map _
  rw [Option.map_map]
  exact Option.map_id'.symm

/-! ## One member -/

/-- A member is recorded if its name is the address of a variable without an override. Otherwise an
error is reported. -/
theorem recordMember_cases (r : Record) (member : String × Json) :
    (∃ o, memberOverride? addressing filename whole member = some o ∧
      r.overrides.get? o.target = none ∧
      recordMember addressing filename whole r member = r.put o) ∨
    ((∀ o, memberOverride? addressing filename whole member = some o →
      r.overrides.get? o.target ≠ none) ∧
      ∃ d : Diagnostic, d.isError = true ∧
        recordMember addressing filename whole r member = r.report [d]) := by
  unfold recordMember memberOverride? Addressing.targetOf?
  cases dottedKey member.1 with
  | error detail =>
    right
    refine ⟨?_, _, rfl, rfl⟩
    intro o ho
    cases ho
  | ok segments =>
    dsimp only
    unfold Record.assign
    cases addressing.scheme.resolveKey addressing.root segments with
    | error detail =>
      right
      refine ⟨?_, _, rfl, rfl⟩
      intro o ho
      cases ho
    | ok target =>
      simp only [OverrideSet.insert]
      -- A target that is set already is reported with the place that set it first.
      cases hget : r.overrides.get? target with
      | none => exact .inl ⟨_, rfl, hget, rfl⟩
      | some first =>
        right
        refine ⟨?_, _, rfl, rfl⟩
        intro o ho
        cases ho
        rw [hget]
        exact Option.some_ne_none first

/-! ## All members -/

theorem hasErrors_foldl_recordMember (members : List (String × Json))
    (h : r.diagnostics.hasErrors = true) :
    (members.foldl (recordMember addressing filename whole) r).diagnostics.hasErrors = true := by
  induction members generalizing r with
  | nil => exact h
  | cons member rest ih =>
    refine ih ?_
    rcases @recordMember_cases addressing filename whole r member with
      ⟨o, -, -, hput⟩ | ⟨-, d, -, hreport⟩
    · rw [hput]
      exact h
    · have hall : (r.diagnostics ++ [d]).hasErrors = (r.diagnostics.hasErrors || _) :=
        List.any_append
      rw [hreport, Record.report, hall, h, Bool.true_or]

theorem get?_put {target : Target} : (r.put o).overrides.get? target = none ↔
    r.overrides.get? target = none ∧ o.target ≠ target := by
  unfold Record.put OverrideSet.get?
  simp [List.find?_append]

/-- Members that address different variables without overrides are recorded in order. -/
theorem foldl_recordMember {os : List Override}
    (hos : members.map (memberOverride? addressing filename whole) = os.map some)
    (hnodup : (os.map Override.target).Nodup)
    (hfresh : ∀ o ∈ os, r.overrides.get? o.target = none) :
    members.foldl (recordMember addressing filename whole) r =
      ⟨⟨r.overrides.entries ++ os⟩, r.diagnostics⟩ := by
  -- Along the members; what is recorded so far has none of the targets still to come.
  induction members generalizing r os with
  | nil =>
    have hnil : os = [] := by simpa using hos.symm
    rw [hnil, List.append_nil]
    rfl
  | cons member rest ih =>
    rcases List.map_eq_cons_iff.1 hos.symm with ⟨o, more, rfl, ho, hmore⟩
    rw [List.forall_mem_cons] at hfresh
    obtain ⟨hnew, hmorenodup⟩ := List.nodup_cons.1 hnodup
    rcases @recordMember_cases addressing filename whole r member with
      ⟨o', ho', -, hput⟩ | ⟨hnone, -⟩
    · have heq : o' = o := Option.some.inj (ho'.symm.trans ho.symm)
      subst heq
      have hnext : ∀ p ∈ more, (r.put o').overrides.get? p.target = none := by
        intro p hp
        refine get?_put.2 ⟨hfresh.2 p hp, ?_⟩
        exact fun htarget => hnew (List.mem_map.2 ⟨p, hp, htarget.symm⟩)
      rw [List.foldl_cons, hput, ih hmore.symm hmorenodup hnext]
      simp [Record.put]
    · exact absurd hfresh.1 (hnone o ho.symm)

/-- If nothing is wrong with the members, they address different variables without overrides. -/
theorem exists_of_foldl_recordMember
    (h : (members.foldl (recordMember addressing filename whole) r).diagnostics.hasErrors = false) :
    ∃ os : List Override,
      members.map (memberOverride? addressing filename whole) = os.map some ∧
      (os.map Override.target).Nodup ∧ ∀ o ∈ os, r.overrides.get? o.target = none := by
  induction members generalizing r with
  | nil => exact ⟨[], rfl, List.nodup_nil, by simp⟩
  | cons member rest ih =>
    rw [List.foldl_cons] at h
    rcases @recordMember_cases addressing filename whole r member with
      ⟨o, ho, hfree, hput⟩ | ⟨-, d, herror, hreport⟩
    · rw [hput] at h
      rcases ih h with ⟨os, hos, hnodup, hfresh⟩
      refine ⟨o :: os, by rw [List.map_cons, List.map_cons, ho, hos], ?_, ?_⟩
      · refine List.nodup_cons.2 ⟨?_, hnodup⟩
        intro hmem
        rcases List.mem_map.1 hmem with ⟨p, hp, htarget⟩
        exact (get?_put.1 (hfresh p hp)).2 htarget.symm
      · rw [List.forall_mem_cons]
        exact ⟨hfree, fun p hp => (get?_put.1 (hfresh p hp)).1⟩
    · -- The error stays to the end.
      have herrors : (r.report [d]).diagnostics.hasErrors = true :=
        List.any_eq_true.2 ⟨d, List.mem_append_right _ List.mem_cons_self, herror⟩
      rw [hreport, hasErrors_foldl_recordMember rest herrors] at h
      cases h

/-! ## Documents -/

theorem exists_overrides_iff :
    (∃ os : List Override, members.map (memberOverride? addressing filename whole) = os.map some ∧
      (os.map Override.target).Nodup) ↔ addressing.Unambiguous (Dict.keys members) := by
  have hkeys := @map_targetOf?_keys addressing filename whole members
  constructor
  · rintro ⟨os, hos, hnodup⟩
    have htargets : (Dict.keys members).map addressing.targetOf? =
        (os.map Override.target).map some := by
      rw [hkeys, hos, List.map_map, List.map_map]
      rfl
    constructor
    · intro name hname hnone
      have hmem : none ∈ (os.map Override.target).map some := by
        rw [← htargets, ← hnone]
        exact List.mem_map_of_mem hname
      simp at hmem
    · rw [htargets]
      exact hnodup.map (Option.some_injective _)
  · rintro ⟨hall, hnodup⟩
    -- Every name has a target, so every member has an override.
    have hsome : members.map (memberOverride? addressing filename whole) ∈
        Set.range (List.map some) := by
      rw [Set.range_list_map]
      intro o? ho
      rcases List.mem_map.1 ho with ⟨member, hmember, rfl⟩
      have hname := hall member.1 (Dict.mem_keys_of_mem hmember)
      rcases Option.ne_none_iff_exists.1 hname with ⟨target, htarget⟩
      rw [memberOverride?, ← htarget]
      exact ⟨_, rfl⟩
    rcases hsome with ⟨os, hos⟩
    refine ⟨os, hos.symm, List.Nodup.of_map some ?_⟩
    rw [hkeys, ← hos, List.map_map] at hnodup
    rw [List.map_map]
    exact hnodup

/-- A document whose top level is an object is accepted exactly when its members address different
variables. Then it gives one override for each of them. -/
theorem document_object (members : List (String × Json)) :
    ((document addressing filename content format (.ok (.object members))).diagnostics.hasErrors =
        false ↔ addressing.Unambiguous (Dict.keys members)) ∧
      (addressing.Unambiguous (Dict.keys members) →
        (document addressing filename content format
            (.ok (.object members))).overrides.entries.map some =
          members.map (memberOverride? addressing filename (.whole filename content))) := by
  -- Without an ambiguity every member is recorded, in the order of the members.
  have hrun : addressing.Unambiguous (Dict.keys members) → ∃ os : List Override,
      members.map (memberOverride? addressing filename (.whole filename content)) = os.map some ∧
        document addressing filename content format (.ok (.object members)) = ⟨⟨os⟩, []⟩ := by
    intro hmembers
    rcases exists_overrides_iff.2 hmembers with ⟨os, hos, hnodup⟩
    refine ⟨os, hos, ?_⟩
    exact foldl_recordMember hos hnodup (fun _ _ => rfl)
  refine ⟨⟨?_, ?_⟩, ?_⟩
  · intro hclean
    rcases exists_of_foldl_recordMember hclean with ⟨os, hos, hnodup, -⟩
    exact exists_overrides_iff.1 ⟨os, hos, hnodup⟩
  · intro hmembers
    rcases hrun hmembers with ⟨os, -, hdocument⟩
    rw [hdocument]
    rfl
  · intro hmembers
    rcases hrun hmembers with ⟨os, hos, hdocument⟩
    rw [hdocument, hos]

/-! ## JSON texts -/

/-- Whether overrides are those of members that are written in a JSON text, one for each member,
with its value. -/
def HoldsEach (addressing : Addressing) (filename content : String)
    (members : List (String × Json)) (overrides : List Override) : Prop :=
  (overrides.map some).Perm ((Dict.mapValues Json.collapse members).map
    (memberOverride? addressing filename (.whole filename content)))

theorem source_json_eq {x : Json} (hread : Json.read content = .ok x) :
    source addressing filename content .json =
      (document addressing filename content .json (.ok x.collapse)).toFile filename content := by
  have hparse : jsonDocument filename content = .ok x.collapse := by
    rw [jsonDocument, Json.parse?, hread]
    rfl
  unfold source
  rw [hparse]

/-- An object in a JSON text is accepted if different names in it address different variables. It
gives one override for each name, with the value of the last member of that name. -/
theorem source_json_object (hread : Json.read content = .ok (.object members)) :
    ((source addressing filename content .json).diagnostics.hasErrors = false ↔
        addressing.TellsApart (Dict.keys members)) ∧
      (addressing.TellsApart (Dict.keys members) →
        HoldsEach addressing filename content (Dict.latest members)
          (source addressing filename content .json).overrides.entries) := by
  -- What is left of the object has every name once, and that makes its names unambiguous as soon
  -- as different ones are told apart.
  let left : Dict Json := Dict.ofPairs (Dict.mapValues Json.collapse members)
  have hleft : (Json.object members).collapse = .object left :=
    congrArg Json.object (Json.collapseMembers_eq members)
  have hperm : left.Perm (Dict.mapValues Json.collapse (Dict.latest members)) := by
    rw [← Dict.latest_mapValues]
    exact Dict.perm_ofPairs _
  have hkeys : ∀ name, name ∈ Dict.keys left ↔ name ∈ Dict.keys members := by
    intro name
    have hmem : name ∈ Dict.keys left ↔
        name ∈ Dict.keys (Dict.mapValues Json.collapse (Dict.latest members)) :=
      (hperm.map Prod.fst).mem_iff
    rw [hmem, Dict.keys_mapValues, Dict.mem_keys_latest]
  have hnames : addressing.Unambiguous (Dict.keys left) ↔
      addressing.TellsApart (Dict.keys members) := by
    have hnodup : (Dict.keys left).Nodup := Dict.nodup_keys (Dict.ascending_ofPairs _)
    rw [Addressing.unambiguous_iff, Addressing.tellsApart_congr hkeys]
    exact and_iff_left hnodup
  obtain ⟨hclean, heach⟩ := @document_object addressing filename content .json left
  rw [source_json_eq hread, hleft]
  constructor
  · rw [← hnames]
    exact hclean
  · intro htells
    have hmembers := hnames.2 htells
    rw [Record.toFile, if_neg (by rw [hclean.2 hmembers]; exact Bool.false_ne_true)]
    unfold HoldsEach
    rw [heach hmembers]
    exact hperm.map _

/-- A JSON text is accepted if it is `null` or an object in which different names address different
variables. -/
theorem source_json_accepted {x : Json} (hread : Json.read content = .ok x) :
    (source addressing filename content .json).diagnostics.hasErrors = false ↔
      x = .null ∨ ∃ members, x = .object members ∧ addressing.TellsApart (Dict.keys members) := by
  cases x with
  | object members =>
    rw [(source_json_object hread).1]
    simp
  | null =>
    rw [source_json_eq hread]
    exact ⟨fun _ => .inl rfl, fun _ => rfl⟩
  | bool _ | integer _ | float _ | string _ | array _ =>
    -- The top level is reported.
    rw [source_json_eq hread]
    constructor
    · intro hclean
      cases hclean
    · rintro (h | ⟨members, h, -⟩)
      · cases h
      · cases h

/-- What is accepted of JSON texts. A text is accepted if it is an object in which different names
address different variables, and also if it is `null`, which is taken for a document that is empty.
So a text is accepted exactly when it is an object whose members address different variables, unless
it is `null` or some name repeats. If its members do address different variables, each of them is an
override; if names repeat, the last member of each name is. -/
theorem source_json {x : Json} (hread : Json.read content = .ok x) :
    ((source addressing filename content .json).diagnostics.hasErrors = false ↔
        x = .null ∨ ∃ members, x = .object members ∧ addressing.TellsApart (Dict.keys members)) ∧
      (((source addressing filename content .json).diagnostics.hasErrors = false ↔
          ∃ members, x = .object members ∧ addressing.Unambiguous (Dict.keys members)) ↔
        x ≠ .null ∧ ∀ members, x = .object members → addressing.TellsApart (Dict.keys members) →
          (Dict.keys members).Nodup) ∧
      ∀ members, x = .object members →
        (addressing.Unambiguous (Dict.keys members) →
          HoldsEach addressing filename content members
            (source addressing filename content .json).overrides.entries) ∧
        (addressing.TellsApart (Dict.keys members) →
          HoldsEach addressing filename content (Dict.latest members)
            (source addressing filename content .json).overrides.entries) := by
  have haccepted := @source_json_accepted addressing filename content x hread
  refine ⟨haccepted, ?_, ?_⟩
  · -- What is accepted is more than it should be by `null` and by names that repeat.
    rw [haccepted]
    constructor
    · intro h
      constructor
      · rintro rfl
        rcases h.1 (.inl rfl) with ⟨members, hmembers, -⟩
        cases hmembers
      · rintro members rfl htells
        rcases h.1 (.inr ⟨members, rfl, htells⟩) with ⟨_, hsame, hmembers⟩
        cases hsame
        exact (Addressing.unambiguous_iff.1 hmembers).2
    · rintro ⟨hnull, hnames⟩
      constructor
      · rintro (rfl | ⟨members, rfl, htells⟩)
        · exact absurd rfl hnull
        · exact ⟨members, rfl, Addressing.unambiguous_iff.2 ⟨htells, hnames members rfl htells⟩⟩
      · rintro ⟨members, rfl, hmembers⟩
        exact .inr ⟨members, rfl, (Addressing.unambiguous_iff.1 hmembers).1⟩
  · rintro members rfl
    have hlatest := (@source_json_object addressing filename content members hread).2
    refine ⟨?_, hlatest⟩
    intro hmembers
    obtain ⟨htells, hnodup⟩ := Addressing.unambiguous_iff.1 hmembers
    have heach := hlatest htells
    rw [Dict.latest_of_nodup hnodup] at heach
    exact heach

theorem source_json_distinct :
    let addressing : Addressing := ⟨⟨"web"⟩, .hierarchical⟩
    let content := "\x7b\"size\": 1, \"web.redis.size\": [true]\x7d"
    let members := [("size", Json.integer 1), ("web.redis.size", .array [.bool true])]
    Json.read content = .ok (.object members) ∧ addressing.Unambiguous (Dict.keys members) ∧
      (source addressing "o.json" content .json).diagnostics.hasErrors = false ∧
      HoldsEach addressing "o.json" content members
        (source addressing "o.json" content .json).overrides.entries := by
  intro addressing content members
  have hread : Json.read content = .ok (.object members) := by decide +kernel
  have hmembers : addressing.Unambiguous (Dict.keys members) := by
    unfold Addressing.Unambiguous
    decide +kernel
  have htells := (Addressing.unambiguous_iff.1 hmembers).1
  obtain ⟨haccepted, -, heach⟩ := @source_json addressing "o.json" content _ hread
  exact ⟨hread, hmembers, haccepted.2 (.inr ⟨members, rfl, htells⟩), (heach members rfl).1 hmembers⟩

/-- Neither a name that repeats nor `null` is reported. -/
theorem repeatedName_accepted :
    let addressing : Addressing := ⟨⟨"web"⟩, .hierarchical⟩
    let twice := "\x7b\"a\":1,\"a\":2\x7d"
    let members := [("a", Json.integer 1), ("a", .integer 2)]
    Json.read twice = .ok (.object members) ∧ ¬addressing.Unambiguous (Dict.keys members) ∧
      (source addressing "o.json" twice .json).diagnostics = [] ∧
      (source addressing "o.json" twice .json).overrides.entries.map Override.value =
        [.number (.ofInt64 2)] ∧
      Json.read "null" = .ok .null ∧
      (source addressing "o.json" "null" .json).diagnostics = [] := by
  intro addressing twice members
  have hnames : ¬addressing.Unambiguous (Dict.keys members) := by
    unfold Addressing.Unambiguous
    decide +kernel
  refine ⟨by decide +kernel, hnames, ?_⟩
  decide +kernel

end Decoding

end Overlay
