import Mathlib.Data.List.Nodup
import Overlay.Settings.Document

/-!
# Parts of settings

Settings are read strictly. Every member of a document is a part of settings (`known_of_ofJson?`),
and so is every entry of a YAML mapping, where moreover no part is named twice
(`distinct_of_ofYaml?`).
-/

namespace Overlay.Settings

variable {settings found : Settings} {d e : Draft}

/-! ## Plain documents -/

theorem known_of_addMember {member : String × Json} (h : addMember settings member = some found) :
    ∃ part, Part.ofLabel? member.1 = some part := by
  unfold addMember at h
  rcases Option.bind_eq_some_iff.1 h with ⟨part, hpart, -⟩
  exact ⟨part, hpart⟩

theorem known_of_foldlM {members : List (String × Json)}
    (h : members.foldlM addMember settings = some found) :
    ∀ member ∈ members, ∃ part, Part.ofLabel? member.1 = some part := by
  induction members generalizing settings with
  | nil => simp
  | cons member rest ih =>
    rw [List.foldlM_cons] at h
    rcases Option.bind_eq_some_iff.1 h with ⟨next, hnext, hrest⟩
    exact List.forall_mem_cons.2 ⟨known_of_addMember hnext, ih hrest⟩

/-- Every member of a document of settings is a part of settings. -/
theorem known_of_ofJson? {members : Dict Json} (h : ofJson? (.object members) = some settings) :
    ∀ member ∈ members, ∃ part, Part.ofLabel? member.1 = some part :=
  known_of_foldlM h

/-! ## YAML -/

/-- The part that an entry names. -/
def namedPart? (entry : Yaml.Node × Yaml.Node) : Option Part := entry.1.text?.bind Part.ofLabel?

/-- What is read into a draft is noted in it, whatever it is. -/
theorem seen_of_addNode {part : Part} {node : Yaml.Node} (h : addNode d part node = some e) :
    e.seen = part :: d.seen := by
  cases part <;>
    simp only [addNode, Option.bind_eq_bind, Option.bind_eq_some_iff, Option.pure_def,
      Option.some.injEq] at h
  all_goals grind [Draft.set]

theorem seen_of_addEntry {entry : Yaml.Node × Yaml.Node} (h : addEntry d entry = some e) :
    ∃ part, namedPart? entry = some part ∧ part ∉ d.seen ∧ e.seen = part :: d.seen := by
  unfold addEntry at h
  rcases Option.bind_eq_some_iff.1 h with ⟨name, hname, hrest⟩
  rcases Option.bind_eq_some_iff.1 hrest with ⟨part, hlabel, hadd⟩
  refine ⟨part, Option.bind_eq_some_iff.2 ⟨name, hname, hlabel⟩, ?_⟩
  split at hadd
  · cases hadd
  · next hnew => exact ⟨hnew, seen_of_addNode hadd⟩

/-- The entries name the parts that are noted, and each part is new where it is named. -/
theorem seen_of_foldlM {entries : List (Yaml.Node × Yaml.Node)}
    (h : entries.foldlM addEntry d = some e) (hseen : d.seen.Nodup) :
    e.seen.Nodup ∧ ∃ parts : List Part, e.seen = parts.reverse ++ d.seen ∧
      entries.map namedPart? = parts.map some := by
  induction entries generalizing d with
  | nil =>
    cases h
    exact ⟨hseen, [], rfl, rfl⟩
  | cons entry rest ih =>
    rw [List.foldlM_cons] at h
    rcases Option.bind_eq_some_iff.1 h with ⟨next, hnext, hrest⟩
    rcases seen_of_addEntry hnext with ⟨part, hpart, hnew, heq⟩
    have hnodup : next.seen.Nodup := by
      rw [heq]
      exact List.nodup_cons.2 ⟨hnew, hseen⟩
    rcases ih hrest hnodup with ⟨hall, parts, hparts, hnames⟩
    refine ⟨hall, part :: parts, ?_, ?_⟩
    · rw [hparts, heq, List.reverse_cons, List.append_assoc]
      rfl
    · rw [List.map_cons, hpart, hnames, List.map_cons]

/-- The entries of a YAML mapping of settings name parts of settings, and no part twice. -/
theorem distinct_of_ofYaml? {node : Yaml.Node} {entries : List (Yaml.Node × Yaml.Node)}
    (hentries : node.entries? = some entries) (h : ofYaml? node = some settings) :
    ∃ parts : List Part, parts.Nodup ∧ entries.map namedPart? = parts.map some := by
  unfold ofYaml? at h
  rw [hentries] at h
  rcases Option.bind_eq_some_iff.1 h with ⟨e, he, -⟩
  rcases seen_of_foldlM he List.nodup_nil with ⟨hnodup, parts, hparts, hnames⟩
  refine ⟨parts, ?_, hnames⟩
  rw [hparts] at hnodup
  exact List.nodup_reverse.1 (List.nodup_append.1 hnodup).1

end Overlay.Settings
