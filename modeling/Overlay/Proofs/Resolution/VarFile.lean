import Overlay.Proofs.Package.Tree
import Overlay.Proofs.Resolution.Addressing
import Overlay.Proofs.Source.Native
import Overlay.Proofs.Text.Dots
import Overlay.Proofs.Text.Lines
import Overlay.Resolution.VarFile

/-!
# What a generated override file assigns

* An assignment is written with the address of its variable, which leads back to it
  (`Scheme.exists_segments`).
* `VarFile.generate_writes`: the file for a tree assigns to every variable of every pack the literal
  of its value, and nothing else.
-/

namespace Overlay

open Hcl (TokenKind Reads)

/-! ## Names -/

theorem newline_not_mem_of_isIdentifier {name : String} (h : isIdentifier name = true) :
    '\n' ∉ name.toList := not_mem_of_isIdentifier h (by decide)

namespace Text

theorem newline_not_mem_joinDots {parts : List String} (h : ∀ p ∈ parts, '\n' ∉ p.toList) :
    '\n' ∉ (joinDots parts).toList := by
  induction parts with
  | nil => simp [joinDots]
  | cons a rest ih =>
    rw [List.forall_mem_cons] at h
    cases rest with
    | nil => simpa [joinDots] using h.1
    | cons b rest =>
      have hrest := ih h.2
      rw [joinDots_cons_cons]
      simp [h.1, hrest]

/-- A line has no line end in it. -/
theorem newline_not_mem_of_mem_lines {s line : String} (h : line ∈ lines s) :
    '\n' ∉ line.toList := by
  unfold lines at h
  rcases List.mem_map.1 h with ⟨cs, hcs, rfl⟩
  rw [String.toList_ofList]
  rcases List.mem_append.1 hcs with hclosed | hlast
  · rcases List.mem_map.1 hclosed with ⟨piece, hpiece, rfl⟩
    have hnone := not_mem_of_mem_splitAtChar (List.dropLast_subset _ hpiece)
    split_ifs
    · exact fun hmem => hnone (List.dropLast_subset _ hmem)
    · exact hnone
  · split at hlast
    · next c ds hget =>
      rw [List.mem_singleton] at hlast
      rw [hlast]
      exact not_mem_of_mem_splitAtChar (List.mem_of_getLast? hget)
    · cases hlast

end Text

/-! ## Lines -/

namespace Decoding

variable {addressing : Addressing}

/-- Words with dots between them. -/
theorem reads_path : ∀ (root : String) (names : List String) {rest : List Char}
    {ks : List TokenKind}, (∀ n ∈ root :: names, Value.IsWord n) →
      Hcl.Apart rest → Reads rest ks →
        Reads ((Text.joinDots (root :: names)).toList ++ rest)
          (.ident root :: (names.flatMap dotKinds ++ ks))
  | root, [], rest, ks, hwords, hrest, h => by
    have hjoin : Text.joinDots [root] = root := String.intercalate_singleton
    rw [hjoin]
    exact Value.spells_word (hwords root List.mem_cons_self) hrest h
  | root, name :: names, rest, ks, hwords, hrest, h => by
    rw [List.forall_mem_cons] at hwords
    have hmore := reads_path name names hwords.2 hrest h
    rcases hwords.1 with ⟨c, cs, htext, hc, hcs⟩
    have hself : String.ofList (c :: cs) = root := by rw [← htext, String.ofList_toList]
    have hdot := Reads.mark (c := '.') rfl hmore
    have hword := Reads.word hc hcs (fun d ds heq => by cases heq; decide +kernel) hdot
    rw [hself] at hword
    rw [Text.joinDots_cons_cons, String.toList_append, String.toList_append, htext,
      List.append_assoc, List.append_assoc]
    exact hword

/-- The line of an assignment. -/
theorem Writes.assignment {root : String} {names : List String} {target : Target} {v : Value}
    (hkey : addressing.scheme.resolveKey addressing.root (root :: names) = .ok target)
    (hwords : ∀ n ∈ root :: names, Value.IsWord n) (hv : v.HasWordKeys) :
    Writes addressing (Text.joinDots (root :: names) ++ " = " ++ v.literal ++ "\n").toList
      [(target, v)] := by
  refine ⟨assignmentKinds root names v ++ [], .assignment v hkey .nil, fun {rest ks} h => ?_⟩
  have hliteral := Value.spells_literal v hv (Hcl.apart_cons (by decide +kernel) (by decide) _)
    (Reads.mark (c := '\n') rfl h)
  have hequals := Reads.mark (c := '=') rfl (Reads.space hliteral)
  have hpath := reads_path root names hwords (Hcl.apart_cons (by decide +kernel) (by decide) _)
    (Reads.space hequals)
  have htext : (Text.joinDots (root :: names) ++ " = " ++ v.literal ++ "\n").toList ++ rest =
      (Text.joinDots (root :: names)).toList ++
        (' ' :: '=' :: ' ' :: (v.literalChars ++ '\n' :: rest)) := by
    simp [Value.literal]
  have hkinds : assignmentKinds root names v ++ [] ++ ks = .ident root :: (names.flatMap dotKinds ++
      .mark .equals :: (v.literalKinds ++ .mark .newline :: ks)) := by
    simp [assignmentKinds]
  rw [htext, hkinds]
  exact hpath

/-- Texts one behind the other. -/
theorem Writes.join {α : Type} {xs : List α} {text : α → String} {ps : α → List (Target × Value)}
    (h : ∀ x ∈ xs, Writes addressing (text x).toList (ps x)) :
    Writes addressing (String.join (xs.map text)).toList (xs.flatMap ps) := by
  rw [String.toList_join]
  induction xs with
  | nil => exact Writes.nil
  | cons x xs ih =>
    rw [List.forall_mem_cons] at h
    exact h.1.append (ih h.2)

/-- Texts with a line end between them. -/
theorem Writes.intercalate {texts : List String} {parts : List (List (Target × Value))}
    (h : List.Forall₂ (fun text ps => Writes addressing text.toList ps) texts parts) :
    Writes addressing ("\n".intercalate texts).toList parts.flatten := by
  induction h with
  | nil => exact Writes.nil
  | @cons text ps texts parts htext htexts ih =>
    cases htexts with
    | nil => simpa using htext
    | @cons other qs others more hother hothers =>
      have hmore := htext.append (Writes.newline.append ih)
      rw [String.intercalate_cons_cons, String.toList_append, String.toList_append,
        List.append_assoc]
      exact hmore

end Decoding

namespace VarFile

open Decoding (Writes)
open Pack (Addressable)

variable {addressing : Addressing} {r : Resolved} {p : Pack}

/-- The variables of a pack with their values. -/
def nodeAssignments (r : Resolved) (node : PackNode) : List (Target × Value) :=
  let id := r.scheme.packageId node.path
  ((r.package? id).getD []).values.map fun v => (⟨id, v.name⟩, v.value)

/-- The variables of all packs of a tree with their values. -/
def assignments (r : Resolved) (p : Pack) : List (Target × Value) :=
  p.walk.flatMap (nodeAssignments r)

theorem comment_writes (text : String) : Writes addressing (comment text).toList [] := by
  have hlines : ∀ line ∈ Text.lines text, Writes addressing (s!"# {line}\n").toList [] := by
    intro line hline
    have hcomment : Writes addressing ('#' :: ((' ' :: line.toList) ++ ['\n'])) [] := by
      refine Writes.comment ?_
      simp [Text.newline_not_mem_of_mem_lines hline]
    have htext : (s!"# {line}\n").toList = '#' :: ((' ' :: line.toList) ++ ['\n']) := by
      simp [toString]
    rw [htext]
    exact hcomment
  have hjoin := Writes.join hlines
  rwa [List.flatMap_eq_nil_iff.2 fun _ _ => rfl] at hjoin

/-- Whether the name of a variable is an identifier, and bare keys in its value are words. -/
def Writable (v : Variable) : Prop := isIdentifier v.name = true ∧ v.value.HasWordKeys

variable {scheme : Scheme} {path : List String} {v : Variable}

theorem entry_writes (scheme : Scheme) (root : PackageId) (hpath : Addressable path)
    (hv : Writable v) :
    Writes ⟨root, scheme⟩ (entry scheme (scheme.packageId path) v).toList
      [(⟨scheme.packageId path, v.name⟩, v.value)] := by
  rcases scheme.exists_segments root hpath.1 v.name with ⟨first, names, haddress, hkey, hnames⟩
  have hwords : ∀ n ∈ first :: names, Value.IsWord n := by
    intro n hn
    rcases hnames n hn with hmem | rfl
    · exact Value.isWord_of_isIdentifier (hpath.2 n hmem)
    · exact Value.isWord_of_isIdentifier hv.1
  have hline := @Writes.assignment ⟨root, scheme⟩ first names _ v.value hkey hwords hv.2
  have hdescription : Writes ⟨root, scheme⟩ ((v.description.map comment).getD "").toList [] := by
    cases v.description with
    | none => exact Writes.nil
    | some text => exact comment_writes text
  have hentry := Writes.newline.append (hdescription.append hline)
  have htext : (entry scheme (scheme.packageId path) v).toList =
      ['\n'] ++ (((v.description.map comment).getD "").toList ++
        (Text.joinDots (first :: names) ++ " = " ++ v.value.literal ++ "\n").toList) := by
    unfold entry
    rw [haddress]
    simp
  rw [htext]
  exact hentry

theorem newline_not_mem_packageId (hpath : Addressable path) :
    '\n' ∉ (scheme.packageId path).text.toList := by
  have hparts : ∀ s ∈ path, '\n' ∉ s.toList :=
    fun s hs => newline_not_mem_of_isIdentifier (hpath.2 s hs)
  cases scheme with
  | hierarchical => exact Text.newline_not_mem_joinDots hparts
  | flat =>
    cases hlast : path.getLast? with
    | none => exact absurd (List.getLast?_eq_none_iff.1 hlast) hpath.1
    | some last =>
      simp only [Scheme.packageId, hlast, Option.getD_some]
      exact hparts last (List.mem_of_getLast? hlast)

theorem heading_writes (scheme : Scheme) (hpath : Addressable path) :
    Writes addressing (s!"# Variables for pack {(scheme.packageId path).text}\n").toList [] := by
  have hid : '\n' ∉ (scheme.packageId path).text.toList := newline_not_mem_packageId hpath
  have hline : '\n' ∉ " Variables for pack ".toList ++ (scheme.packageId path).text.toList := by
    rw [List.mem_append, not_or]
    exact ⟨by decide, hid⟩
  have htext : (s!"# Variables for pack {(scheme.packageId path).text}\n").toList =
      '#' :: ((" Variables for pack ".toList ++ (scheme.packageId path).text.toList) ++
        ['\n']) := by
    simp [toString]
  rw [htext]
  exact Writes.comment hline

theorem packageText_writes (root : PackageId) (hpath : Addressable path) {vars : Dict Variable}
    (hvars : ∀ v ∈ vars.values, Writable v) :
    Writes ⟨root, scheme⟩ (packageText scheme (scheme.packageId path) vars).toList
      (vars.values.map fun v => (⟨scheme.packageId path, v.name⟩, v.value)) := by
  have hentries := Writes.join fun v hv => entry_writes scheme root hpath (hvars v hv)
  have hsingles : vars.values.flatMap (fun v => [(⟨scheme.packageId path, v.name⟩, v.value)]) =
      vars.values.map fun v => ((⟨scheme.packageId path, v.name⟩ : Target), v.value) :=
    List.map_eq_flatMap.symm
  rw [hsingles] at hentries
  have htext : (packageText scheme (scheme.packageId path) vars).toList =
      (s!"# Variables for pack {(scheme.packageId path).text}\n").toList ++
        (String.join (vars.values.map (entry scheme (scheme.packageId path)))).toList :=
    String.toList_append
  have hboth := (@heading_writes ⟨root, scheme⟩ path scheme hpath).append hentries
  rw [List.nil_append] at hboth
  rw [htext]
  exact hboth

/-- The text for a pack, if there is one, sets the pack's variables. -/
theorem nodeText?_writes (root : PackageId) {node : PackNode} (hpath : Addressable node.path)
    (hvars : ∀ vars, r.package? (r.scheme.packageId node.path) = some vars →
      ∀ v ∈ vars.values, Writable v) :
    nodeText? r node = none ∧ nodeAssignments r node = [] ∨
      ∃ text, nodeText? r node = some text ∧
        Writes ⟨root, r.scheme⟩ text.toList (nodeAssignments r node) := by
  cases hpackage : r.package? (r.scheme.packageId node.path) with
  | none => exact .inl (by simp [nodeText?, nodeAssignments, hpackage, Dict.values])
  | some vars =>
    cases vars with
    | nil => exact .inl (by simp [nodeText?, nodeAssignments, hpackage, Dict.values])
    | cons entry rest =>
      have htext : nodeText? r node =
          some (packageText r.scheme (r.scheme.packageId node.path) (entry :: rest)) := by
        simp only [nodeText?, hpackage]
      have hassignments : nodeAssignments r node = (Dict.values (entry :: rest)).map
          fun v => (⟨r.scheme.packageId node.path, v.name⟩, v.value) := by
        simp only [nodeAssignments, hpackage, Option.getD_some]
      rw [hassignments]
      exact .inr ⟨_, htext, packageText_writes root hpath (hvars _ hpackage)⟩

/-- The parts of the file, pack by pack: the packs that leave no text set nothing. -/
theorem exists_nodeParts (root : PackageId) {nodes : List PackNode}
    (h : ∀ node ∈ nodes, nodeText? r node = none ∧ nodeAssignments r node = [] ∨
      ∃ text, nodeText? r node = some text ∧
        Writes ⟨root, r.scheme⟩ text.toList (nodeAssignments r node)) :
    ∃ parts, List.Forall₂ (fun text ps => Writes ⟨root, r.scheme⟩ text.toList ps)
      (nodes.filterMap (nodeText? r)) parts ∧
        parts.flatten = nodes.flatMap (nodeAssignments r) := by
  induction nodes with
  | nil => exact ⟨[], .nil, rfl⟩
  | cons node nodes ih =>
    rw [List.forall_mem_cons] at h
    rcases ih h.2 with ⟨parts, hparts, hflat⟩
    rcases h.1 with ⟨hnone, hempty⟩ | ⟨text, htext, hwrites⟩
    · refine ⟨parts, ?_, ?_⟩
      · rwa [List.filterMap_cons_none hnone]
      · rw [List.flatMap_cons, hempty, hflat, List.nil_append]
    · refine ⟨nodeAssignments r node :: parts, ?_, ?_⟩
      · rw [List.filterMap_cons_some htext]
        exact .cons hwrites hparts
      · rw [List.flatMap_cons, List.flatten_cons, hflat]

/-- The file for a tree sets every variable of every pack to its value. -/
theorem generate_writes (root : PackageId) (hpaths : ∀ node ∈ p.walk, Addressable node.path)
    (hvars : ∀ node ∈ p.walk, ∀ vars, r.package? (r.scheme.packageId node.path) = some vars →
      ∀ v ∈ vars.values, Writable v) :
    Writes ⟨root, r.scheme⟩ (generate r p).toList (assignments r p) := by
  rcases exists_nodeParts root fun node hnode => nodeText?_writes root (hpaths node hnode)
    (hvars node hnode) with ⟨parts, hparts, hflat⟩
  unfold assignments
  rw [← hflat]
  exact Writes.intercalate hparts

end VarFile

end Overlay
