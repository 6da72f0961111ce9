import Overlay.Proofs.Resolution.PackageIds
import Overlay.Proofs.Resolution.Sources
import Overlay.Proofs.Resolution.VarFile

/-!
# Resolving the override file of a resolution

The file that a resolution of texts generates sets every variable once, so resolving the same
declarations with that file alone gives the same values, up to infinite numbers.

* `Covers`: the packages of a resolution are packs of the tree, under different IDs. Then the
  assignments in the file are the variables with their values, each once (`mem_assignments`,
  `nodup_assignments`).
* `source_generated`: the file is decoded without diagnostics, to one override for each variable.
* `applyAll_distinct`: overrides of different variables are applied independently of each other.
* `resolve_generated`: the resolution with the file alone gives every variable the finite part of
  its value. No literal stands for an infinite number; `null` is written in its place.
-/

namespace Overlay

/-! ## The assignments of a resolution -/

namespace VarFile

variable {r : Resolved} {p : Pack} {target : Target} {value : Value}

/-- Whether the packages of a resolution are packs of a tree, no two of which have one ID. -/
structure Covers (p : Pack) (r : Resolved) : Prop where
  wellFormed : r.packages.WellFormed
  distinct : (p.walk.map fun node => r.scheme.packageId node.path).Nodup
  walked : ∀ id vars, r.package? id = some vars →
    ∃ node ∈ p.walk, r.scheme.packageId node.path = id

/-- A variable of a package is found under its name. -/
theorem Covers.find? (h : Covers p r) {id : PackageId} {vars : Dict Variable}
    (hvars : r.package? id = some vars) {v : Variable} (hv : v ∈ vars.values) :
    r.get? ⟨id, v.name⟩ = some v := by
  have hformed := h.wellFormed.each _ (Dict.mem_of_find? hvars)
  rcases List.mem_map.1 hv with ⟨⟨key, w⟩, hmem, rfl⟩
  have hname : w.name = key := (hformed.each _ hmem).1
  have hfind := Dict.find?_of_mem (Dict.nodup_keys hformed.ascending) hmem
  have hpackage : r.packages.package? id = some vars := hvars
  rw [Resolved.get?, VariableMap.lookup?, hpackage, Option.bind_some, hname]
  exact hfind

theorem mem_nodeAssignments (h : Covers p r) {node : PackNode} :
    (target, value) ∈ nodeAssignments r node ↔
      target.package = r.scheme.packageId node.path ∧
        (r.get? target).map Variable.value = some value := by
  unfold nodeAssignments
  constructor
  · intro hmem
    rcases List.mem_map.1 hmem with ⟨v, hv, heq⟩
    cases heq
    cases hvars : r.package? (r.scheme.packageId node.path) with
    | none => simp [hvars, Dict.values] at hv
    | some vars =>
      rw [hvars, Option.getD_some] at hv
      refine ⟨rfl, ?_⟩
      rw [h.find? hvars hv]
      rfl
  · rintro ⟨hpackage, hvalue⟩
    rcases Option.map_eq_some_iff.1 hvalue with ⟨v, hv, rfl⟩
    rcases Option.bind_eq_some_iff.1 hv with ⟨vars, hvars, hfind⟩
    have hentry := Dict.mem_of_find? hfind
    -- An entry stands under the name of its variable.
    have hname : v.name = target.variableName :=
      ((h.wellFormed.each _ (Dict.mem_of_find? hvars)).each _ hentry).1
    have hvars : r.package? (r.scheme.packageId node.path) = some vars := by
      rw [← hpackage]
      exact hvars
    dsimp only
    rw [hvars, Option.getD_some, ← hpackage]
    exact List.mem_map.2 ⟨v, List.mem_map_of_mem hentry, by rw [hname]⟩

/-- The assignments are the variables with their values. -/
theorem mem_assignments (h : Covers p r) :
    (target, value) ∈ assignments r p ↔ (r.get? target).map Variable.value = some value := by
  unfold assignments
  rw [List.mem_flatMap]
  constructor
  · rintro ⟨node, -, hmem⟩
    exact ((mem_nodeAssignments h).1 hmem).2
  · intro hvalue
    rcases Option.map_eq_some_iff.1 hvalue with ⟨v, hv, -⟩
    rcases Option.bind_eq_some_iff.1 hv with ⟨vars, hvars, -⟩
    rcases h.walked target.package vars hvars with ⟨node, hnode, hid⟩
    exact ⟨node, hnode, (mem_nodeAssignments h).2 ⟨hid.symm, hvalue⟩⟩

/-- Every variable is assigned once. -/
theorem nodup_assignments (h : Covers p r) : ((assignments r p).map Prod.fst).Nodup := by
  unfold assignments
  rw [List.map_flatMap, List.nodup_flatMap]
  constructor
  · intro node hnode
    cases hvars : r.package? (r.scheme.packageId node.path) with
    | none => simp [nodeAssignments, hvars, Dict.values]
    | some vars =>
      -- In one package the names of the variables are the keys, which ascend.
      have hformed := h.wellFormed.each _ (Dict.mem_of_find? hvars)
      have htargets : (nodeAssignments r node).map Prod.fst =
          (Dict.keys vars).map (Target.mk (r.scheme.packageId node.path)) := by
        unfold nodeAssignments
        dsimp only
        rw [hvars, Option.getD_some, List.map_map, Dict.values, Dict.keys, List.map_map,
          List.map_map]
        refine List.map_congr_left fun entry hentry => ?_
        have hname := (hformed.each entry hentry).1
        simp [hname]
      rw [htargets]
      refine (Dict.nodup_keys hformed.ascending).map fun a b hab => ?_
      cases hab
      rfl
  · -- Packages have different IDs.
    refine (List.pairwise_map.1 h.distinct).imp fun {a b} hne => ?_
    intro t ha hb
    have hid : ∀ node, t ∈ (nodeAssignments r node).map Prod.fst →
        t.package = r.scheme.packageId node.path := by
      intro node hmem
      rcases List.mem_map.1 hmem with ⟨pair, hpair, rfl⟩
      exact ((mem_nodeAssignments h).1 hpair).1
    exact hne ((hid a ha).symm.trans (hid b hb))

end VarFile

/-! ## Decoding the file -/

namespace Decoding

variable {os : List Override} {ps : List (Target × Value)}

theorem targets_of_setsLiteral (h : List.Forall₂ SetsLiteral os ps) :
    os.map Override.target = ps.map Prod.fst := by
  induction h with
  | nil => rfl
  | cons hfirst _ ih => rw [List.map_cons, List.map_cons, hfirst.1, ih]

theorem exists_setsLiteral (h : List.Forall₂ SetsLiteral os ps) :
    (∀ o ∈ os, ∃ p ∈ ps, SetsLiteral o p) ∧ ∀ p ∈ ps, ∃ o ∈ os, SetsLiteral o p := by
  induction h with
  | nil => simp
  | @cons o p os ps hfirst _ ih =>
    constructor
    · intro x hx
      rcases List.mem_cons.1 hx with rfl | hx
      · exact ⟨p, List.mem_cons_self, hfirst⟩
      · rcases ih.1 x hx with ⟨q, hq, hsets⟩
        exact ⟨q, List.mem_cons_of_mem _ hq, hsets⟩
    · intro q hq
      rcases List.mem_cons.1 hq with rfl | hq
      · exact ⟨o, List.mem_cons_self, hfirst⟩
      · rcases ih.2 q hq with ⟨x, hx, hsets⟩
        exact ⟨x, List.mem_cons_of_mem _ hx, hsets⟩

/-- The file of a resolution is decoded without diagnostics, to one override for each variable. -/
theorem source_generated {p : Pack} {r : Resolved} (root : PackageId) (hp : p.Made)
    (hcovers : VarFile.Covers p r) (hwritable : ∀ target v, r.get? target = some v →
      VarFile.Writable v ∧ v.value.Ordered) (filename : String) :
    ∃ os, List.Forall₂ SetsLiteral os (VarFile.assignments r p) ∧
      source ⟨root, r.scheme⟩ filename (VarFile.generate r p) .native =
        ⟨filename, VarFile.generate r p, ⟨os⟩, []⟩ := by
  have hwrites := @VarFile.generate_writes r p root (Pack.walk_addressable hp)
    fun node _ vars hvars v hv => (hwritable _ v (hcovers.find? hvars hv)).1
  have hordered : ∀ a ∈ VarFile.assignments r p, a.2.Ordered := by
    rintro ⟨target, value⟩ ha
    rcases Option.map_eq_some_iff.1 ((VarFile.mem_assignments hcovers).1 ha) with ⟨v, hv, rfl⟩
    exact (hwritable target v hv).2
  rcases @native_of_writes _ _ _ filename hwrites hordered (VarFile.nodup_assignments hcovers) with
    ⟨os, hos, hnative⟩
  refine ⟨os, hos, ?_⟩
  unfold source
  dsimp only
  rw [hnative]
  rfl

end Decoding

/-! ## Overrides of different variables -/

namespace Resolution

variable {ignoreMissing : Bool} {tier : Tier} {vars : VariableMap} {os : List Override}
  {c : Configuration} {readers : Readers}

theorem filter_target_eq (hdistinct : (os.map Override.target).Nodup) {o : Override} (ho : o ∈ os) :
    (os.filter fun x => x.target = o.target) = [o] := by
  induction os with
  | nil => cases ho
  | cons x xs ih =>
    rw [List.map_cons, List.nodup_cons] at hdistinct
    rcases List.mem_cons.1 ho with rfl | ho
    · have hnone : (xs.filter fun x => x.target = o.target) = [] := by
        rw [List.filter_eq_nil_iff]
        intro y hy hsame
        exact hdistinct.1 (List.mem_map.2 ⟨y, hy, by simpa using hsame⟩)
      rw [List.filter_cons_of_pos (by simp), hnone]
    · have hne : x.target ≠ o.target :=
        fun heq => hdistinct.1 (heq ▸ List.mem_map_of_mem ho)
      rw [List.filter_cons_of_neg (by simpa using hne), ih hdistinct.2 ho]

/-- Overrides of different variables that convert one by one are applied without diagnostics, and
each variable is what its own override makes of it. -/
theorem applyAll_distinct (hdistinct : (os.map Override.target).Nodup)
    (hconvert : ∀ o ∈ os, ∃ v w, vars.lookup? o.target = some v ∧ v.applyOverride o = .ok w) :
    (applyAll ignoreMissing tier vars os).2 = [] ∧ ∀ o ∈ os, ∀ v w,
      vars.lookup? o.target = some v → v.applyOverride o = .ok w →
        (applyAll ignoreMissing tier vars os).1.lookup? o.target = some w := by
  have hsilent : (applyAll ignoreMissing tier vars os).2 = [] := by
    induction os generalizing vars with
    | nil => rfl
    | cons o rest ih =>
      rw [List.map_cons, List.nodup_cons] at hdistinct
      rw [List.forall_mem_cons] at hconvert
      rcases hconvert.1 with ⟨v, w, hv, hw⟩
      have happly : apply ignoreMissing tier vars o = (replace vars o.target w, []) := by
        simp only [apply, hv, hw]
      have hrest := ih hdistinct.2 fun x hx => by
        -- The variables of the other overrides are still as they were.
        have hne : x.target ≠ o.target :=
          fun heq => hdistinct.1 (heq ▸ List.mem_map_of_mem hx)
        rw [lookup?_replace_of_ne hne vars w]
        exact hconvert.2 x hx
      simp only [applyAll, happly, hrest, List.append_nil]
  refine ⟨hsilent, fun o ho v w hv hw => ?_⟩
  have hclean : (applyAll ignoreMissing tier vars os).2.hasErrors = false := by
    rw [hsilent]
    rfl
  rcases applyAll_run hclean hv with ⟨u, hu, hrun⟩
  rw [filter_target_eq hdistinct ho, Variable.applyOverrides_singleton, hw] at hrun
  cases hrun
  exact hu

/-! ## Resolving with one file -/

/-- A resolution that succeeds read its declarations without errors, and keeps the addressing. -/
theorem resolve_frame {r : Resolved} (h : c.resolve readers = .ok r) :
    (collect c.declarations).2.hasErrors = false ∧ r.scheme = c.scheme := by
  rw [Configuration.resolve_eq] at h
  dsimp only at h
  split at h
  · cases h
  · next hfront =>
    refine ⟨by simpa using hfront, ?_⟩
    split at h
    · cases h
    · split at h
      · cases h
      · split at h
        · cases h
        · cases h
          rfl

section OneFile

attribute [local irreducible] Decoding.file

/-- With one file that is decoded and applied without diagnostics, a resolution is what applying its
overrides makes of the declared variables. -/
theorem resolve_one_file {path filename content : String} (henv : c.environment = [])
    (hfiles : c.files = [path]) (hcli : c.cli = []) (hsupplied : c.supplied = [])
    (hcollect : (collect c.declarations).2.hasErrors = false)
    (hfile : Decoding.file c.addressing readers path = .ok ⟨filename, content, ⟨os⟩, []⟩)
    (happly : (applyAll c.ignoreMissing .file (collect c.declarations).1 os).2 = []) :
    c.resolve readers = .ok ⟨c.root, c.scheme,
      (applyAll c.ignoreMissing .file (collect c.declarations).1 os).1⟩ := by
  have hsets : decodeFiles c.addressing readers c.files = .ok ([⟨os⟩], []) := by
    rw [hfiles, decodeFiles_cons, hfile]
    rfl
  have hdecode : decode c readers (collect c.declarations).1 =
      .ok (⟨.empty, [⟨os⟩], .empty⟩, []) := by
    simp only [decode, hsets, henv, hcli, hsupplied]
    rfl
  have hmerge : merge c.ignoreMissing (collect c.declarations).1 ⟨.empty, [⟨os⟩], .empty⟩ =
      ((applyAll c.ignoreMissing .file (collect c.declarations).1 os).1, []) := by
    simp only [merge, OverrideSet.empty, applyAll, List.flatMap_cons, List.flatMap_nil,
      List.append_nil, happly]
  rw [Configuration.resolve_eq]
  simp only [hcollect, hdecode, hmerge, List.append_nil]
  rfl

end OneFile

/-- The packages of a resolution of a tree are packs of the tree. -/
theorem covers_of_resolve {p : Pack} {scheme : Scheme} {r : Resolved}
    (hpack : (p.walk.map fun node => scheme.packageId node.path).Nodup)
    (hscheme : c.scheme = scheme)
    (hdeclarations : c.declarations = .ofPairs (Configuration.sources p scheme))
    (hsupplied : c.supplied = []) (hr : c.resolve readers = .ok r) : VarFile.Covers p r := by
  have hsources : Dict.Ascending c.declarations := by
    rw [hdeclarations]
    exact Dict.ascending_ofPairs _
  have hsame : r.scheme = scheme := (resolve_frame hr).2.trans hscheme
  rcases resolve_stems hsources hsupplied hr with ⟨-, hformed, hnames⟩
  refine ⟨hformed, by rwa [hsame], ?_⟩
  intro id vars hvars
  -- Resolution keeps the packages that were declared.
  have hkeys : Dict.keys r.packages = Dict.keys c.declarations := by
    have hcongr := congrArg Dict.keys hnames
    rw [VariableMap.keys_names, VariableMap.keys_names, keys_collect] at hcongr
    exact hcongr
  have hmem : id.text ∈ Dict.keys c.declarations := by
    rw [← hkeys]
    exact Dict.mem_keys_of_mem (Dict.mem_of_find? hvars)
  rcases List.mem_map.1 hmem with ⟨entry, hentry, htext⟩
  rw [hdeclarations] at hentry
  rcases List.mem_filterMap.1 (Dict.mem_ofPairs hentry) with ⟨node, hnode, hsource⟩
  rcases Option.map_eq_some_iff.1 hsource with ⟨source, -, rfl⟩
  exact ⟨node, hnode, by rw [hsame]; exact congrArg PackageId.mk htext⟩

/-- The override that a generated file holds of a variable gives it the finite part of its value. -/
theorem applyOverride_literal {declared : VariableMap} {r : Resolved} {u : Variable} {o : Override}
    {target : Target} (hstems : declared.Stems r.packages) (hu : r.get? target = some u)
    (ho : Decoding.SetsLiteral o (target, u.value)) :
    ∃ v w, declared.lookup? o.target = some v ∧ v.applyOverride o = .ok w ∧
      w.value = u.value.finitePart := by
  rcases ho with ⟨htarget, hvalue, htype⟩
  have htarget : o.target = target := htarget
  have hvalue : o.value = u.value.readBack := hvalue
  cases hv : declared.lookup? target with
  | none =>
    have hnone : r.get? target = none := hstems.eq_none_iff.2 hv
    rw [hu] at hnone
    cases hnone
  | some v =>
    have hunder : v.typeUnder o = u.type := by
      rw [hstems.type_eq hv hu, Variable.typeUnder, htype]
      rfl
    -- The value conforms to the type it was resolved with, and so does its literal, read back.
    have hconform := (hstems.sourced target u hu).rereads.2.1
    have hstep : v.applyOverride o = .ok { v with
        type := u.type
        default := some u.value.finitePart
        value := u.value.finitePart } := by
      simp only [Variable.applyOverride, hunder, hvalue, hconform]
    rw [htarget]
    exact ⟨v, _, hv, hstep, rfl⟩

/-- The overrides of a generated file are applied without diagnostics, and give every variable the
finite part of its value. -/
theorem applyAll_literals {declared : VariableMap} {r : Resolved} {p : Pack}
    (hstems : declared.Stems r.packages) (hcovers : VarFile.Covers p r)
    (hos : List.Forall₂ Decoding.SetsLiteral os (VarFile.assignments r p)) :
    (applyAll ignoreMissing tier declared os).2 = [] ∧ ∀ target u, r.get? target = some u →
      ((applyAll ignoreMissing tier declared os).1.lookup? target).map Variable.value =
        some u.value.finitePart := by
  rcases Decoding.exists_setsLiteral hos with ⟨hset, hall⟩
  -- No target is set twice, so each override meets the variable as it was declared.
  have htargets : (os.map Override.target).Nodup := by
    rw [Decoding.targets_of_setsLiteral hos]
    exact VarFile.nodup_assignments hcovers
  have hconvert : ∀ o ∈ os, ∃ v w, declared.lookup? o.target = some v ∧
      v.applyOverride o = .ok w := by
    intro o ho
    rcases hset o ho with ⟨⟨target, value⟩, hmem, hsets⟩
    rcases Option.map_eq_some_iff.1 ((VarFile.mem_assignments hcovers).1 hmem) with ⟨u, hu, rfl⟩
    rcases applyOverride_literal hstems hu hsets with ⟨v, w, hv, hw, -⟩
    exact ⟨v, w, hv, hw⟩
  have hrun := @applyAll_distinct ignoreMissing tier declared os htargets hconvert
  refine ⟨hrun.1, ?_⟩
  intro target u hu
  have hmem : (target, u.value) ∈ VarFile.assignments r p := by
    rw [VarFile.mem_assignments hcovers, hu, Option.map_some]
  rcases hall _ hmem with ⟨o, ho, hsets⟩
  rcases applyOverride_literal hstems hu hsets with ⟨v, w, hv, hw, hvalue⟩
  have hlast := hrun.2 o ho v w hv hw
  have htarget : o.target = target := hsets.1
  rw [htarget] at hlast
  rw [hlast, Option.map_some, hvalue]

/-- With the generated file alone, every variable has the finite part of its value. -/
theorem resolve_literals {p : Pack} {r : Resolved} {path filename content : String}
    (henv : c.environment = []) (hfiles : c.files = [path]) (hcli : c.cli = [])
    (hsupplied : c.supplied = []) (hsources : Dict.Ascending c.declarations)
    (hcollect : (collect c.declarations).2.hasErrors = false)
    (hstems : (collect c.declarations).1.Stems r.packages) (hcovers : VarFile.Covers p r)
    (hos : List.Forall₂ Decoding.SetsLiteral os (VarFile.assignments r p))
    (hfile : Decoding.file c.addressing readers path = .ok ⟨filename, content, ⟨os⟩, []⟩) :
    ∃ s, c.resolve readers = .ok s ∧ ∀ target, (s.get? target).map Variable.value =
      (r.get? target).map fun v => v.value.finitePart := by
  have hrun := @applyAll_literals c.ignoreMissing .file os _ r p hstems hcovers hos
  have hs := resolve_one_file henv hfiles hcli hsupplied hcollect hfile hrun.1
  -- This resolution is one of texts, too, so it has no other variables.
  rcases resolve_stems hsources hsupplied hs with ⟨hsame, -, -⟩
  refine ⟨_, hs, ?_⟩
  intro target
  cases hu : r.get? target with
  | none =>
    have hnone := hsame.eq_none_iff.2 (hstems.eq_none_iff.1 hu)
    rw [Resolved.get?, hnone]
    rfl
  | some u => exact hrun.2 target u hu

/-- A resolution of texts generates a file that is decoded without diagnostics. Resolving the same
tree with that file alone gives every variable the finite part of its value, so the same value
where no number in it is infinite. Keys that are written without quotes have to be words. -/
theorem resolve_generated {p : Pack} {scheme : Scheme} {c : Configuration} (hp : p.Made)
    (hc : Configuration.ofPack p scheme = .ok c) {environment cli : Dict String}
    {files : List String} {ignoreMissing : Bool} {r : Resolved}
    (hr : Configuration.resolve { c with environment, files, cli, ignoreMissing } readers = .ok r)
    (hkeys : ∀ target v, r.get? target = some v → v.value.HasWordKeys)
    {path : String} {again : Readers} (hformat : Format.ofPath? path = some .native)
    (hread : again.file path = .ok (VarFile.generate r p)) :
    (∀ filename, (Decoding.source c.addressing filename (VarFile.generate r p)
        .native).diagnostics = []) ∧
      ∃ s, Configuration.resolve { c with files := [path] } again = .ok s ∧ ∀ target,
        (s.get? target).map Variable.value =
            (r.get? target).map (fun v => v.value.finitePart) ∧
          ∀ v, r.get? target = some v → v.value.IsFinite →
            (s.get? target).map Variable.value = some v.value := by
  rcases Configuration.ofPack_eq_ok hc with ⟨hdistinct, rfl⟩
  have hsources := Dict.ascending_ofPairs (Configuration.sources p scheme)
  have hcovers := covers_of_resolve hdistinct rfl rfl rfl hr
  rcases resolve_frame hr with ⟨hcollect, hscheme⟩
  rcases resolve_stems hsources rfl hr with ⟨hstems, -, -⟩
  have hwritable : ∀ target v, r.get? target = some v →
      VarFile.Writable v ∧ v.value.Ordered := by
    intro target v hv
    have hsourced := hstems.sourced target v hv
    exact ⟨⟨hsourced.named, hkeys target v hv⟩, hsourced.rereads.1⟩
  have hdecode := Decoding.source_generated ⟨p.name⟩ hp hcovers hwritable
  rw [hscheme] at hdecode
  constructor
  · intro filename
    rcases hdecode filename with ⟨os, -, hsource⟩
    exact congrArg DecodedFile.diagnostics hsource
  · rcases hdecode path with ⟨os, hos, hsource⟩
    have hfile : Decoding.file ⟨⟨p.name⟩, scheme⟩ again path =
        .ok ⟨path, VarFile.generate r p, ⟨os⟩, []⟩ := by
      unfold Decoding.file
      rw [hformat, hread]
      exact congrArg Except.ok hsource
    let second : Configuration := {
      root := ⟨p.name⟩
      scheme
      declarations := .ofPairs (Configuration.sources p scheme)
      files := [path] }
    rcases @resolve_literals os second again p r path path _ rfl rfl rfl rfl hsources hcollect
      hstems hcovers hos hfile with ⟨s, hs, hvalues⟩
    refine ⟨s, hs, fun target => ⟨hvalues target, ?_⟩⟩
    intro v hv hfinite
    have hsame := (hstems.sourced target v hv).rereads.2.2 hfinite
    rw [hvalues target, hv, Option.map_some, hsame]

-- A key that is written without quotes is not always a word: this one is alphabetic, but no letter.
example : Value.isBareKey "ⅷ" = true ∧ (Hcl.Expr.parse
    (Value.literal (.object [("ⅷ", .null)])) "o.vars").diagnostics.hasErrors = true := by
  decide +kernel

/-- The declaration of a set of ports, with a description of two lines. -/
def portsSource : SourceFile :=
  ⟨"web.hcl",
    "variable \"ports\" \x7b\n  description = \"Open\\nports\"\n  type = set(number)\n\x7d\n"⟩

/-- The declaration of options. -/
def optionsSource : SourceFile :=
  ⟨"redis.hcl", "variable \"options\" \x7b\n  type = map(string)\n\x7d\n"⟩

/-- A pack that depends on another one under an alias. -/
def portsPack : Pack :=
  ⟨"web", none, {}, some portsSource, [⟨"redis", some "cache", {}, some optionsSource, []⟩]⟩

/-- The configuration of that tree in the flat scheme. -/
def portsConfiguration : Configuration where
  root := ⟨"web"⟩
  scheme := .flat
  declarations := [("cache", optionsSource), ("web", portsSource)]

/-- The text that is generated when the environment and a flag set both variables. -/
def portsFile : String :=
  "# Variables for pack web\n\n# Open\n# ports\nweb.ports = [80, 443]\n\n" ++
    "# Variables for pack cache\n\ncache.options = \x7b a = \"1\" \x7d\n"

theorem portsPack_made : portsPack.Made := by
  have hweb : Pack.ofName "web" = .ok ⟨"web", none, {}, none, []⟩ := rfl
  have hredis : Pack.ofName "redis" = .ok ⟨"redis", none, {}, none, []⟩ := rfl
  have hcache : Pack.withAlias ⟨"redis", none, {}, none, []⟩ "cache" =
      .ok ⟨"redis", some "cache", {}, none, []⟩ := rfl
  have hchild := (Pack.Made.withAlias (.ofName hredis) hcache).withVariables optionsSource
  exact .addDependency ((Pack.Made.ofName hweb).withVariables portsSource) hchild rfl

theorem resolve_generated_ports :
    ∃ r s, Configuration.resolve { portsConfiguration with
          environment := [("ports", "[\"80\", 80.0, 443]")]
          cli := [("cache.options", "\x7b a = 1 \x7d")] } FileTree.empty = .ok r ∧
      VarFile.generate r portsPack = portsFile ∧
      (Decoding.source portsConfiguration.addressing "/srv/o.vars" portsFile
        .native).diagnostics = [] ∧
      Configuration.resolve { portsConfiguration with files := ["/srv/o.vars"] }
          (FileTree.empty.add "/srv/o.vars" portsFile.toUTF8) = .ok s ∧
      (s.get? ⟨⟨"web"⟩, "ports"⟩).map Variable.value =
        some (.set [.number (.ofInt64 80), .number (.ofInt64 443)]) := by
  let texts : Configuration := { portsConfiguration with
    environment := [("ports", "[\"80\", 80.0, 443]")]
    cli := [("cache.options", "\x7b a = 1 \x7d")] }
  let again : Readers := FileTree.empty.add "/srv/o.vars" portsFile.toUTF8
  have hpack : Configuration.ofPack portsPack .flat = .ok portsConfiguration := by rfl
  have hvalues : (texts.resolve FileTree.empty).toOption.map
      (fun r => (r.packages.values.flatMap Dict.values).map Variable.value) =
        some [.map [("a", .string "1")], .set [.number (.ofInt64 80), .number (.ofInt64 443)]] := by
    decide +kernel
  have hports : (texts.resolve FileTree.empty).toOption.bind
      (fun r => (r.get? ⟨⟨"web"⟩, "ports"⟩).map fun v => v.value.finitePart) =
        some (.set [.number (.ofInt64 80), .number (.ofInt64 443)]) := by decide +kernel
  have htext : (texts.resolve FileTree.empty).toOption.map (fun r => VarFile.generate r portsPack) =
      some portsFile := by decide +kernel
  have hfile : (again.file "/srv/o.vars").toOption = some portsFile := by decide +kernel
  cases hr : texts.resolve FileTree.empty with
  | error ds => simp [hr, Except.toOption] at htext
  | ok r =>
    simp only [hr, Except.toOption, Option.map_some, Option.bind_some, Option.some.injEq]
      at hvalues hports htext
    have hkeys : ∀ target v, r.get? target = some v → v.value.HasWordKeys := by
      intro target v hv
      rcases Option.bind_eq_some_iff.1 hv with ⟨vars, hvars, hfind⟩
      have hmem : v.value ∈ (r.packages.values.flatMap Dict.values).map Variable.value :=
        List.mem_map_of_mem (List.mem_flatMap.2
          ⟨vars, List.mem_map_of_mem (Dict.mem_of_find? hvars),
            List.mem_map_of_mem (Dict.mem_of_find? hfind)⟩)
      rw [hvalues] at hmem
      rcases List.mem_pair.1 hmem with heq | heq
      · rw [heq]
        exact ⟨fun _ => Value.isWord_of_isIdentifier (by decide +kernel), trivial, trivial⟩
      · rw [heq]
        exact ⟨trivial, trivial, trivial⟩
    have hread : again.file "/srv/o.vars" = .ok (VarFile.generate r portsPack) := by
      cases hcontent : again.file "/srv/o.vars" with
      | error f => simp [hcontent, Except.toOption] at hfile
      | ok content =>
        have heq : content = portsFile := by simpa [hcontent, Except.toOption] using hfile
        rw [htext, heq]
    rcases resolve_generated portsPack_made hpack hr hkeys (by decide +kernel) hread with
      ⟨hsilent, s, hs, hsame⟩
    rw [htext] at hsilent
    exact ⟨r, s, rfl, htext, hsilent "/srv/o.vars", hs, (hsame _).1.trans hports⟩

/-- A pack that declares an infinite number. -/
def infinitePack : Pack :=
  ⟨"web", none, {},
    some ⟨"v.hcl", "variable \"x\" \x7b\n  type = number\n  default = \"inf\"\n\x7d\n"⟩, []⟩

/-- The file that is generated for it. -/
def infiniteFile : String := "# Variables for pack web\n\nweb.x = null\n"

/-- An infinite number is resolved, but the file that is generated resolves to `null`. -/
theorem infinite_not_regenerated :
    infinitePack.Made ∧ ∃ c, Configuration.ofPack infinitePack .hierarchical = .ok c ∧
      (c.resolve FileTree.empty).toOption.map (fun r => VarFile.generate r infinitePack) =
        some infiniteFile ∧
      ((c.resolve FileTree.empty).toOption.bind fun r => (r.get? ⟨⟨"web"⟩, "x"⟩).map Variable.value) =
        some (.number (.infinite false)) ∧
      ((Configuration.resolve { c with files := ["o.vars"] }
        (FileTree.empty.add "o.vars" infiniteFile.toUTF8)).toOption.bind fun s =>
          (s.get? ⟨⟨"web"⟩, "x"⟩).map Variable.value) = some .null := by
  have hweb : Pack.ofName "web" = .ok ⟨"web", none, {}, none, []⟩ := rfl
  refine ⟨(Pack.Made.ofName hweb).withVariables _, _, rfl, ?_⟩
  decide +kernel

end Resolution

end Overlay
