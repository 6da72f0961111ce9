import Overlay.Proofs.Resolution.Precedence
import Overlay.Proofs.Value.Conversion

/-!
# Variables conform to their types

What holds of every variable from its declaration on, whatever overrides are applied.

* `Variable.Conforming`: the value is converted to the type, and it is the default, or `null`
  without one. A declaration makes such a variable (`collect_wellFormed`).
* `apply_cases` says all that an application does: it gives one declared variable what
  `applyOverride` makes of it, or it leaves every variable alone.
* `run` applies overrides one by one, each in its tier; a merge is such a run (`merge_eq_run`).
* `run_conforming`: behind every step of a run all variables conform, and packages and names are
  those that were declared.
-/

namespace Overlay

/-! ## One variable -/

namespace Variable

variable {v w : Variable} {o : Override}

/-- Whether the value is what type and default say it is. -/
structure Conforming (v : Variable) : Prop where
  /-- The attributes in the type are in order. -/
  ordered : ∀ t, v.type = some t → t.Ordered
  /-- The value is converted to the type. -/
  converted : ∀ t, v.type = some t → v.value.convert t = .ok v.value
  /-- The value is the default, or `null` where there is none. -/
  defaulted : v.default = some v.value ∨ v.default = none ∧ v.value = .null

theorem typeUnder_ordered (hv : ∀ t, v.type = some t → t.Ordered)
    (ho : ∀ t, o.type = some t → t.Ordered) : ∀ t, v.typeUnder o = some t → t.Ordered := by
  intro t ht
  unfold typeUnder at ht
  cases htype : o.type with
  | none => exact hv t (by simpa [htype] using ht)
  | some u => exact ho t (by simpa [htype] using ht)

/-- An override that converts leaves a variable that conforms. -/
theorem applyOverride_conforming (hv : ∀ t, v.type = some t → t.Ordered)
    (ho : ∀ t, o.type = some t → t.Ordered) (h : v.applyOverride o = .ok w) : w.Conforming := by
  rcases applyOverride_eq_ok h with ⟨value, hvalue, rfl⟩
  have hunder := typeUnder_ordered hv ho
  refine ⟨hunder, ?_, .inl rfl⟩
  intro t (ht : v.typeUnder o = some t)
  rw [ht] at hvalue
  -- What is converted already does not change any more.
  exact Value.convert_again (hunder t ht) hvalue

theorem applyOverride_name (h : v.applyOverride o = .ok w) : w.name = v.name := by
  rcases applyOverride_eq_ok h with ⟨value, -, rfl⟩
  rfl

end Variable

/-! ## Declarations -/

namespace Declaration

variable {file name : String} {h : Hcl.Header} {span : Span} {d : Draft} {v : Variable}

/-- The type in a draft is one that an expression wrote. -/
theorem argument_ordered (hd : ∀ t, d.type = some t → t.Ordered) (a : Hcl.Attribute) :
    ∀ t, (d.argument file a).type = some t → t.Ordered := by
  unfold Draft.argument
  cases d.seen.find? a.name with
  | some first => exact hd
  | none =>
    dsimp only
    split_ifs
    · cases htype : ValueType.ofExpr a.expr with
      | ok t =>
        intro u hu
        cases hu
        exact ValueType.ofExpr_ordered a.expr htype
      | error f => exact hd
    · exact hd
    · split <;> exact hd
    · exact hd

theorem items_ordered (hd : ∀ t, d.type = some t → t.Ordered) (items : List Hcl.Item) :
    ∀ t, (items.foldl (Draft.item file) d).type = some t → t.Ordered := by
  induction items generalizing d with
  | nil => exact hd
  | cons x xs ih =>
    apply ih
    cases x with
    | attr a => exact argument_ordered hd a
    | block h items bodySpan span => exact hd

/-- A draft makes a variable that conforms. -/
theorem finish_conforming (hd : ∀ t, d.type = some t → t.Ordered)
    (hfinish : finish file name h span d = .ok v) : v.name = name ∧ v.Conforming := by
  unfold finish at hfinish
  cases htype : d.type with
  | none =>
    -- Without a type nothing is converted.
    simp only [htype, Except.ok.injEq] at hfinish
    subst hfinish
    refine ⟨rfl, by simp, by simp, ?_⟩
    cases d.default with
    | none => exact .inr ⟨rfl, rfl⟩
    | some x => exact .inl rfl
  | some t =>
    rw [htype] at hd
    cases hdefault : d.default with
    | none =>
      simp only [htype, hdefault, Except.ok.injEq] at hfinish
      subst hfinish
      exact ⟨rfl, hd, fun u _ => Value.convert_null u, .inr ⟨rfl, rfl⟩⟩
    | some x =>
      rcases x with ⟨value, valueSpan⟩
      simp only [htype, hdefault] at hfinish
      split at hfinish
      · next converted hconverted =>
        cases hfinish
        refine ⟨rfl, hd, ?_, .inl rfl⟩
        intro u hu
        cases hu
        exact Value.convert_again (hd t rfl) hconverted
      · cases hfinish

theorem variableOf_conforming {items : List Hcl.Item}
    (hvariable : variableOf file h items span = .ok v) : v.Conforming := by
  unfold variableOf at hvariable
  split at hvariable
  · split_ifs at hvariable
    dsimp only at hvariable
    split_ifs at hvariable
    · refine (finish_conforming ?_ (Value.mapError_eq_ok.1 hvariable)).2
      apply items_ordered
      intro t ht
      cases ht
  · cases hvariable

end Declaration

/-! ## All variables -/

/-- Whether every variable of a package stands once, under its name, and conforms. -/
structure PackageFormed (vars : Dict Variable) : Prop where
  ascending : Dict.Ascending vars
  each : ∀ entry ∈ vars, entry.2.name = entry.1 ∧ entry.2.Conforming

/-- Whether every package stands once and is well formed. -/
structure VariableMap.WellFormed (vars : VariableMap) : Prop where
  ascending : Dict.Ascending vars
  each : ∀ package ∈ vars, PackageFormed package.2

/-- The packages with the names of their variables. -/
def VariableMap.names (vars : VariableMap) : Dict (List String) := Dict.mapValues Dict.keys vars

theorem VariableMap.keys_names (vars : VariableMap) : Dict.keys vars.names = Dict.keys vars := by
  simp [VariableMap.names, Dict.mapValues, Dict.keys]

namespace PackageFormed

theorem nil : PackageFormed [] := ⟨Dict.ascending_nil, by simp⟩

/-- A variable that conforms may take its place. -/
theorem insert {vars : Dict Variable} (hvars : PackageFormed vars) {v : Variable}
    (hv : v.Conforming) : PackageFormed (Dict.insert v.name v vars) := by
  refine ⟨Dict.ascending_insert hvars.ascending _ _, ?_⟩
  intro entry hentry
  rcases Dict.mem_insert hentry with rfl | hold
  · exact ⟨rfl, hv⟩
  · exact hvars.each entry hold

end PackageFormed

namespace Declaration

/-- An item adds the variable of its block, or nothing. -/
theorem addItem_declared (file : String) (declared : Dict Variable) (x : Hcl.Item) :
    (addItem file declared x).1 = declared ∨
      ∃ (h : Hcl.Header) (items : List Hcl.Item) (span : Span) (v : Variable),
        variableOf file h items span = .ok v ∧
          (addItem file declared x).1 = declared.insert v.name v := by
  cases x with
  | attr a => exact .inl rfl
  | block h items bodySpan span =>
    simp only [addItem]
    split_ifs
    · exact .inl rfl
    · cases hvariable : variableOf file h items span with
      | error ds => exact .inl rfl
      | ok v =>
        cases hfirst : declared.find? v.name with
        | some first => exact .inl (by simp only [hfirst])
        | none => exact .inr ⟨h, items, span, v, hvariable, by simp only [hfirst]⟩

theorem addItem_formed {file : String} {declared : Dict Variable}
    (hdeclared : PackageFormed declared) (x : Hcl.Item) :
    PackageFormed (addItem file declared x).1 := by
  rcases addItem_declared file declared x with hsame | ⟨h, items, span, v, hvariable, hadded⟩
  · rw [hsame]
    exact hdeclared
  · rw [hadded]
    exact hdeclared.insert (variableOf_conforming hvariable)

theorem addItems_formed {file : String} {declared : Dict Variable}
    (hdeclared : PackageFormed declared) (items : List Hcl.Item) :
    PackageFormed (addItems file declared items).1 := by
  induction items generalizing declared with
  | nil => exact hdeclared
  | cons x xs ih => exact ih (addItem_formed hdeclared x)

/-- The variables that a file declares conform. -/
theorem collect_formed (source : SourceFile) : PackageFormed (collect source).1 :=
  addItems_formed PackageFormed.nil _

end Declaration

namespace Resolution

theorem keys_collect (sources : Dict SourceFile) :
    Dict.keys (collect sources).1 = Dict.keys sources := by
  induction sources with
  | nil => rfl
  | cons entry rest ih => exact congrArg (entry.1 :: ·) ih

/-- The variables that packages declare conform. -/
theorem collect_wellFormed {sources : Dict SourceFile} (hsources : Dict.Ascending sources) :
    (collect sources).1.WellFormed := by
  constructor
  · have hkeys := hsources
    rw [Dict.Ascending, ← keys_collect] at hkeys
    exact hkeys
  · induction sources with
    | nil => simp [collect]
    | cons entry rest ih =>
      intro package hpackage
      rcases List.mem_cons.1 hpackage with rfl | hrest
      · exact Declaration.collect_formed entry.2
      · exact ih (Dict.ascending_cons.1 hsources).2 package hrest

/-! ## One application -/

section Applying

variable {ignoreMissing : Bool} {tier : Tier} {vars : VariableMap} {o : Override}

/-- All that an application does. -/
theorem apply_cases (ignoreMissing : Bool) (tier : Tier) (vars : VariableMap) (o : Override) :
    (∃ v w, vars.lookup? o.target = some v ∧ v.applyOverride o = .ok w ∧
        apply ignoreMissing tier vars o = (replace vars o.target w, [])) ∨
      (vars.lookup? o.target = none ∨ (apply ignoreMissing tier vars o).2 ≠ []) ∧
        (apply ignoreMissing tier vars o).1 = vars := by
  unfold apply
  cases hv : vars.lookup? o.target with
  | none => exact .inr ⟨.inl rfl, rfl⟩
  | some v =>
    cases hw : v.applyOverride o with
    | error d => exact .inr ⟨.inr (by simp [hw]), by simp [hw]⟩
    | ok w => exact .inl ⟨v, w, rfl, hw, by simp [hw]⟩

/-- An application adds no variable. -/
theorem lookup?_apply_of_none (o : Override) {target : Target}
    (h : vars.lookup? target = none) :
    (apply ignoreMissing tier vars o).1.lookup? target = none := by
  rcases apply_cases ignoreMissing tier vars o with ⟨v, w, hv, -, happly⟩ | ⟨-, hsame⟩
  · have hne : target ≠ o.target := by
      rintro rfl
      simp [hv] at h
    rw [happly, lookup?_replace_of_ne hne]
    exact h
  · rw [hsame]
    exact h

/-- A variable in place of one with the same name: packages and names stay, and all conform. -/
theorem replace_wellFormed (hvars : vars.WellFormed) {target : Target} {v w : Variable}
    (hv : vars.lookup? target = some v) (hname : w.name = v.name) (hw : w.Conforming) :
    (replace vars target w).WellFormed ∧ (replace vars target w).names = vars.names := by
  rcases Option.bind_eq_some_iff.1 hv with ⟨declared, hdeclared, hfind⟩
  have hpackage := hvars.each _ (Dict.mem_of_find? hdeclared)
  have hentry := Dict.mem_of_find? hfind
  have hkey : target.variableName = w.name := by rw [hname, (hpackage.each _ hentry).1]
  have hreplace : replace vars target w =
      Dict.insert target.package.text (Dict.insert w.name w declared) vars := by
    simp only [replace, hdeclared, hkey]
  have hkeys : Dict.keys (Dict.insert w.name w declared) = Dict.keys declared := by
    apply Dict.keys_insert hpackage.ascending
    rw [← hkey]
    exact Dict.mem_keys_of_mem hentry
  rw [hreplace]
  refine ⟨⟨Dict.ascending_insert hvars.ascending _ _, ?_⟩, ?_⟩
  · intro package hmem
    rcases Dict.mem_insert hmem with rfl | hold
    · exact hpackage.insert hw
    · exact hvars.each package hold
  · exact Dict.mapValues_insert hvars.ascending hdeclared hkeys

/-- An application keeps packages and names, and all variables conform behind it. -/
theorem apply_wellFormed (hvars : vars.WellFormed) (ho : ∀ t, o.type = some t → t.Ordered) :
    (apply ignoreMissing tier vars o).1.WellFormed ∧
      (apply ignoreMissing tier vars o).1.names = vars.names := by
  rcases apply_cases ignoreMissing tier vars o with ⟨v, w, hv, hw, happly⟩ | ⟨-, hsame⟩
  · rcases Option.bind_eq_some_iff.1 hv with ⟨declared, hdeclared, hfind⟩
    have hpackage := hvars.each _ (Dict.mem_of_find? hdeclared)
    have hold := (hpackage.each _ (Dict.mem_of_find? hfind)).2
    have hconforming := Variable.applyOverride_conforming hold.ordered ho hw
    rw [happly]
    exact replace_wellFormed hvars hv (Variable.applyOverride_name hw) hconforming
  · rw [hsame]
    exact ⟨hvars, rfl⟩

end Applying

/-! ## Runs -/

/-- An override with the tier in which it is applied. -/
structure Step where
  tier : Tier
  override : Override

/-- Applies overrides one by one, each in its tier. -/
def run (ignoreMissing : Bool) (vars : VariableMap) : List Step → VariableMap × Diagnostics
  | [] => (vars, [])
  | step :: rest =>
    let (vars, ds) := apply ignoreMissing step.tier vars step.override
    let (vars, more) := run ignoreMissing vars rest
    (vars, ds ++ more)

/-- The overrides of all sources in the order in which a merge applies them. -/
def Overrides.steps (all : Overrides) : List Step :=
  all.environment.entries.map (Step.mk .environment) ++
    (all.files.flatMap OverrideSet.entries).map (Step.mk .file) ++
    all.cli.entries.map (Step.mk .cli)

variable {ignoreMissing : Bool} {vars : VariableMap}

theorem run_append (vars : VariableMap) (xs ys : List Step) :
    run ignoreMissing vars (xs ++ ys) =
      ((run ignoreMissing (run ignoreMissing vars xs).1 ys).1,
        (run ignoreMissing vars xs).2 ++
          (run ignoreMissing (run ignoreMissing vars xs).1 ys).2) := by
  induction xs generalizing vars with
  | nil => rfl
  | cons step rest ih => simp only [List.cons_append, run, ih, List.append_assoc]

theorem run_map (tier : Tier) (vars : VariableMap) (os : List Override) :
    run ignoreMissing vars (os.map (Step.mk tier)) = applyAll ignoreMissing tier vars os := by
  induction os generalizing vars with
  | nil => rfl
  | cons o os ih => simp only [List.map_cons, run, applyAll, ih]

/-- A merge is a run. -/
theorem merge_eq_run (vars : VariableMap) (all : Overrides) :
    merge ignoreMissing vars all = run ignoreMissing vars all.steps := by
  simp only [Overrides.steps, run_append, run_map, merge]

/-- A run keeps packages and names, and all variables conform behind it. -/
theorem run_wellFormed (hvars : vars.WellFormed) {steps : List Step}
    (hsteps : ∀ step ∈ steps, ∀ t, step.override.type = some t → t.Ordered) :
    (run ignoreMissing vars steps).1.WellFormed ∧
      (run ignoreMissing vars steps).1.names = vars.names := by
  induction steps generalizing vars with
  | nil => exact ⟨hvars, rfl⟩
  | cons step rest ih =>
    rw [List.forall_mem_cons] at hsteps
    rcases apply_wellFormed hvars hsteps.1 with ⟨hnext, hnames⟩
    rcases ih hnext hsteps.2 with ⟨hlast, hrest⟩
    exact ⟨hlast, hrest.trans hnames⟩

/-- Behind the steps of a run every variable of every package conforms to its type and its default,
and packages and names are those declared. One more override that is reported, or that is of a
variable that is not declared, changes nothing. -/
theorem run_conforming {sources : Dict SourceFile} (hsources : Dict.Ascending sources)
    {steps : List Step} (hsteps : ∀ step ∈ steps, ∀ t, step.override.type = some t → t.Ordered)
    (hrun : (run ignoreMissing (collect sources).1 steps).1 = vars) :
    (∀ package ∈ vars, ∀ entry ∈ package.2,
        (∀ t, entry.2.type = some t → entry.2.value.convert t = .ok entry.2.value) ∧
          (entry.2.default = some entry.2.value ∨
            entry.2.default = none ∧ entry.2.value = .null)) ∧
      vars.names = (collect sources).1.names ∧
      ∀ tier o, ((apply ignoreMissing tier vars o).2 ≠ [] ∨ vars.lookup? o.target = none) →
        (apply ignoreMissing tier vars o).1 = vars := by
  have hkept := @run_wellFormed ignoreMissing _ (collect_wellFormed hsources) steps hsteps
  rw [hrun] at hkept
  rcases hkept with ⟨hformed, hnames⟩
  refine ⟨?_, hnames, ?_⟩
  · intro package hpackage entry hentry
    have hconforming := ((hformed.each package hpackage).each entry hentry).2
    exact ⟨hconforming.converted, hconforming.defaulted⟩
  · intro tier o hfails
    rcases apply_cases ignoreMissing tier vars o with ⟨v, w, hv, -, happly⟩ | ⟨-, hsame⟩
    · -- An application that succeeds finds its variable and reports nothing.
      rcases hfails with hreports | hnone
      · exact absurd (congrArg Prod.snd happly) hreports
      · rw [hv] at hnone
        cases hnone
    · exact hsame

/-- A variable that holds a set of numbers. -/
def numbered : Dict SourceFile :=
  [("web", ⟨"variables.hcl", "variable \"ports\" \x7b\n  type = set(number)\n\x7d\n"⟩)]

/-- An override of that variable by a flag. -/
def portsOverride (value : Value) : Override :=
  ⟨⟨⟨"web"⟩, "ports"⟩, value, none, .point "caller" .start, .cli "ports"⟩

theorem run_conforming_numbered :
    ∃ vars v, (run false (collect numbered).1
        [⟨.cli, portsOverride (.tuple [.string "1", .string "1.0"])⟩,
          ⟨.cli, portsOverride (.string "x")⟩]).1 = vars ∧
      vars.lookup? ⟨⟨"web"⟩, "ports"⟩ = some v ∧ v.type = some (.set .number) ∧
      v.value = .set [.number (.ofInt64 1)] ∧ vars.names = [("web", ["ports"])] ∧
      (apply false .cli vars (portsOverride (.bool true))).2 ≠ [] ∧
      (apply false .cli vars (portsOverride (.bool true))).1 = vars := by
  let steps : List Step := [⟨.cli, portsOverride (.tuple [.string "1", .string "1.0"])⟩,
    ⟨.cli, portsOverride (.string "x")⟩]
  have hsources : Dict.Ascending numbered := List.pairwise_singleton _ _
  have hsteps : ∀ step ∈ steps, ∀ t, step.override.type = some t → t.Ordered := by
    simp [steps, portsOverride]
  have hrun := @run_conforming false _ _ hsources steps hsteps rfl
  have hreports : (apply false .cli (run false (collect numbered).1 steps).1
      (portsOverride (.bool true))).2 ≠ [] := by decide +kernel
  have hvalue : ((run false (collect numbered).1 steps).1.lookup? ⟨⟨"web"⟩, "ports"⟩).map
      (fun v => (v.type, v.value)) = some (some (.set .number), .set [.number (.ofInt64 1)]) := by
    decide +kernel
  rcases Option.map_eq_some_iff.1 hvalue with ⟨v, hv, hpair⟩
  simp only [Prod.mk.injEq] at hpair
  refine ⟨_, v, rfl, hv, hpair.1, hpair.2, ?_, hreports, hrun.2.2 _ _ (.inl hreports)⟩
  exact hrun.2.1.trans (by decide +kernel)

end Resolution

end Overlay
