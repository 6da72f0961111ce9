import Overlay.Proofs.Resolution.Conformity

/-!
# Variables do not disturb each other

A merge goes through the overrides of all variables in turn, and some of them fail. What becomes of
one variable depends on its own overrides only.

* `reports` is the run of a merge with what each override is reported for, and the diagnostics of
  the merge are those, one behind the other (`merge_reports`).
* `lookup?_apply_of_ne`: an application leaves every other variable as it is.
* `apply_congr`: what it makes of its own variable, and what it reports, can be told from that
  variable.
* So a run and the run of the overrides of one variable alone stay in step (`run_separate`).
-/

namespace Overlay

/-! ## The overrides of one variable -/

/-- The overrides of a set that target one variable. -/
def OverrideSet.restrict (set : OverrideSet) (target : Target) : OverrideSet :=
  ⟨set.entries.filter fun o => o.target = target⟩

namespace Resolution

variable {ignoreMissing : Bool} {vars others : VariableMap} {target : Target}

/-- The overrides of all sources that target one variable, each in its own set. -/
def Overrides.restrict (all : Overrides) (target : Target) : Overrides where
  environment := all.environment.restrict target
  files := all.files.map fun set => set.restrict target
  cli := all.cli.restrict target

/-- Whether a step applies an override of a variable. -/
def Step.targets (target : Target) (step : Step) : Bool := step.override.target = target

theorem filter_map_step (tier : Tier) (os : List Override) :
    (os.map (Step.mk tier)).filter (Step.targets target) =
      (os.filter fun o => o.target = target).map (Step.mk tier) := by
  rw [List.filter_map]
  rfl

theorem flatMap_restrict (sets : List OverrideSet) :
    (sets.map fun set => set.restrict target).flatMap OverrideSet.entries =
      (sets.flatMap OverrideSet.entries).filter fun o => o.target = target := by
  induction sets with
  | nil => rfl
  | cons set sets ih =>
    rw [List.map_cons, List.flatMap_cons, List.flatMap_cons, List.filter_append, ih]
    rfl

/-- The overrides of one variable keep their order and their tiers. -/
theorem steps_restrict (all : Overrides) :
    (all.restrict target).steps = all.steps.filter (Step.targets target) := by
  unfold Overrides.steps
  rw [List.filter_append, List.filter_append, filter_map_step, filter_map_step, filter_map_step,
    ← flatMap_restrict]
  rfl

/-! ## Reports -/

/-- The overrides of a run, each with what it is reported for. -/
def reports (ignoreMissing : Bool) (vars : VariableMap) : List Step → List (Step × Diagnostics)
  | [] => []
  | step :: rest =>
    let (vars, ds) := apply ignoreMissing step.tier vars step.override
    (step, ds) :: reports ignoreMissing vars rest

theorem run_cons (ignoreMissing : Bool) (vars : VariableMap) (step : Step) (rest : List Step) :
    run ignoreMissing vars (step :: rest) =
      ((run ignoreMissing (apply ignoreMissing step.tier vars step.override).1 rest).1,
        (apply ignoreMissing step.tier vars step.override).2 ++
          (run ignoreMissing (apply ignoreMissing step.tier vars step.override).1 rest).2) := rfl

theorem reports_cons (ignoreMissing : Bool) (vars : VariableMap) (step : Step) (rest : List Step) :
    reports ignoreMissing vars (step :: rest) =
      (step, (apply ignoreMissing step.tier vars step.override).2) ::
        reports ignoreMissing (apply ignoreMissing step.tier vars step.override).1 rest := rfl

theorem run_reports (vars : VariableMap) (steps : List Step) :
    (run ignoreMissing vars steps).2 = (reports ignoreMissing vars steps).flatMap Prod.snd := by
  induction steps generalizing vars with
  | nil => rfl
  | cons step rest ih => rw [run_cons, reports_cons, List.flatMap_cons, ih]

/-- What a merge reports is what its overrides are reported for, in their order. -/
theorem merge_reports (vars : VariableMap) (all : Overrides) :
    (merge ignoreMissing vars all).2 = (reports ignoreMissing vars all.steps).flatMap Prod.snd := by
  rw [merge_eq_run, run_reports]

/-! ## One application -/

section Applying

variable {tier : Tier} {o : Override}

/-- An application leaves every other variable as it is. -/
theorem lookup?_apply_of_ne (hne : o.target ≠ target) :
    (apply ignoreMissing tier vars o).1.lookup? target = vars.lookup? target := by
  obtain ⟨v, w, -, -, happly⟩ | ⟨-, hsame⟩ := apply_cases ignoreMissing tier vars o
  · rw [happly]
    exact lookup?_replace_of_ne (Ne.symm hne) vars w
  · rw [hsame]

/-- What an application makes of its variable and what it reports depends on that variable only. -/
theorem apply_congr (ignoreMissing : Bool) (tier : Tier)
    (h : vars.lookup? o.target = others.lookup? o.target) :
    (apply ignoreMissing tier vars o).1.lookup? o.target =
        (apply ignoreMissing tier others o).1.lookup? o.target ∧
      (apply ignoreMissing tier vars o).2 = (apply ignoreMissing tier others o).2 := by
  -- The maps hold the same variable or none, so both applications go the same way.
  cases hv : vars.lookup? o.target with
  | none =>
    have hv' : others.lookup? o.target = none := h.symm.trans hv
    constructor
    · simp only [apply, hv, hv']
    · simp only [apply, hv, hv']
  | some v =>
    have hv' : others.lookup? o.target = some v := h.symm.trans hv
    cases hw : v.applyOverride o with
    | error d =>
      constructor
      · simp only [apply, hv, hv', hw]
      · simp only [apply, hv, hv', hw]
    | ok w =>
      constructor
      · simp only [apply, hv, hv', hw]
        rw [lookup?_replace_self hv w, lookup?_replace_self hv' w]
      · simp only [apply, hv, hv', hw]

end Applying

/-! ## Runs -/

/-- Two maps that hold the same of a variable: a run from one, and a run of the overrides of that
variable alone from the other. They leave the variable the same and report the same of it. -/
theorem run_separate (h : vars.lookup? target = others.lookup? target)
    (steps : List Step) :
    (run ignoreMissing vars steps).1.lookup? target =
        (run ignoreMissing others (steps.filter (Step.targets target))).1.lookup? target ∧
      (reports ignoreMissing vars steps).filter (fun report => report.1.targets target) =
        reports ignoreMissing others (steps.filter (Step.targets target)) := by
  -- The maps drift apart on other variables. That they agree on this one is kept by every step.
  induction steps generalizing vars others with
  | nil =>
    constructor
    · exact h
    · rfl
  | cons step rest ih =>
    rw [run_cons, reports_cons]
    by_cases htarget : step.override.target = target
    · -- Both runs apply the override to the same variable.
      subst htarget
      obtain ⟨hown, hreport⟩ := apply_congr ignoreMissing step.tier h
      obtain ⟨hstate, hreports⟩ := ih hown
      have htake : Step.targets step.override.target step = true := by simp [Step.targets]
      rw [List.filter_cons_of_pos htake, List.filter_cons_of_pos (by exact htake), run_cons,
        reports_cons]
      constructor
      · exact hstate
      · rw [hreports, hreport]
    · -- The second run skips the override, and the first one does not touch the variable.
      have hframe : (apply ignoreMissing step.tier vars step.override).1.lookup? target =
          vars.lookup? target := lookup?_apply_of_ne htarget
      obtain ⟨hstate, hreports⟩ := ih (hframe.trans h)
      have hskip : ¬Step.targets target step = true := by simpa [Step.targets] using htarget
      rw [List.filter_cons_of_neg hskip, List.filter_cons_of_neg (by exact hskip)]
      constructor
      · exact hstate
      · exact hreports

/-- A merge, and the merge of the overrides of one variable alone: that variable, declared or not,
is the same behind both, and what the first one reports of its overrides is all that the second one
reports. So an override that fails for one variable hides nothing of another one. -/
theorem merge_separate (ignoreMissing : Bool) (vars : VariableMap) (all : Overrides)
    (target : Target) :
    (merge ignoreMissing vars all).1.lookup? target =
        (merge ignoreMissing vars (all.restrict target)).1.lookup? target ∧
      (merge ignoreMissing vars all).2 =
        (reports ignoreMissing vars all.steps).flatMap Prod.snd ∧
      ((reports ignoreMissing vars all.steps).filter
          fun report => report.1.targets target).flatMap Prod.snd =
        (merge ignoreMissing vars (all.restrict target)).2 := by
  obtain ⟨hstate, hreports⟩ := @run_separate ignoreMissing vars vars target rfl all.steps
  rw [← steps_restrict] at hstate hreports
  refine ⟨?_, merge_reports vars all, ?_⟩
  · rw [merge_eq_run, merge_eq_run]
    exact hstate
  · rw [hreports, merge_reports]

/-- Two variables of one package, one of them a number. -/
def portAndTag : Dict SourceFile :=
  [("web", ⟨"variables.hcl",
    "variable \"port\" \x7b\n  type = number\n\x7d\nvariable \"tag\" \x7b\n\x7d\n"⟩)]

/-- Overrides of both, and of a variable that is not declared. Two of the three overrides of the
number do not convert. -/
def mixedOverrides : Overrides where
  environment :=
    ⟨[⟨⟨⟨"web"⟩, "port"⟩, .string "x", none, .point "env" .start, .environment "port"⟩]⟩
  files := [⟨[⟨⟨⟨"web"⟩, "tag"⟩, .string "a", none, .point "a" .start, .file "a"⟩,
      ⟨⟨⟨"web"⟩, "port"⟩, .string "81", none, .point "a" .start, .file "a"⟩]⟩,
    ⟨[⟨⟨⟨"web"⟩, "zone"⟩, .null, none, .point "b" .start, .file "b"⟩,
      ⟨⟨⟨"web"⟩, "tag"⟩, .bool true, none, .point "b" .start, .file "b"⟩]⟩]
  cli := ⟨[⟨⟨⟨"web"⟩, "port"⟩, .bool true, none, .point "cli" .start, .cli "port"⟩]⟩

theorem merge_separate_mixed :
    let vars := (collect portAndTag).1
    let alone := mixedOverrides.restrict ⟨⟨"web"⟩, "port"⟩
    (merge false vars mixedOverrides).2.length = 3 ∧
      (merge false vars alone).2.length = 2 ∧
      ((merge false vars alone).1.lookup? ⟨⟨"web"⟩, "port"⟩).map Variable.value =
        some (.number (.ofInt64 81)) ∧
      (merge false vars mixedOverrides).1.lookup? ⟨⟨"web"⟩, "port"⟩ =
        (merge false vars alone).1.lookup? ⟨⟨"web"⟩, "port"⟩ ∧
      ((reports false vars mixedOverrides.steps).filter
          fun report => report.1.targets ⟨⟨"web"⟩, "port"⟩).flatMap Prod.snd =
        (merge false vars alone).2 := by
  intro vars alone
  obtain ⟨hstate, -, hreports⟩ := merge_separate false vars mixedOverrides ⟨⟨"web"⟩, "port"⟩
  refine ⟨?_, ?_, ?_, hstate, hreports⟩
  · decide +kernel
  · decide +kernel
  · decide +kernel

end Resolution

end Overlay
