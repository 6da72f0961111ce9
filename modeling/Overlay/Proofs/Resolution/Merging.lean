import Mathlib.Data.List.Induction
import Overlay.Resolution.Basic

/-!
# What merging does to one variable

* `Variable.settled` says what overrides make of a variable: the last one gives the value, and the
  last one that names a type gives the type.
* A merge without errors leaves every declared variable settled by the overrides that target it
  (`merge_settled`). Overrides of other variables do not matter.
-/

namespace Overlay

namespace Diagnostics

@[simp] theorem hasErrors_append (a b : Diagnostics) :
    hasErrors (a ++ b) = (a.hasErrors || b.hasErrors) := List.any_append

@[simp] theorem hasErrors_cons (d : Diagnostic) (ds : Diagnostics) :
    hasErrors (d :: ds) = (d.isError || hasErrors ds) := List.any_cons

end Diagnostics

/-! ## One variable under its overrides -/

namespace Variable

/-- The variable that overrides make of a declared one, if the last value converts to the last type
named. -/
def settled (v : Variable) (os : List Override) : Option Variable :=
  match os.getLast? with
  | none => some v
  | some last =>
    let type := (os.filterMap Override.type).getLast? <|> v.type
    match conform type last.value with
    | .ok value => some { v with type, default := some value, value }
    | .error _ => none

/-- The variable with overrides applied in turn. -/
def applyOverrides (v : Variable) (os : List Override) : Except Diagnostic Variable :=
  os.foldlM applyOverride v

theorem applyOverrides_append (v : Variable) (xs ys : List Override) :
    v.applyOverrides (xs ++ ys) = (v.applyOverrides xs).bind fun w => w.applyOverrides ys := by
  rw [applyOverrides, List.foldlM_append]
  rfl

theorem applyOverrides_singleton (v : Variable) (o : Override) :
    v.applyOverrides [o] = v.applyOverride o := by
  simp only [applyOverrides, List.foldlM_cons, List.foldlM_nil, bind_pure]

/-- What an override leaves alone. -/
theorem applyOverride_eq_ok {v w : Variable} {o : Override} (h : v.applyOverride o = .ok w) :
    ∃ value, conform (v.typeUnder o) o.value = .ok value ∧
      w = { v with type := v.typeUnder o, default := some value, value := value } := by
  unfold applyOverride at h
  cases hc : conform (v.typeUnder o) o.value with
  | ok value =>
    simp only [hc, Except.ok.injEq] at h
    exact ⟨value, rfl, h.symm⟩
  | error f => simp [hc] at h

/-- An override that fails is reported as a mismatch. -/
theorem applyOverride_eq_error {v : Variable} {o : Override} {d : Diagnostic}
    (h : v.applyOverride o = .error d) :
    ∃ fault, conform (v.typeUnder o) o.value = .error fault ∧ d = v.mismatch o fault := by
  unfold applyOverride at h
  cases hc : conform (v.typeUnder o) o.value with
  | ok value => simp [hc] at h
  | error f =>
    simp only [hc, Except.error.injEq] at h
    exact ⟨f, rfl, h.symm⟩

/-- The type under some overrides and one more: the type that it names, else the one before. -/
theorem lastType_concat (os : List Override) (o : Override) (declared : Option ValueType) :
    (((os ++ [o]).filterMap Override.type).getLast? <|> declared) =
      (o.type <|> ((os.filterMap Override.type).getLast? <|> declared)) := by
  cases ht : o.type with
  | none => simp [List.filterMap_append, ht]
  | some t => simp [List.filterMap_append, ht]

/-- Overrides applied in turn without a failure settle the variable: of all but the last one only
the types are left. -/
theorem settled_of_applyOverrides {v w : Variable} {os : List Override}
    (h : v.applyOverrides os = .ok w) :
    v.settled os = some w ∧
      w.type = ((os.filterMap Override.type).getLast? <|> v.type) ∧
      w = { v with type := w.type, default := w.default, value := w.value } := by
  induction os using List.reverseRecOn generalizing w with
  | nil =>
    have hw : v = w := by simpa [applyOverrides, pure, Except.pure] using h
    subst hw
    exact ⟨rfl, by simp, rfl⟩
  | append_singleton os o ih =>
    rw [applyOverrides_append] at h
    simp only [applyOverrides_singleton] at h
    cases hu : v.applyOverrides os with
    | error d => simp [hu, Except.bind] at h
    | ok u =>
      rcases ih hu with ⟨-, htype, hframe⟩
      simp only [hu, Except.bind] at h
      rcases applyOverride_eq_ok h with ⟨value, hvalue, hw⟩
      -- The value before does not matter, only the type that it was converted to.
      have hunder : u.typeUnder o =
          (((os ++ [o]).filterMap Override.type).getLast? <|> v.type) := by
        rw [lastType_concat, ← htype]
        rfl
      rw [hunder] at hvalue hw
      have hfinal : w = { v with
          type := ((os ++ [o]).filterMap Override.type).getLast? <|> v.type
          default := some value
          value := value } := by
        rw [hw, hframe]
      refine ⟨?_, ?_, ?_⟩
      · simp only [settled, List.getLast?_append, List.getLast?_singleton, Option.some_or]
        simp only [hvalue, hfinal]
      · rw [hfinal]
      · rw [hfinal]

end Variable

/-! ## Variable maps -/

namespace Resolution

theorem lookup?_replace_self {vars : VariableMap} {target : Target} {old : Variable}
    (hold : vars.lookup? target = some old) (v : Variable) :
    (replace vars target v).lookup? target = some v := by
  rcases Option.bind_eq_some_iff.1 hold with ⟨declared, hdeclared, -⟩
  have hreplace : replace vars target v =
      Dict.insert target.package.text (Dict.insert target.variableName v declared) vars := by
    simp only [replace, hdeclared]
  simp only [hreplace, VariableMap.lookup?, VariableMap.package?, Dict.find?_insert_self,
    Option.bind_some]

theorem lookup?_replace_of_ne {target other : Target} (hne : other ≠ target) (vars : VariableMap)
    (v : Variable) : (replace vars target v).lookup? other = vars.lookup? other := by
  unfold replace
  cases hdeclared : vars.package? target.package with
  | none => rfl
  | some declared =>
    simp only [VariableMap.lookup?, VariableMap.package?]
    by_cases hpackage : other.package = target.package
    · have hname : other.variableName ≠ target.variableName := by
        intro hname
        exact hne (by cases other; cases target; simp_all)
      have hfind : Dict.find? target.package.text vars = some declared := hdeclared
      rw [hpackage, Dict.find?_insert_self, hfind, Option.bind_some, Option.bind_some,
        Dict.find?_insert_of_ne hname]
    · have htext : other.package.text ≠ target.package.text := by
        intro htext
        exact hpackage (by cases hp : other.package; cases hq : target.package; simp_all)
      rw [Dict.find?_insert_of_ne htext]

/-! ## Merging -/

section Applying

variable {ignoreMissing : Bool} {tier : Tier} {vars : VariableMap}

/-- One override without an error: its own variable takes it, every other one stays. -/
theorem apply_step {o : Override}
    (hclean : (apply ignoreMissing tier vars o).2.hasErrors = false) {target : Target}
    {v : Variable} (hv : vars.lookup? target = some v) :
    ∃ w, (apply ignoreMissing tier vars o).1.lookup? target = some w ∧
      v.applyOverrides ([o].filter fun o => o.target = target) = .ok w := by
  cases hold : vars.lookup? o.target with
  | none =>
    -- An override of an unknown variable is one of another variable.
    have hne : o.target ≠ target := by
      rintro rfl
      simp [hv] at hold
    exact ⟨v, by simpa [apply, hold] using hv, by
      simp [hne, Variable.applyOverrides, pure, Except.pure]⟩
  | some old =>
    cases hstep : old.applyOverride o with
    | error d =>
      -- A value that does not convert is an error, and there is none.
      have herror : d.isError = true := by
        rcases Variable.applyOverride_eq_error hstep with ⟨fault, -, rfl⟩
        rfl
      simp [apply, hold, hstep, herror] at hclean
    | ok u =>
      by_cases htarget : o.target = target
      · subst htarget
        obtain rfl : old = v := by simpa [hold] using hv
        refine ⟨u, ?_, ?_⟩
        · simpa [apply, hold, hstep] using lookup?_replace_self hold u
        · simpa [Variable.applyOverrides_singleton] using hstep
      · refine ⟨v, ?_, by simp [htarget, Variable.applyOverrides, pure, Except.pure]⟩
        have hne : target ≠ o.target := fun h => htarget h.symm
        simpa [apply, hold, hstep, lookup?_replace_of_ne hne] using hv

/-- Overrides applied in turn without an error: a variable takes those that target it. -/
theorem applyAll_run {os : List Override}
    (hclean : (applyAll ignoreMissing tier vars os).2.hasErrors = false) {target : Target}
    {v : Variable} (hv : vars.lookup? target = some v) :
    ∃ w, (applyAll ignoreMissing tier vars os).1.lookup? target = some w ∧
      v.applyOverrides (os.filter fun o => o.target = target) = .ok w := by
  induction os generalizing vars v with
  | nil => exact ⟨v, hv, rfl⟩
  | cons o os ih =>
    simp only [applyAll, Diagnostics.hasErrors_append, Bool.or_eq_false_iff] at hclean ⊢
    rcases apply_step hclean.1 hv with ⟨u, hu, hstep⟩
    rcases ih hclean.2 hu with ⟨w, hw, hrun⟩
    refine ⟨w, hw, ?_⟩
    have hsplit : (o :: os).filter (fun o => o.target = target) =
        [o].filter (fun o => o.target = target) ++ os.filter fun o => o.target = target := by
      rw [← List.filter_append, List.singleton_append]
    rw [hsplit, Variable.applyOverrides_append, hstep]
    exact hrun

end Applying

/-- A merge without an error leaves every declared variable settled by the overrides of the
environment, then those of the files, then those of the flags that target it. -/
theorem merge_settled {ignoreMissing : Bool} {vars : VariableMap} {all : Overrides}
    (hclean : (merge ignoreMissing vars all).2.hasErrors = false)
    {target : Target} {v : Variable} (hv : vars.lookup? target = some v) :
    ∃ w, (merge ignoreMissing vars all).1.lookup? target = some w ∧
      v.settled ((all.environment.entries ++ all.files.flatMap OverrideSet.entries ++
        all.cli.entries).filter fun o => o.target = target) = some w := by
  simp only [merge, Diagnostics.hasErrors_append, Bool.or_eq_false_iff] at hclean ⊢
  rcases applyAll_run hclean.1.1 hv with ⟨v₁, hv₁, hrun₁⟩
  rcases applyAll_run hclean.1.2 hv₁ with ⟨v₂, hv₂, hrun₂⟩
  rcases applyAll_run hclean.2 hv₂ with ⟨v₃, hv₃, hrun₃⟩
  refine ⟨v₃, hv₃, (Variable.settled_of_applyOverrides ?_).1⟩
  rw [List.filter_append, List.filter_append, Variable.applyOverrides_append,
    Variable.applyOverrides_append, hrun₁]
  simp only [Except.bind, hrun₂, hrun₃]

end Resolution

end Overlay
