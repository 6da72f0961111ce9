import Overlay.Proofs.Variable.Sourced

/-!
# Resolutions of texts

What holds of every variable when all overrides are read from texts, and none is made by a caller.

* `Override.Textual`: the value is plain, and the override names no type but the declared one of its
  variable. Keys and files give such overrides only (`given_textual`).
* `Stems`: variables keep their declared types, and their values have a source. A run of textual
  overrides keeps this (`run_stems`), so it holds behind every resolution (`resolve_stems`).
-/

namespace Overlay

/-- Whether an override has a plain value and names no type but the declared one of its variable. -/
structure Override.Textual (declared : VariableMap) (o : Override) : Prop where
  plain : o.value.Plain
  type : o.type = none ∨ o.type = (declared.lookup? o.target).bind Variable.type

/-- Whether variables have their declared types and values with a source. -/
structure VariableMap.Stems (declared vars : VariableMap) : Prop where
  types : ∀ target,
    (vars.lookup? target).map Variable.type = (declared.lookup? target).map Variable.type
  sourced : ∀ target v, vars.lookup? target = some v → v.Sourced

namespace VariableMap

variable {declared vars : VariableMap} {target : Target} {v w : Variable}

theorem Stems.eq_none_iff (h : Stems declared vars) :
    vars.lookup? target = none ↔ declared.lookup? target = none := by
  rw [← Option.map_eq_none_iff, h.types target, Option.map_eq_none_iff]

theorem Stems.type_eq (h : Stems declared vars) (hv : declared.lookup? target = some v)
    (hw : vars.lookup? target = some w) : w.type = v.type := by
  have htypes := h.types target
  rw [hv, hw] at htypes
  exact Option.some.inj htypes

end VariableMap

namespace Resolution

open VariableMap (Stems)

variable {ignoreMissing : Bool} {tier : Tier} {declared vars : VariableMap} {o : Override}
  {c : Configuration} {readers : Readers}

/-! ## Runs -/

/-- The type under a textual override is the one before. -/
theorem typeUnder_textual (hvars : Stems declared vars) (ho : o.Textual declared) {v : Variable}
    (hv : vars.lookup? o.target = some v) : v.typeUnder o = v.type := by
  unfold Variable.typeUnder
  rcases ho.type with hnone | htype
  · rw [hnone]
    rfl
  · have hbind : (declared.lookup? o.target).bind Variable.type = v.type := by
      have htypes := hvars.types o.target
      rw [hv] at htypes
      rcases Option.map_eq_some_iff.1 htypes.symm with ⟨u, hu, heq⟩
      rw [hu]
      exact heq
    rw [htype, hbind]
    cases v.type <;> rfl

/-- One textual override leaves variables with their declared types and values with a source. -/
theorem apply_stems (hvars : Stems declared vars) (ho : o.Textual declared) :
    Stems declared (apply ignoreMissing tier vars o).1 := by
  rcases apply_cases ignoreMissing tier vars o with ⟨v, w, hv, hw, happly⟩ | ⟨-, hsame⟩
  · rcases Variable.applyOverride_sourced (hvars.sourced _ v hv) ho.plain
      (typeUnder_textual hvars ho hv) hw with ⟨htype, hsourced⟩
    have hself := lookup?_replace_self hv w
    -- Every other variable stays as it is.
    have hothers : ∀ target, target ≠ o.target →
        (replace vars o.target w).lookup? target = vars.lookup? target :=
      fun target hne => lookup?_replace_of_ne hne vars w
    rw [happly]
    constructor
    · intro target
      by_cases htarget : target = o.target
      · subst htarget
        rw [← hvars.types o.target, hself, hv, Option.map_some, Option.map_some, htype]
      · rw [← hvars.types target, hothers target htarget]
    · intro target u hu
      by_cases htarget : target = o.target
      · subst htarget
        rw [hself] at hu
        cases hu
        exact hsourced
      · rw [hothers target htarget] at hu
        exact hvars.sourced target u hu
  · rw [hsame]
    exact hvars

/-- A run of textual overrides leaves variables with their declared types and values with a
source. -/
theorem run_stems (hvars : Stems declared vars) {steps : List Step}
    (hsteps : ∀ step ∈ steps, step.override.Textual declared) :
    Stems declared (run ignoreMissing vars steps).1 := by
  induction steps generalizing vars with
  | nil => exact hvars
  | cons step rest ih =>
    rw [List.forall_mem_cons] at hsteps
    exact ih (apply_stems hvars hsteps.1) hsteps.2

theorem collect_stems (sources : Dict SourceFile) :
    Stems (collect sources).1 (collect sources).1 :=
  ⟨fun _ => rfl, collect_sourced sources⟩

/-! ## What the tiers are given -/

theorem overridesOfFile_textual {addressing : Addressing} {path : String}
    (ho : o ∈ overridesOfFile addressing readers path) : o.Textual declared := by
  unfold overridesOfFile at ho
  cases hfile : Decoding.file addressing readers path with
  | error d => simp [hfile] at ho
  | ok file =>
    rw [hfile] at ho
    unfold Decoding.file at hfile
    split at hfile
    · cases hfile
    · split at hfile
      · cases hfile
      · cases hfile
        rcases Decoding.source_plain ho with ⟨hplain, htype⟩
        exact ⟨hplain, .inl htype⟩

theorem inlineOverrides_textual {addressing : Addressing} {source : String → OverrideSource}
    {entries : Dict String} (ho : o ∈ inlineOverrides addressing declared source entries) :
    o.Textual declared := by
  rcases List.mem_filterMap.1 ho with ⟨entry, -, hentry⟩
  cases hinline : Decoding.inline addressing declared (source entry.1) entry.1 entry.2 with
  | error ds => simp [hinline, Except.toOption] at hentry
  | ok x =>
    obtain rfl : x = o := by simpa [hinline, Except.toOption] using hentry
    rcases Decoding.inline_plain hinline with ⟨hplain, htype⟩
    exact ⟨hplain, .inr htype⟩

/-- Without overrides that are made already, a tier is given textual ones only. -/
theorem given_textual (hsupplied : c.supplied = []) (ho : o ∈ given c readers declared tier) :
    o.Textual declared := by
  have hnone : suppliedTo tier c.supplied = [] := by
    rw [hsupplied]
    rfl
  cases tier with
  | environment =>
    rw [given, hnone, List.append_nil] at ho
    exact inlineOverrides_textual ho
  | file =>
    rw [given, hnone, List.append_nil] at ho
    rcases List.mem_flatMap.1 ho with ⟨path, -, hpath⟩
    exact overridesOfFile_textual hpath
  | cli =>
    rw [given, hnone, List.append_nil] at ho
    exact inlineOverrides_textual ho

/-- What a decoding without errors leaves for the merge was given to one of the tiers. -/
theorem given_of_decode {all : Overrides} {ds : Diagnostics}
    (h : decode c readers declared = .ok (all, ds)) (hclean : ds.hasErrors = false)
    (ho : o ∈ all.environment.entries ++ all.files.flatMap OverrideSet.entries ++
      all.cli.entries) : ∃ tier, o ∈ given c readers declared tier := by
  have hkept := (decode_kept h hclean o.target).1
  have hmem : o ∈ inOrder (keptFor c readers declared o.target) := by
    rw [← hkept]
    exact List.mem_filter.2 ⟨ho, by simp⟩
  rcases List.mem_append.1 hmem with hfront | hcli
  · rcases List.mem_append.1 hfront with henv | hfile
    · exact ⟨.environment, (List.mem_filter.1 (List.mem_of_mem_take henv)).1⟩
    · exact ⟨.file, (List.mem_filter.1 hfile).1⟩
  · exact ⟨.cli, (List.mem_filter.1 (List.mem_of_mem_take hcli)).1⟩

theorem override_of_mem_steps {all : Overrides} {step : Step} (h : step ∈ all.steps) :
    step.override ∈ all.environment.entries ++ all.files.flatMap OverrideSet.entries ++
      all.cli.entries := by
  have hmap : all.steps.map Step.override =
      all.environment.entries ++ all.files.flatMap OverrideSet.entries ++ all.cli.entries := by
    simp [Overrides.steps, Function.comp_def]
  rw [← hmap]
  exact List.mem_map_of_mem h

/-- A textual override names no type but an ordered one. -/
theorem ordered_of_textual (hdeclared : Stems declared declared) (ho : o.Textual declared) :
    ∀ t, o.type = some t → t.Ordered := by
  intro t ht
  rcases ho.type with hnone | htype
  · rw [hnone] at ht
    cases ht
  · rw [htype] at ht
    rcases Option.bind_eq_some_iff.1 ht with ⟨v, hv, hvtype⟩
    exact (hdeclared.sourced _ v hv).ordered t hvtype

/-- Behind a resolution without overrides that are made already, variables have their declared
types and values with a source, and packages and names are those declared. -/
theorem resolve_stems (hsources : Dict.Ascending c.declarations) (hsupplied : c.supplied = [])
    {r : Resolved} (h : c.resolve readers = .ok r) :
    Stems (collect c.declarations).1 r.packages ∧ r.packages.WellFormed ∧
      r.packages.names = (collect c.declarations).1.names := by
  rcases Configuration.resolve_eq_ok h with ⟨all, ds, hdecode, hds, -, hpackages⟩
  have hdeclared := collect_stems c.declarations
  have htextual : ∀ step ∈ all.steps, step.override.Textual (collect c.declarations).1 := by
    intro step hstep
    rcases given_of_decode hdecode hds (override_of_mem_steps hstep) with ⟨tier, hgiven⟩
    exact given_textual hsupplied hgiven
  rw [merge_eq_run] at hpackages
  rw [hpackages]
  refine ⟨run_stems hdeclared htextual, run_wellFormed (collect_wellFormed hsources) ?_⟩
  exact fun step hstep => ordered_of_textual hdeclared (htextual step hstep)

end Resolution

end Overlay
