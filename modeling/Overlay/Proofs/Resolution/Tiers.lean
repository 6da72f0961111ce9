import Overlay.Proofs.Resolution.Precedence

/-!
# What decoding makes of a tier

* The set of the environment, and that of the flags, is what a run of additions makes of all
  overrides that the tier is given (`decode_set`). So it holds the first one of every variable.
* What that run reports is reported by the decoding, whatever else is wrong
  (`decode_reports`).
-/

namespace Overlay

namespace Resolution

/-! ## The sets of the tiers -/

namespace Overrides

/-- The set of a tier. The sets of files are not looked at here. -/
def set (all : Overrides) : Tier → OverrideSet
  | .environment => all.environment
  | .file => .empty
  | .cli => all.cli

/-- The overrides with another set for a tier. -/
def put (all : Overrides) (tier : Tier) (set : OverrideSet) : Overrides :=
  match tier with
  | .environment => { all with environment := set }
  | .file => all
  | .cli => { all with cli := set }

variable {all : Overrides} {tier other : Tier} {set : OverrideSet}

theorem set_put_self (htier : tier ≠ .file) : (all.put tier set).set tier = set := by
  cases tier with
  | environment => rfl
  | file => exact absurd rfl htier
  | cli => rfl

theorem set_put_of_ne (hne : other ≠ tier) : (all.put other set).set tier = all.set tier := by
  cases other <;> cases tier <;> first | rfl | exact absurd rfl hne

theorem put_set_self : all.put tier (all.set tier) = all := by
  cases tier <;> rfl

end Overrides

variable {addressing : Addressing} {declared : VariableMap} {source : String → OverrideSource}
  {all : Overrides} {supplied : OverrideSet} {tier : Tier} {readers : Readers} {c : Configuration}

/-! ## Keys and texts -/

theorem addInline_cons (set : OverrideSet) (key raw : String) (rest : Dict String) :
    addInline addressing declared source set ((key, raw) :: rest) =
      match Decoding.inline addressing declared (source key) key raw with
      | .ok o =>
        ((addInline addressing declared source (set.add o).1 rest).1,
          (set.add o).2 ++ (addInline addressing declared source (set.add o).1 rest).2)
      | .error ds =>
        ((addInline addressing declared source set rest).1,
          ds ++ (addInline addressing declared source set rest).2) := by
  cases h : Decoding.inline addressing declared (source key) key raw <;> simp only [addInline, h]

theorem inlineOverrides_cons (key raw : String) (rest : Dict String) :
    inlineOverrides addressing declared source ((key, raw) :: rest) =
      (Decoding.inline addressing declared (source key) key raw).toOption.toList ++
        inlineOverrides addressing declared source rest := by
  cases h : Decoding.inline addressing declared (source key) key raw <;>
    simp [inlineOverrides, h, Except.toOption]

/-- Adding keys and texts is a run of additions, and everything that the run reports is reported. -/
theorem addInline_run (set : OverrideSet) (entries : Dict String) :
    (addInline addressing declared source set entries).1 =
        (set.addAll (inlineOverrides addressing declared source entries)).1 ∧
      (set.addAll (inlineOverrides addressing declared source entries)).2 ⊆
        (addInline addressing declared source set entries).2 := by
  induction entries generalizing set with
  | nil => exact ⟨rfl, List.Subset.refl _⟩
  | cons entry rest ih =>
    rcases entry with ⟨key, raw⟩
    rw [addInline_cons, inlineOverrides_cons]
    cases h : Decoding.inline addressing declared (source key) key raw with
    | error ds =>
      rcases ih set with ⟨hset, hreports⟩
      exact ⟨hset, List.Subset.trans hreports (List.subset_append_right _ _)⟩
    | ok o =>
      rcases ih (set.add o).1 with ⟨hset, hreports⟩
      refine ⟨hset, ?_⟩
      simp only [Except.toOption, Option.toList_some, List.singleton_append,
        OverrideSet.addAll_cons]
      exact List.append_subset.2 ⟨List.subset_append_left _ _,
        List.Subset.trans hreports (List.subset_append_right _ _)⟩

/-! ## Overrides made already -/

/-- An override that is made already goes to the set of its tier. -/
theorem addSupplied_cons {o : Override} (rest : List Override) (htier : o.source.tier ≠ .file) :
    addSupplied all supplied (o :: rest) =
      let run := addSupplied (all.put o.source.tier ((all.set o.source.tier).add o).1) supplied rest
      (run.1, run.2.1, ((all.set o.source.tier).add o).2 ++ run.2.2) := by
  cases h : o.source.tier with
  | environment => simp only [addSupplied, h, Overrides.put, Overrides.set]
  | file => exact absurd h htier
  | cli => simp only [addSupplied, h, Overrides.put, Overrides.set]

/-- One for files goes to a set of its own, or is reported. -/
theorem addSupplied_cons_file {o : Override} (rest : List Override)
    (htier : o.source.tier = .file) :
    addSupplied all supplied (o :: rest) =
      match supplied.insert o with
      | .ok set => addSupplied all set rest
      | .error d =>
        let run := addSupplied all supplied rest
        (run.1, run.2.1, d :: run.2.2) := by
  cases hinsert : supplied.insert o <;> simp [addSupplied, htier, hinsert]

theorem addSupplied_append (xs ys : List Override) :
    addSupplied all supplied (xs ++ ys) =
      let front := addSupplied all supplied xs
      let back := addSupplied front.1 front.2.1 ys
      (back.1, back.2.1, front.2.2 ++ back.2.2) := by
  induction xs generalizing all supplied with
  | nil => rfl
  | cons o os ih =>
    rw [List.cons_append]
    by_cases htier : o.source.tier = .file
    · rw [addSupplied_cons_file _ htier, addSupplied_cons_file _ htier]
      cases hinsert : supplied.insert o <;> simp only [ih, List.cons_append]
    · rw [addSupplied_cons _ htier, addSupplied_cons _ htier]
      simp only [ih, List.append_assoc]

theorem suppliedTo_cons (tier : Tier) (o : Override) (rest : List Override) :
    suppliedTo tier (o :: rest) =
      if o.source.tier = tier then o :: suppliedTo tier rest else suppliedTo tier rest := by
  simp [suppliedTo, List.filter_cons]

/-- Adding overrides made already is a run of additions to the set of each tier, and everything
that these runs report is reported. -/
theorem addSupplied_run (all : Overrides) (supplied : OverrideSet) (os : List Override)
    (htier : tier ≠ .file) :
    (addSupplied all supplied os).1.set tier = ((all.set tier).addAll (suppliedTo tier os)).1 ∧
      ((all.set tier).addAll (suppliedTo tier os)).2 ⊆ (addSupplied all supplied os).2.2 := by
  induction os generalizing all supplied with
  | nil => exact ⟨rfl, List.Subset.refl _⟩
  | cons o rest ih =>
    rw [suppliedTo_cons]
    by_cases hfile : o.source.tier = .file
    · -- No set of a tier takes part.
      rw [addSupplied_cons_file _ hfile, if_neg (fun h => htier (h.symm.trans hfile))]
      cases supplied.insert o with
      | ok set => exact ih all set
      | error d =>
        rcases ih all supplied with ⟨hset, hreports⟩
        exact ⟨hset, List.Subset.trans hreports (List.subset_cons_self _ _)⟩
    · rw [addSupplied_cons _ hfile]
      rcases ih (all.put o.source.tier ((all.set o.source.tier).add o).1) supplied with
        ⟨hset, hreports⟩
      by_cases hsame : o.source.tier = tier
      · subst hsame
        rw [Overrides.set_put_self htier] at hset hreports
        rw [if_pos rfl, OverrideSet.addAll_cons]
        exact ⟨hset, List.append_subset.2 ⟨List.subset_append_left _ _,
          List.Subset.trans hreports (List.subset_append_right _ _)⟩⟩
      · rw [Overrides.set_put_of_ne hsame] at hset hreports
        rw [if_neg hsame]
        exact ⟨hset, List.Subset.trans hreports (List.subset_append_right _ _)⟩

/-! ## Whole decodings -/

/-- The overrides of the keys and texts of a tier. -/
def inlineOf (c : Configuration) (declared : VariableMap) : Tier → List Override
  | .environment => inlineOverrides c.addressing declared .environment c.environment
  | .file => []
  | .cli => inlineOverrides c.addressing declared .cli c.cli

theorem given_eq (htier : tier ≠ .file) :
    given c readers declared tier = inlineOf c declared tier ++ suppliedTo tier c.supplied := by
  cases tier with
  | environment => rfl
  | file => exact absurd rfl htier
  | cli => rfl

/-- The sets and reports of the keys and texts of a configuration. -/
def inlineRun (c : Configuration) (declared : VariableMap) (files : List OverrideSet) : Overrides :=
  ⟨(addInline c.addressing declared .environment .empty c.environment).1, files,
    (addInline c.addressing declared .cli .empty c.cli).1⟩

theorem inlineRun_set (files : List OverrideSet) (htier : tier ≠ .file) :
    (inlineRun c declared files).set tier =
      (OverrideSet.empty.addAll (inlineOf c declared tier)).1 := by
  cases tier with
  | environment => exact (addInline_run _ _).1
  | file => exact absurd rfl htier
  | cli => exact (addInline_run _ _).1

/-- A decoding written as its four parts. -/
theorem decode_eq (c : Configuration) (readers : Readers) (declared : VariableMap) :
    decode c readers declared =
      match decodeFiles c.addressing readers c.files with
      | .error ds =>
        .error ((addInline c.addressing declared .environment .empty c.environment).2 ++ ds)
      | .ok (files, middle) =>
        let run := addSupplied (inlineRun c declared files) .empty c.supplied
        .ok ({ run.1 with
            files := if run.2.1.isEmpty then run.1.files else run.1.files ++ [run.2.1] },
          (addInline c.addressing declared .environment .empty c.environment).2 ++ middle ++
            (addInline c.addressing declared .cli .empty c.cli).2 ++ run.2.2) := by
  unfold decode
  cases decodeFiles c.addressing readers c.files <;> rfl

/-- What a decoding without an unreadable file gives. -/
theorem decode_parts {ds : Diagnostics} (h : decode c readers declared = .ok (all, ds)) :
    ∃ files middle, decodeFiles c.addressing readers c.files = .ok (files, middle) ∧
      (∀ tier : Tier, tier ≠ .file →
        all.set tier = (addSupplied (inlineRun c declared files) .empty c.supplied).1.set tier) ∧
      ds = (addInline c.addressing declared .environment .empty c.environment).2 ++ middle ++
        (addInline c.addressing declared .cli .empty c.cli).2 ++
          (addSupplied (inlineRun c declared files) .empty c.supplied).2.2 := by
  rw [decode_eq] at h
  cases hfiles : decodeFiles c.addressing readers c.files with
  | error more => simp [hfiles] at h
  | ok result =>
    simp only [hfiles, Except.ok.injEq, Prod.mk.injEq] at h
    rcases h with ⟨rfl, rfl⟩
    refine ⟨_, _, rfl, fun tier htier => ?_, rfl⟩
    cases tier with
    | file => exact absurd rfl htier
    | _ => rfl

/-- The set of a tier that is no file is what a run of additions makes of all its overrides. -/
theorem decode_set {ds : Diagnostics} (h : decode c readers declared = .ok (all, ds))
    (htier : tier ≠ .file) :
    all.set tier = (OverrideSet.empty.addAll (given c readers declared tier)).1 := by
  rcases decode_parts h with ⟨files, middle, -, hset, -⟩
  rw [hset tier htier, given_eq htier, OverrideSet.addAll_append, ← inlineRun_set files htier]
  exact (addSupplied_run _ _ c.supplied htier).1

/-- What that run reports is reported. -/
theorem decode_reports {ds : Diagnostics} (h : decode c readers declared = .ok (all, ds))
    (htier : tier ≠ .file) :
    (OverrideSet.empty.addAll (given c readers declared tier)).2 ⊆ ds := by
  rcases decode_parts h with ⟨files, middle, -, -, rfl⟩
  rw [given_eq htier, OverrideSet.addAll_append, ← inlineRun_set files htier, List.append_subset]
  refine ⟨?_, List.Subset.trans (addSupplied_run _ _ c.supplied htier).2
    (List.subset_append_right _ _)⟩
  intro d hd
  cases tier with
  | environment =>
    have hfront := (addInline_run _ _).2 hd
    simp [hfront]
  | file => exact absurd rfl htier
  | cli =>
    have hback := (addInline_run _ _).2 hd
    simp [hback]

theorem duplicate_isError (first second : Override) : (first.duplicate second).isError = true := rfl

theorem duplicate_category (first second : Override) :
    (first.duplicate second).category = .duplicateDefinition := rfl

/-- Two overrides of a variable in one tier from different sources: the later one is reported as a
duplicate of the first one. -/
theorem decode_duplicate {ds : Diagnostics} (h : decode c readers declared = .ok (all, ds))
    (htier : tier ≠ .file) {first o : Override}
    (hfirst : (givenFor c readers declared o.target tier).head? = some first)
    (ho : o ∈ givenFor c readers declared o.target tier) (hsource : first.source ≠ o.source) :
    first.duplicate o ∈ ds := by
  apply decode_reports h htier
  have hmem := (List.mem_filter.1 ho).1
  refine OverrideSet.addAll_reports OverrideSet.distinct_empty hmem ?_ hsource
  rw [OverrideSet.get?_addAll OverrideSet.distinct_empty, ← List.head?_filter]
  exact hfirst

/-- Files that can all be read are decoded. -/
theorem decodeFiles_eq_ok {addressing : Addressing} {paths : List String}
    (h : ∀ path ∈ paths, ∃ file, Decoding.file addressing readers path = .ok file) :
    ∃ sets ds, decodeFiles addressing readers paths = .ok (sets, ds) := by
  induction paths with
  | nil => exact ⟨[], [], rfl⟩
  | cons path rest ih =>
    rcases h path List.mem_cons_self with ⟨file, hfile⟩
    rcases ih fun p hp => h p (List.mem_cons_of_mem _ hp) with ⟨sets, ds, hrest⟩
    rw [decodeFiles_cons, hfile, hrest]
    exact ⟨_, _, rfl⟩

/-- Files that can all be read leave a decoding to give a result. -/
theorem decode_eq_ok (declared : VariableMap)
    (h : ∀ path ∈ c.files, ∃ file, Decoding.file c.addressing readers path = .ok file) :
    ∃ all ds, decode c readers declared = .ok (all, ds) := by
  rcases decodeFiles_eq_ok h with ⟨sets, ds, hfiles⟩
  rw [decode_eq, hfiles]
  exact ⟨_, _, rfl⟩

/-- A decoding with errors ends the resolution. -/
theorem resolve_eq_error {ds : Diagnostics}
    (hcollect : (collect c.declarations).2.hasErrors = false)
    (hdecode : decode c readers (collect c.declarations).1 = .ok (all, ds))
    (herrors : ds.hasErrors = true) :
    c.resolve readers = .error ((collect c.declarations).2 ++ ds) := by
  simp [Configuration.resolve_eq, hcollect, hdecode, herrors]

end Resolution

end Overlay
