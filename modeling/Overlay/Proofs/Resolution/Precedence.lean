import Overlay.Proofs.Resolution.Merging
import Overlay.Proofs.Variable.OverrideSet

/-!
# Precedence

What a resolution makes of a variable, told from the configuration alone.

* `givenFor` lists every override of a variable that a tier is given: those of its keys or files,
  then those that are made already.
* The environment and the flags keep the first override of a variable. A second one from another
  source ends the resolution, a second one from the same source is left out without a word.
* `resolve_precedence`: after a resolution, a variable is settled by the overrides that are kept,
  in the order of the tiers. Where no tier leaves one out, those are all overrides of the variable.
-/

namespace Overlay

/-! ## Sets that keep the first override of a variable -/

namespace OverrideSet

/-- What a set holds of the overrides `os`: the first one of every variable. All overrides of one
variable are from one source. -/
structure KeepsFirst (set : OverrideSet) (os : List Override) : Prop where
  first : ∀ target, set.entries.filter (fun o => o.target = target) =
    (os.filter fun o => o.target = target).take 1
  source : ∀ o ∈ os, ∃ e ∈ set.entries, e.target = o.target ∧ e.source = o.source

theorem keepsFirst_empty : KeepsFirst empty [] := ⟨fun _ => rfl, by simp⟩

/-- Every override is from the source of the first one of its variable. -/
theorem KeepsFirst.source_eq {set : OverrideSet} {os : List Override} (hset : set.KeepsFirst os)
    {target : Target} {kept : Override}
    (hkept : kept ∈ (os.filter fun o => o.target = target).take 1) :
    ∀ o ∈ os.filter fun o => o.target = target, o.source = kept.source := by
  intro o ho
  rcases List.mem_filter.1 ho with ⟨hmem, htarget⟩
  rcases hset.source o hmem with ⟨e, he, hsame, hsource⟩
  have hheld : e ∈ set.entries.filter fun o => o.target = target :=
    List.mem_filter.2 ⟨he, by simpa [hsame] using htarget⟩
  rw [hset.first target] at hheld
  cases hos : os.filter fun o => o.target = target with
  | nil => simp [hos] at ho
  | cons x xs =>
    simp only [hos, List.take_succ_cons, List.take_zero, List.mem_singleton] at hheld hkept
    rw [← hsource, hheld, hkept]

/-- An override of a variable that is there already, from the same source, changes nothing. -/
theorem KeepsFirst.held {set : OverrideSet} {os : List Override} {o e : Override}
    (hset : set.KeepsFirst os) (he : e ∈ set.entries)
    (hsame : e.target = o.target ∧ e.source = o.source) : set.KeepsFirst (os ++ [o]) := by
  refine ⟨fun target => ?_, fun x hx => ?_⟩
  · rw [hset.first target, List.filter_append]
    by_cases htarget : o.target = target
    · have hmem : e ∈ set.entries.filter fun o => o.target = target :=
        List.mem_filter.2 ⟨he, by simp [hsame.1, htarget]⟩
      rw [hset.first target] at hmem
      cases hos : os.filter fun o => o.target = target with
      | nil => simp [hos] at hmem
      | cons x xs => simp
    · simp [htarget]
  · rcases List.mem_append.1 hx with hx | hx
    · exact hset.source x hx
    · obtain rfl : x = o := by simpa using hx
      exact ⟨e, he, hsame⟩

/-- An override of a new variable is its first one. -/
theorem KeepsFirst.new {set : OverrideSet} {os : List Override} {o : Override}
    (hset : set.KeepsFirst os) (hnone : set.get? o.target = none) :
    KeepsFirst ⟨set.entries ++ [o]⟩ (os ++ [o]) := by
  refine ⟨fun target => ?_, fun x hx => ?_⟩
  · rw [List.filter_append, List.filter_append, hset.first target]
    by_cases htarget : o.target = target
    · have hempty : set.entries.filter (fun o => o.target = target) = [] := by
        rw [List.filter_eq_nil_iff]
        intro e he
        simpa [htarget] using List.find?_eq_none.1 hnone e he
      have hos : os.filter (fun o => o.target = target) = [] := by
        rw [hset.first target] at hempty
        simpa using hempty
      simp [hos, htarget]
    · simp [htarget]
  · rcases List.mem_append.1 hx with hx | hx
    · rcases hset.source x hx with ⟨e, he, hsame⟩
      exact ⟨e, List.mem_append_left _ he, hsame⟩
    · exact ⟨x, List.mem_append_right _ hx, rfl, rfl⟩

/-- An override that is added without an error is kept if it is the first of its variable. -/
theorem keepsFirst_add {set : OverrideSet} {os : List Override} {o : Override}
    (hset : set.KeepsFirst os) (hclean : (set.add o).2.hasErrors = false) :
    (set.add o).1.KeepsFirst (os ++ [o]) := by
  by_cases hheld : set.holdsFromSource o
  · have hadd : (set.add o).1 = set := by simp [add, hheld]
    rcases List.any_eq_true.1 hheld with ⟨e, he, hsame⟩
    rw [hadd]
    exact hset.held he (by simpa only [Bool.and_eq_true, decide_eq_true_eq] using hsame)
  · cases hinsert : set.insert o with
    | error d =>
      rcases insert_eq_error hinsert with ⟨first, -, rfl⟩
      simp [add, hheld, hinsert, Override.duplicate, Diagnostic.isError, Diagnostic.error,
        Diagnostic.about, Diagnostic.inside] at hclean
    | ok next =>
      rcases insert_eq_ok hinsert with ⟨hnone, rfl⟩
      have hadd : (set.add o).1 = ⟨set.entries ++ [o]⟩ := by simp [add, hheld, hinsert]
      rw [hadd]
      exact hset.new hnone

end OverrideSet

namespace Resolution

/-! ## What the tiers are given -/

/-- The overrides of keys and texts in turn. -/
def inlineOverrides (addressing : Addressing) (declared : VariableMap)
    (source : String → OverrideSource) (entries : Dict String) : List Override :=
  entries.filterMap fun entry =>
    (Decoding.inline addressing declared (source entry.1) entry.1 entry.2).toOption

/-- The overrides of a file; one that is refused has none. -/
def overridesOfFile (addressing : Addressing) (readers : Readers) (path : String) : List Override :=
  match Decoding.file addressing readers path with
  | .ok file => file.overrides.entries
  | .error _ => []

/-- The overrides made already that belong to a tier. -/
def suppliedTo (tier : Tier) (os : List Override) : List Override :=
  os.filter fun o => o.source.tier = tier

/-- All overrides of a tier: those of its keys or files in turn, then those made already. -/
def given (c : Configuration) (readers : Readers) (declared : VariableMap) : Tier → List Override
  | .environment =>
    inlineOverrides c.addressing declared .environment c.environment ++
      suppliedTo .environment c.supplied
  | .file =>
    c.files.flatMap (overridesOfFile c.addressing readers) ++ suppliedTo .file c.supplied
  | .cli =>
    inlineOverrides c.addressing declared .cli c.cli ++ suppliedTo .cli c.supplied

/-- The overrides of a variable that a tier is given. -/
def givenFor (c : Configuration) (readers : Readers) (declared : VariableMap) (target : Target)
    (tier : Tier) : List Override :=
  (given c readers declared tier).filter fun o => o.target = target

/-- The overrides of a variable that a tier keeps: all those of files, of the other tiers the first
one. -/
def keptFor (c : Configuration) (readers : Readers) (declared : VariableMap) (target : Target) :
    Tier → List Override
  | .environment => (givenFor c readers declared target .environment).take 1
  | .file => givenFor c readers declared target .file
  | .cli => (givenFor c readers declared target .cli).take 1

/-- What the tiers hold, in ascending precedence. -/
def inOrder (held : Tier → List Override) : List Override :=
  held .environment ++ held .file ++ held .cli

/-! ## What the phases make of it -/

theorem addInline_keepsFirst {addressing : Addressing} {declared : VariableMap}
    {source : String → OverrideSource} {set : OverrideSet} {os : List Override}
    {entries : Dict String} (hset : set.KeepsFirst os)
    (hclean : (addInline addressing declared source set entries).2.hasErrors = false) :
    (addInline addressing declared source set entries).1.KeepsFirst
      (os ++ inlineOverrides addressing declared source entries) := by
  induction entries generalizing set os with
  | nil => simpa [addInline, inlineOverrides] using hset
  | cons entry rest ih =>
    rcases entry with ⟨key, raw⟩
    cases hinline : Decoding.inline addressing declared (source key) key raw with
    -- An entry that cannot be read adds nothing and is not among the overrides either.
    | error ds =>
      simp only [addInline, hinline, Diagnostics.hasErrors_append, Bool.or_eq_false_iff] at hclean ⊢
      have hskip : inlineOverrides addressing declared source ((key, raw) :: rest) =
          inlineOverrides addressing declared source rest := by
        simp [inlineOverrides, hinline, Except.toOption]
      rw [hskip]
      exact ih hset hclean.2
    | ok o =>
      simp only [addInline, hinline, Diagnostics.hasErrors_append, Bool.or_eq_false_iff] at hclean ⊢
      have htake : inlineOverrides addressing declared source ((key, raw) :: rest) =
          o :: inlineOverrides addressing declared source rest := by
        simp [inlineOverrides, hinline, Except.toOption]
      rw [htake, List.append_cons]
      exact ih (OverrideSet.keepsFirst_add hset hclean.1) hclean.2

section Files

-- Reading a path computes on its text, which must not happen while `decodeFiles` is opened.
attribute [local irreducible] Decoding.file

theorem decodeFiles_cons (addressing : Addressing) (readers : Readers) (path : String)
    (rest : List String) :
    decodeFiles addressing readers (path :: rest) =
      match Decoding.file addressing readers path with
      | .error d => .error [d]
      | .ok file =>
        match decodeFiles addressing readers rest with
        | .error ds => .error (file.diagnostics ++ ds)
        | .ok (sets, ds) => .ok (file.overrides :: sets, file.diagnostics ++ ds) := rfl

theorem decodeFiles_entries {addressing : Addressing} {readers : Readers} {paths : List String}
    {sets : List OverrideSet} {ds : Diagnostics}
    (h : decodeFiles addressing readers paths = .ok (sets, ds)) :
    sets.flatMap OverrideSet.entries = paths.flatMap (overridesOfFile addressing readers) := by
  induction paths generalizing sets ds with
  | nil =>
    cases h
    rfl
  | cons path rest ih =>
    rw [decodeFiles_cons] at h
    split at h
    · simp at h
    · next file hfile =>
      split at h
      · simp at h
      · next others more hrest =>
        rcases Prod.mk.inj (Except.ok.inj h) with ⟨rfl, -⟩
        have hhead : overridesOfFile addressing readers path = file.overrides.entries := by
          unfold overridesOfFile
          rw [hfile]
        rw [List.flatMap_cons, List.flatMap_cons, hhead, ih hrest]

end Files

/-- Overrides made already are added to the sets of their tiers. -/
theorem addSupplied_keeps (all : Overrides) (supplied : OverrideSet) {os env cli : List Override}
    (henv : all.environment.KeepsFirst env) (hcli : all.cli.KeepsFirst cli)
    (hclean : (addSupplied all supplied os).2.2.hasErrors = false) :
    (addSupplied all supplied os).1.environment.KeepsFirst (env ++ suppliedTo .environment os) ∧
      (addSupplied all supplied os).1.cli.KeepsFirst (cli ++ suppliedTo .cli os) ∧
      (addSupplied all supplied os).1.files = all.files ∧
      (addSupplied all supplied os).2.1.entries = supplied.entries ++ suppliedTo .file os := by
  induction os generalizing all supplied env cli with
  | nil => exact ⟨by simpa [addSupplied, suppliedTo] using henv,
      by simpa [addSupplied, suppliedTo] using hcli, rfl, by simp [addSupplied, suppliedTo]⟩
  | cons o rest ih =>
    cases htier : o.source.tier with
    | environment =>
      simp only [addSupplied, htier, Diagnostics.hasErrors_append, Bool.or_eq_false_iff] at hclean ⊢
      have hrest := ih { all with environment := (all.environment.add o).1 } supplied
        (OverrideSet.keepsFirst_add henv hclean.1) hcli hclean.2
      simpa [suppliedTo, htier] using hrest
    | file =>
      cases hinsert : supplied.insert o with
      | error d =>
        -- A second override of a variable is an error here, whatever its source is.
        rcases OverrideSet.insert_eq_error hinsert with ⟨first, -, rfl⟩
        simp [addSupplied, htier, hinsert, Override.duplicate, Diagnostic.isError,
          Diagnostic.error, Diagnostic.about, Diagnostic.inside] at hclean
      | ok next =>
        rcases OverrideSet.insert_eq_ok hinsert with ⟨-, rfl⟩
        simp only [addSupplied, htier, hinsert, Diagnostics.hasErrors_append,
          Bool.or_eq_false_iff] at hclean ⊢
        have hrest := ih all _ henv hcli hclean.2
        simpa [suppliedTo, htier] using hrest
    | cli =>
      simp only [addSupplied, htier, Diagnostics.hasErrors_append, Bool.or_eq_false_iff] at hclean ⊢
      have hrest := ih { all with cli := (all.cli.add o).1 } supplied henv
        (OverrideSet.keepsFirst_add hcli hclean.1) hclean.2
      simpa [suppliedTo, htier] using hrest

/-- The overrides of a variable that a decoding without errors leaves for the merge. -/
theorem decode_kept {c : Configuration} {readers : Readers} {declared : VariableMap}
    {all : Overrides} {ds : Diagnostics} (h : decode c readers declared = .ok (all, ds))
    (hclean : ds.hasErrors = false) (target : Target) :
    (all.environment.entries ++ all.files.flatMap OverrideSet.entries ++ all.cli.entries).filter
        (fun o => o.target = target) = inOrder (keptFor c readers declared target) ∧
      ∀ tier ≠ .file, ∀ kept ∈ keptFor c readers declared target tier,
        ∀ o ∈ givenFor c readers declared target tier, o.source = kept.source := by
  unfold decode at h
  cases hfiles : decodeFiles c.addressing readers c.files with
  | error more => simp [hfiles] at h
  | ok result =>
    rcases result with ⟨files, middle⟩
    simp only [hfiles, Except.ok.injEq, Prod.mk.injEq] at h
    rcases h with ⟨rfl, rfl⟩
    simp only [Diagnostics.hasErrors_append, Bool.or_eq_false_iff] at hclean
    rcases hclean with ⟨⟨⟨hfront, -⟩, hback⟩, hmore⟩
    have henv := addInline_keepsFirst OverrideSet.keepsFirst_empty hfront
    have hcli := addInline_keepsFirst OverrideSet.keepsFirst_empty hback
    obtain ⟨henvironment, hflags, hsets, hsupplied⟩ :=
      addSupplied_keeps ⟨_, files, _⟩ .empty henv hcli hmore
    have hentries := decodeFiles_entries hfiles
    -- What was made already for the tier of the files is one more file, if there is any of it.
    have hfile : ∀ sets supplied, sets = files →
        OverrideSet.entries supplied = suppliedTo .file c.supplied →
        (if supplied.isEmpty then sets else sets ++ [supplied]).flatMap OverrideSet.entries =
          given c readers declared .file := by
      intro sets supplied hsets hsupplied
      rw [given, ← hentries, ← hsupplied, hsets]
      cases hnone : supplied.entries with
      | nil => simp [OverrideSet.isEmpty, hnone]
      | cons o os => simp [OverrideSet.isEmpty, hnone]
    have hempty : OverrideSet.entries .empty = ([] : List Override) := rfl
    rw [hempty, List.nil_append] at hsupplied
    rw [List.nil_append] at henvironment hflags
    constructor
    · rw [List.filter_append, List.filter_append, hfile _ _ hsets hsupplied,
        henvironment.first target, hflags.first target]
      rfl
    · intro tier htier kept hkept
      cases tier with
      | environment => exact henvironment.source_eq hkept
      | file => exact absurd rfl htier
      | cli => exact hflags.source_eq hkept

end Resolution

/-! ## Whole resolutions -/

/-- A resolution written as its three phases. -/
theorem Configuration.resolve_eq (c : Configuration) (readers : Readers) :
    c.resolve readers =
      let front := Resolution.collect c.declarations
      if front.2.hasErrors then .error front.2
      else
        match Resolution.decode c readers front.1 with
        | .error ds => .error (front.2 ++ ds)
        | .ok (all, ds) =>
          let merged := Resolution.merge c.ignoreMissing front.1 all
          if (front.2 ++ ds).hasErrors then .error (front.2 ++ ds)
          else if (front.2 ++ ds ++ merged.2).hasErrors then .error (front.2 ++ ds ++ merged.2)
          else .ok ⟨c.root, c.scheme, merged.1⟩ := by
  unfold Configuration.resolve
  -- The run stops at the first stage that ends with an error, so the stages split the cases.
  by_cases hfront : (Resolution.collect c.declarations).2.hasErrors
  · simp [hfront, bind, Except.bind, throw, throwThe, MonadExceptOf.throw]
  · cases hdecode : Resolution.decode c readers (Resolution.collect c.declarations).1 with
    | error ds =>
      simp [hfront, hdecode, bind, Except.bind, Except.mapError]
    | ok result =>
      rcases result with ⟨all, ds⟩
      by_cases hds : ds.hasErrors
      · simp [hfront, hdecode, hds, bind, Except.bind, Except.mapError, throw, throwThe,
          MonadExceptOf.throw]
      · by_cases hmerge : (Resolution.merge c.ignoreMissing
            (Resolution.collect c.declarations).1 all).2.hasErrors
        · simp [hfront, hdecode, hds, hmerge, bind, Except.bind, Except.mapError, throw, throwThe,
            MonadExceptOf.throw]
        · simp [hfront, hdecode, hds, hmerge, bind, Except.bind, Except.mapError, pure,
            Except.pure]

/-- A resolution that succeeds went through its three phases without an error. -/
theorem Configuration.resolve_eq_ok {c : Configuration} {readers : Readers} {r : Resolved}
    (h : c.resolve readers = .ok r) :
    ∃ all ds, Resolution.decode c readers (Resolution.collect c.declarations).1 = .ok (all, ds) ∧
      ds.hasErrors = false ∧
      (Resolution.merge c.ignoreMissing (Resolution.collect c.declarations).1 all).2.hasErrors =
        false ∧
      r.packages =
        (Resolution.merge c.ignoreMissing (Resolution.collect c.declarations).1 all).1 := by
  rw [Configuration.resolve_eq] at h
  simp only [Diagnostics.hasErrors_append] at h
  split at h
  · simp at h
  · split at h
    · simp at h
    · next all ds hdecode =>
      split at h
      · simp at h
      · next hdecoded =>
        split at h
        · simp at h
        · next hmerged =>
          simp only [Bool.or_eq_true, not_or, Bool.not_eq_true] at hdecoded hmerged
          exact ⟨all, ds, hdecode, hdecoded.2, hmerged.2, by cases h; rfl⟩

namespace Resolution

/-- After a resolution every declared variable is settled by the overrides of it that the tiers
keep, in ascending precedence. What the environment or the flags leave out has the source of what
they keep; where nothing is left out, all overrides of the variable settle it. -/
theorem resolve_precedence {c : Configuration} {readers : Readers} {r : Resolved}
    (h : c.resolve readers = .ok r) {target : Target} {v : Variable}
    (hv : (collect c.declarations).1.lookup? target = some v) :
    ∃ w, r.get? target = some w ∧
      v.settled (inOrder (keptFor c readers (collect c.declarations).1 target)) = some w ∧
      (∀ tier ≠ .file, ∀ kept ∈ keptFor c readers (collect c.declarations).1 target tier,
        ∀ o ∈ givenFor c readers (collect c.declarations).1 target tier, o.source = kept.source) ∧
      ((∀ tier ≠ .file, (givenFor c readers (collect c.declarations).1 target tier).length ≤ 1) →
        v.settled (inOrder (givenFor c readers (collect c.declarations).1 target)) = some w) := by
  rcases Configuration.resolve_eq_ok h with ⟨all, ds, hdecode, hds, hmerge, hpackages⟩
  rcases decode_kept hdecode hds target with ⟨hkept, hsource⟩
  rcases merge_settled hmerge hv with ⟨w, hw, hsettled⟩
  rw [hkept] at hsettled
  refine ⟨w, by rw [Resolved.get?, hpackages, hw], hsettled, hsource, fun hall => ?_⟩
  have henv := hall .environment (by decide)
  have hcli := hall .cli (by decide)
  have hsame : inOrder (keptFor c readers (collect c.declarations).1 target) =
      inOrder (givenFor c readers (collect c.declarations).1 target) := by
    simp only [inOrder, keptFor, List.take_of_length_le henv, List.take_of_length_le hcli]
  rw [← hsame]
  exact hsettled

theorem exists_eq_ok {ε α : Type} {x : Except ε α} (h : x.toOption.isSome) : ∃ a, x = .ok a := by
  cases x with
  | error e => cases h
  | ok a => exact ⟨a, rfl⟩

/-- A number that the environment, a file and a flag set in turn. The file is named from the
root. -/
def tieredNumber : Configuration where
  root := ⟨"web"⟩
  declarations := [("web", ⟨"variables.hcl", "variable \"port\" \x7b\n  type = number\n\x7d\n"⟩)]
  environment := [("port", "81")]
  files := ["/etc/o.hcl"]
  cli := [("web.port", "83")]

/-- The file that `tieredNumber` names. -/
def tieredFiles : FileTree := FileTree.empty.add "/etc/o.hcl" "port = \"82\"\n".toUTF8

theorem resolve_precedence_tieredNumber :
    ∃ r v w, tieredNumber.resolve tieredFiles = .ok r ∧
      (collect tieredNumber.declarations).1.lookup? ⟨⟨"web"⟩, "port"⟩ = some v ∧
      r.get? ⟨⟨"web"⟩, "port"⟩ = some w ∧
      v.settled (inOrder (givenFor tieredNumber tieredFiles (collect tieredNumber.declarations).1
        ⟨⟨"web"⟩, "port"⟩)) = some w := by
  have hresolved : (tieredNumber.resolve tieredFiles).toOption.isSome := by decide +kernel
  have hdeclared :
      ((collect tieredNumber.declarations).1.lookup? ⟨⟨"web"⟩, "port"⟩).isSome := by
    decide +kernel
  rcases Option.isSome_iff_exists.1 hdeclared with ⟨v, hv⟩
  rcases exists_eq_ok hresolved with ⟨r, hr⟩
  rcases resolve_precedence hr hv with ⟨w, hw, -, -, hsettled⟩
  refine ⟨r, v, w, hr, hv, hw, hsettled fun tier htier => ?_⟩
  cases tier with
  | environment => decide +kernel
  | file => exact absurd rfl htier
  | cli => decide +kernel

/-- A variable that the environment sets, and an override from the same source that is made
already. -/
def repeatedSource : Configuration where
  root := ⟨"web"⟩
  declarations := [("web", ⟨"variables.hcl", "variable \"x\" \x7b\n\x7d\n"⟩)]
  environment := [("x", "1")]
  supplied := [⟨⟨⟨"web"⟩, "x"⟩, .string "2", none, .point "caller" .start, .environment "x"⟩]

/-- The last override of a variable does not always give its value: one from the source of an
earlier one is lost. -/
theorem repeatedSource_loses_last :
    ((repeatedSource.resolve FileTree.empty).toOption.bind fun r =>
        (r.get? ⟨⟨"web"⟩, "x"⟩).map Variable.value) = some (.string "1") ∧
      (((collect repeatedSource.declarations).1.lookup? ⟨⟨"web"⟩, "x"⟩).bind fun v =>
        (v.settled (inOrder (givenFor repeatedSource FileTree.empty
          (collect repeatedSource.declarations).1 ⟨⟨"web"⟩, "x"⟩))).map Variable.value) =
            some (.string "2") := by
  decide +kernel

end Resolution

end Overlay
