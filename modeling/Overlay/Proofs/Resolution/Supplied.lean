import Overlay.Proofs.Resolution.Tiers

/-!
# Overrides that are made already

What becomes of an override that a caller supplies for a tier in which its variable is set already.

* `resolve_supplied_again`: it ends the resolution as a duplicate if the override that came first is
  from another source. If that one is from the same source, the resolution goes on as if it were
  not there.
* `sameSource_loses_supplied`: so it can be lost without a word.
-/

namespace Overlay

/-- The configuration with other overrides that are made already. -/
def Configuration.withSupplied (c : Configuration) (os : List Override) : Configuration :=
  { c with supplied := os }

namespace Resolution

variable {c : Configuration} {readers : Readers} {declared : VariableMap} {all : Overrides}
  {supplied : OverrideSet} {before after : List Override} {o first : Override}

/-- A supplied override from the source of the override that its variable has changes nothing. -/
theorem addSupplied_same_source (htier : o.source.tier ≠ .file)
    (hset : (all.set o.source.tier).Distinct)
    (hfirst : (all.set o.source.tier).get? o.target = some first)
    (hsource : first.source = o.source) :
    addSupplied all supplied (o :: after) = addSupplied all supplied after := by
  rw [addSupplied_cons _ htier, OverrideSet.add_of_some hset hfirst, if_pos hsource,
    Overrides.put_set_self]
  rfl

/-- The override that a variable has in its tier behind the first supplied ones. -/
theorem get?_addSupplied (files : List OverrideSet) (htier : o.source.tier ≠ .file)
    (hfirst : (givenFor (c.withSupplied before) readers declared o.target
      o.source.tier).head? = some first) :
    ((addSupplied (inlineRun c declared files) .empty before).1.set o.source.tier).Distinct ∧
      ((addSupplied (inlineRun c declared files) .empty before).1.set o.source.tier).get? o.target =
        some first := by
  rw [(addSupplied_run _ _ before htier).1, inlineRun_set files htier]
  have hgiven : given (c.withSupplied before) readers declared o.source.tier =
      inlineOf c declared o.source.tier ++ suppliedTo o.source.tier before := given_eq htier
  have hrun : ((OverrideSet.empty.addAll (inlineOf c declared o.source.tier)).1.addAll
      (suppliedTo o.source.tier before)).1 =
      (OverrideSet.empty.addAll
        (given (c.withSupplied before) readers declared o.source.tier)).1 := by
    rw [hgiven, OverrideSet.addAll_append]
  rw [hrun]
  refine ⟨OverrideSet.distinct_addAll OverrideSet.distinct_empty _, ?_⟩
  rw [OverrideSet.get?_addAll OverrideSet.distinct_empty, ← List.head?_filter]
  exact hfirst

/-- A decoding leaves out a supplied override from the source of the override that came first. -/
theorem decode_same_source (hsupplied : c.supplied = before ++ o :: after)
    (htier : o.source.tier ≠ .file)
    (hfirst : (givenFor (c.withSupplied before) readers declared o.target
      o.source.tier).head? = some first) (hsource : first.source = o.source) :
    decode c readers declared = decode (c.withSupplied (before ++ after)) readers declared := by
  have hrun : ∀ files, addSupplied (inlineRun c declared files) .empty (before ++ o :: after) =
      addSupplied (inlineRun c declared files) .empty (before ++ after) := by
    intro files
    rcases get?_addSupplied files htier hfirst with ⟨hset, hget⟩
    simp only [addSupplied_append, addSupplied_same_source htier hset hget hsource]
  rw [decode_eq, decode_eq, hsupplied]
  have hfiles : decodeFiles (c.withSupplied (before ++ after)).addressing readers
      (c.withSupplied (before ++ after)).files = decodeFiles c.addressing readers c.files := rfl
  rw [hfiles]
  cases decodeFiles c.addressing readers c.files with
  | error ds => rfl
  | ok result =>
    simp only [hrun]
    rfl

/-- A decoding reports a supplied override from another source than the one that came first. -/
theorem decode_other_source {ds : Diagnostics} (h : decode c readers declared = .ok (all, ds))
    (hsupplied : c.supplied = before ++ o :: after) (htier : o.source.tier ≠ .file)
    (hfirst : (givenFor (c.withSupplied before) readers declared o.target
      o.source.tier).head? = some first) (hsource : first.source ≠ o.source) :
    first.duplicate o ∈ ds := by
  have hgiven : given c readers declared o.source.tier =
      given (c.withSupplied before) readers declared o.source.tier ++
        suppliedTo o.source.tier (o :: after) := by
    rw [given_eq htier, given_eq htier, hsupplied]
    have hsplit : suppliedTo o.source.tier (before ++ o :: after) =
        suppliedTo o.source.tier before ++ suppliedTo o.source.tier (o :: after) :=
      List.filter_append _ _
    rw [hsplit, ← List.append_assoc]
    rfl
  apply decode_duplicate h htier ?_ ?_ hsource
  · rw [givenFor, hgiven, List.filter_append, List.head?_append]
    rw [givenFor] at hfirst
    rw [hfirst]
    rfl
  · refine List.mem_filter.2 ⟨?_, by simp⟩
    rw [hgiven, suppliedTo_cons, if_pos rfl]
    simp

/-- An override is supplied for a variable that its tier sets already. From another source than the
override that came first, it ends the resolution as a duplicate of that one; from the same source,
the resolution is the one without it. -/
theorem resolve_supplied_again (hcollect : (collect c.declarations).2.hasErrors = false)
    (hfiles : ∀ path ∈ c.files, ∃ file, Decoding.file c.addressing readers path = .ok file)
    (hsupplied : c.supplied = before ++ o :: after) (htier : o.source.tier ≠ .file)
    (hfirst : (givenFor (c.withSupplied before) readers (collect c.declarations).1 o.target
      o.source.tier).head? = some first) :
    (first.source ≠ o.source → ∃ ds, c.resolve readers = .error ds ∧
      first.duplicate o ∈ ds ∧ (first.duplicate o).category = .duplicateDefinition) ∧
    (first.source = o.source →
      c.resolve readers = (c.withSupplied (before ++ after)).resolve readers) := by
  constructor
  · intro hsource
    rcases decode_eq_ok (collect c.declarations).1 hfiles with ⟨all, ds, hdecode⟩
    have hduplicate := decode_other_source hdecode hsupplied htier hfirst hsource
    have herrors : ds.hasErrors = true :=
      List.any_eq_true.2 ⟨_, hduplicate, duplicate_isError first o⟩
    refine ⟨(collect c.declarations).2 ++ ds, ?_, List.mem_append_right _ hduplicate,
      duplicate_category first o⟩
    exact resolve_eq_error hcollect hdecode herrors
  · intro hsource
    have hdecode := decode_same_source hsupplied htier hfirst hsource
    simp only [Configuration.resolve_eq, hdecode]
    rfl

/-- A variable that the environment sets, and an override of it from another environment variable
that is made already. An override file is named from the root. -/
def contested : Configuration where
  root := ⟨"web"⟩
  declarations := [("web", ⟨"variables.hcl", "variable \"x\" \x7b\n\x7d\n"⟩)]
  environment := [("x", "1")]
  files := ["/etc/web.vars"]
  supplied := [⟨⟨⟨"web"⟩, "x"⟩, .string "2", none, .point "caller" .start, .environment "web.x"⟩]

/-- The file that `contested` names. -/
def contestedFiles : FileTree := FileTree.empty.add "/etc/web.vars" "x = 3\n".toUTF8

theorem resolve_supplied_again_contested :
    ∃ first o ds, contested.supplied = [o] ∧
      (givenFor (contested.withSupplied []) contestedFiles (collect contested.declarations).1
        o.target o.source.tier).head? = some first ∧
      first.source ≠ o.source ∧ contested.resolve contestedFiles = .error ds ∧
      first.duplicate o ∈ ds := by
  let o : Override :=
    ⟨⟨⟨"web"⟩, "x"⟩, .string "2", none, .point "caller" .start, .environment "web.x"⟩
  let first : Override :=
    ⟨⟨⟨"web"⟩, "x"⟩, .string "1", none, .whole "<env:x>" "1", .environment "x"⟩
  have hfirst : (givenFor (contested.withSupplied []) contestedFiles
      (collect contested.declarations).1 o.target o.source.tier).head? = some first := by
    decide +kernel
  have hsource : first.source ≠ o.source := by decide
  have hfiles : ∀ path ∈ contested.files,
      ∃ file, Decoding.file contested.addressing contestedFiles path = .ok file := by
    intro path hpath
    obtain rfl : path = "/etc/web.vars" := List.mem_singleton.1 hpath
    exact exists_eq_ok (by decide +kernel)
  have hagain := @resolve_supplied_again contested contestedFiles [] [] o first
    (by decide +kernel) hfiles rfl (by decide) hfirst
  rcases hagain.1 hsource with ⟨ds, hresolve, hduplicate, -⟩
  exact ⟨first, o, ds, rfl, hfirst, hsource, hresolve, hduplicate⟩

/-- A supplied override of a variable that its tier sets already does not always end the resolution:
`repeatedSource` supplies one from the source of the first, and it is lost without a word. -/
theorem sameSource_loses_supplied :
    (collect repeatedSource.declarations).2.hasErrors = false ∧ repeatedSource.files = [] ∧
      (∃ o, repeatedSource.supplied = [o] ∧ o.source.tier = .environment ∧
        (inlineOf repeatedSource (collect repeatedSource.declarations).1 .environment).map
          Override.target = [o.target] ∧ o.value = .string "2") ∧
      ((repeatedSource.resolve FileTree.empty).toOption.bind fun r =>
        (r.get? ⟨⟨"web"⟩, "x"⟩).map Variable.value) = some (.string "1") := by
  refine ⟨by decide +kernel, rfl, ⟨_, rfl, rfl, by decide +kernel, rfl⟩, by decide +kernel⟩

end Resolution

end Overlay
