import Overlay.Proofs.Hcl.Entries
import Overlay.Proofs.Hcl.Parts
import Overlay.Proofs.Source.Native
import Overlay.Proofs.Source.Ranges

/-!
# Overrides and their texts

An override file in the configuration language that is decoded without errors loses nothing
(`native_recorded_in_full`).

* Without errors every entry of the container is recorded, in order (`foldl_recordEntry_clean`).
* The tokens of an entry are those of the part of the content that its range covers, and moved to the
  start they derive the same entry (`Wrapped.exists_part`). So that part, decoded alone, gives the same
  override (`native_of_derivation`).
-/

namespace Overlay

open Hcl (Tokens Token Entry Key Container Wrapped IsAssignment IsAssignments)

/-! ## Entries that are moved -/

namespace Hcl.Wrapped

variable {w : Wrapped} {us : List Token} {e : Entry}

/-- An entry that is derived from tokens of the content stands for a part of the content, and moved to
the start it is derived from the tokens of that part alone. -/
theorem exists_part (hclean : (Tokens.ofText w.content).faults = [])
    (hus : us <:+: (Tokens.ofText w.content).tokens.map (Token.mapSpan shiftSpan))
    (he : IsAssignment us e) :
    ∃ front part back g, w.content.toList = front ++ part ++ back ∧
      e.key.span.upTo e.value.span =
        shiftSpan ⟨Pos.start.advanceAll front, Pos.start.advanceAll (front ++ part)⟩ ∧
      (Tokens.ofText (String.ofList part)).faults = [] ∧
      IsAssignment ((Tokens.ofText (String.ofList part)).tokens.map (Token.mapSpan shiftSpan))
        (e.mapSpans (Span.map g)) := by
  -- The tokens are moved ones of the content, and these stand one behind the other there.
  rcases hus with ⟨as, bs, hparts⟩
  rcases List.map_eq_append_iff.1 hparts.symm with ⟨front, ds, htokens, hfront, hds⟩
  rcases List.map_eq_append_iff.1 hfront with ⟨cs, ts, rfl, -, rfl⟩
  have hne : ts ≠ [] := by
    rintro rfl
    rcases opens_isAssignment _ _ he with ⟨t, us, hnone, -⟩
    cases hnone
  rcases Tokens.ofText_part htokens hne hclean with ⟨before, part, behind, htext, hspan, hfaults, halone⟩
  refine ⟨before, part, behind, Pos.rebase (shift (Pos.start.advanceAll before)) (shift .start), htext,
    ?_, hfaults, ?_⟩
  · rw [he.span_eq, ← hspan]
    exact spanOf_map hne
  · -- The part starts at its first token, so moving all places back by that much gives its tokens.
    have hmoved := he.map (Pos.rebase (shift (Pos.start.advanceAll before)) (shift .start))
    have hsame : (Tokens.ofText (String.ofList part)).tokens.map (Token.mapSpan shiftSpan) =
        (ts.map (Token.mapSpan shiftSpan)).map (Token.mapSpan
          (Span.map (Pos.rebase (shift (Pos.start.advanceAll before)) (shift .start)))) := by
      rw [halone, List.map_map, List.map_map]
      refine List.map_congr_left fun t _ => ?_
      simp only [Function.comp, Token.mapSpan, shiftSpan, Span.map, rebase_shift]
    rw [hsame]
    exact hmoved

/-- The entries of a container stand one behind the other. -/
theorem pairwise_entries {es : List Entry}
    (hes : IsAssignments ((Tokens.ofText w.content).tokens.map (Token.mapSpan shiftSpan)) es) :
    es.Pairwise fun a b =>
      (a.key.span.upTo a.value.span).stop ≤ (b.key.span.upTo b.value.span).start := by
  have horder : ((Tokens.ofText w.content).tokens.map (Token.mapSpan shiftSpan)).Pairwise
      fun t u => t.span.stop ≤ u.span.start := by
    have hcontent := Tokens.ofText_inOrder w.content
    refine List.pairwise_map.2 (hcontent.pairwise.2.imp ?_)
    exact fun h => shift_le_shift.2 h
  refine IsLines.pairwise ?_ hes horder
  intro us a vs b ha hb hbetween
  rw [ha.span_eq, hb.span_eq]
  rcases ha.exists_concat with ⟨front, t, rfl, -⟩
  rcases opens_isAssignment _ _ hb with ⟨u, vs, rfl, -⟩
  have hlast := hbetween t (by simp) u List.mem_cons_self
  have hstop : (spanOf (front ++ [t])).stop = t.span.stop := by
    rcases front with - | ⟨v, front⟩
    · rfl
    · rw [List.cons_append, spanOf_cons, stopAfter_append]
      rfl
  rw [hstop]
  exact hlast

end Hcl.Wrapped

namespace Decoding

variable {addressing : Addressing} {filename : String} {w : Wrapped} {r : Record} {e : Entry}

theorem stepNames_mapSpans (f : Span → Span) (steps : List Hcl.Step) :
    stepNames (Hcl.mapSteps f steps) = stepNames steps := by
  induction steps with
  | nil => rfl
  | cons step steps ih =>
    cases step with
    | attr name span =>
      rw [Hcl.mapSteps, Hcl.Step.mapSpans, stepNames, stepNames, ih]
    | index key span => rfl

theorem keySegments_mapSpans (f : Span → Span) (key : Key) :
    keySegments (key.mapSpans f) = keySegments key := by
  cases key with
  | path path =>
    rcases path with ⟨root, rootSpan, steps, span⟩
    simp only [Key.mapSpans, Hcl.Traversal.mapSpans, keySegments, Hcl.Traversal.steps,
      Hcl.Traversal.root, stepNames_mapSpans]
  | expr e => cases e <;> rfl

/-! ## Recording without errors -/

theorem Gives.mapSpans {target : Target} {value : Value} (h : Gives addressing e target value)
    (f : Span → Span) : Gives addressing (e.mapSpans f) target value := by
  rcases e with ⟨key, expr⟩
  refine ⟨?_, ?_⟩
  · simpa only [Entry.mapSpans, Entry.key, keySegments_mapSpans] using h.key
  · have hvalue : expr.evaluate = .pure value := h.value
    show (expr.mapSpans f).evaluate = .pure value
    rw [Hcl.Expr.evaluate_mapSpans, hvalue]
    rfl

/-- Whether an override records an assignment of a container. -/
structure Records (addressing : Addressing) (filename : String) (w : Wrapped) (e : Entry)
    (o : Override) : Prop where
  gives : Gives addressing e o.target o.value
  type : o.type = none
  range : o.range = w.unwrapRange ((e.key.span.upTo e.value.span).within filename)
  source : o.source = .file filename

theorem Record.report_clean {ds : Diagnostics} (h : (r.report ds).diagnostics.hasErrors = false) :
    ds.hasErrors = false := by
  have hboth : (r.diagnostics.hasErrors || ds.hasErrors) = false := List.any_append.symm.trans h
  exact (Bool.or_eq_false_iff.1 hboth).2

/-- Without errors an override is added and nothing is reported. -/
theorem Record.assign_clean {segments : List String} {value : Value} {range keyRange : SourceRange}
    (h : (r.assign addressing filename segments value range keyRange).diagnostics.hasErrors = false) :
    ∃ target, addressing.scheme.resolveKey addressing.root segments = .ok target ∧
      r.assign addressing filename segments value range keyRange =
        r.put ⟨target, value, none, range, .file filename⟩ := by
  unfold Record.assign at h ⊢
  cases hkey : addressing.scheme.resolveKey addressing.root segments with
  | error detail =>
    simp only [hkey] at h
    cases Record.report_clean h
  | ok target =>
    simp only [hkey] at h ⊢
    cases hinsert : r.overrides.insert ⟨target, value, none, range, .file filename⟩ with
    | error d =>
      rcases OverrideSet.insert_eq_error hinsert with ⟨first, -, rfl⟩
      simp only [hinsert] at h
      cases Record.report_clean h
    | ok overrides =>
      refine ⟨target, rfl, ?_⟩
      rw [(OverrideSet.insert_eq_ok hinsert).2]
      rfl

/-- Every problem of an evaluation is an error, so without errors there is none. -/
theorem evaluate_clean {x : Evaluated Value}
    (h : (w.unwrapDiagnostics (x.diagnostics filename)).hasErrors = false) : x = .pure x.result := by
  rcases x with ⟨result, - | ⟨f, faults⟩⟩
  · rfl
  · cases h

/-- An entry that is recorded without errors. -/
theorem recordEntry_clean
    (h : (recordEntry addressing filename w r e).diagnostics.hasErrors = false) :
    ∃ o, Records addressing filename w e o ∧ recordEntry addressing filename w r e = r.put o := by
  unfold recordEntry at h ⊢
  cases hsegments : keySegments e.key with
  | error detail =>
    simp only [hsegments] at h
    cases Record.report_clean h
  | ok segments =>
    by_cases herrors :
        (w.unwrapDiagnostics (e.value.evaluate.diagnostics filename)).hasErrors = true
    · simp only [hsegments, herrors, if_true] at h
      rw [Record.report_clean h] at herrors
      cases herrors
    · have hvalue := evaluate_clean (Bool.eq_false_iff.2 herrors)
      have hsilent : r.report (w.unwrapDiagnostics (e.value.evaluate.diagnostics filename)) = r := by
        rw [hvalue]
        simp [Record.report, Evaluated.diagnostics, Evaluated.pure, Wrapped.unwrapDiagnostics,
          Diagnostics.mapRanges]
      simp only [hsegments, herrors, hsilent] at h ⊢
      rcases Record.assign_clean h with ⟨target, htarget, hput⟩
      exact ⟨_, ⟨⟨⟨segments, hsegments, htarget⟩, hvalue⟩, rfl, rfl, rfl⟩, hput⟩

/-- Entries that are recorded without errors are all recorded, in order. -/
theorem foldl_recordEntry_clean {es : List Entry}
    (h : (es.foldl (recordEntry addressing filename w) r).diagnostics.hasErrors = false) :
    ∃ os, List.Forall₂ (Records addressing filename w) es os ∧
      es.foldl (recordEntry addressing filename w) r =
        { r with overrides := ⟨r.overrides.entries ++ os⟩ } := by
  induction es generalizing r with
  | nil => exact ⟨[], .nil, by simp⟩
  | cons e es ih =>
    rw [List.foldl_cons] at h ⊢
    rcases ih h with ⟨os, hos, hfold⟩
    -- The entries behind the first one report nothing, so its own record has no errors either.
    rw [hfold] at h
    rcases recordEntry_clean h with ⟨o, ho, hput⟩
    refine ⟨o :: os, .cons ho hos, ?_⟩
    rw [hfold, hput]
    simp [Record.put]

/-! ## Files without errors -/

/-- A content that is decoded without errors: its entries, and what is recorded of them. -/
theorem native_clean {content : String}
    (h : (native addressing filename content).diagnostics.hasErrors = false) :
    (Tokens.ofText content).faults = [] ∧ (native addressing filename content).diagnostics = [] ∧
      ∃ c, (Container.parse (Wrapped.text ⟨content⟩) filename).tree = some c ∧
        IsAssignments ((Tokens.ofText content).tokens.map (Token.mapSpan Wrapped.shiftSpan))
          c.entries ∧
        List.Forall₂ (Records addressing filename ⟨content⟩) c.entries
          (native addressing filename content).overrides.entries := by
  let w : Wrapped := ⟨content⟩
  have herrors : (w.unwrapDiagnostics
      (Container.parse w.text filename).diagnostics).hasErrors = false := by
    refine Bool.eq_false_iff.2 fun herrors => ?_
    -- With an error in the container the record would be its reports, against the hypothesis.
    have hreport : native addressing filename content =
        ({} : Record).report (w.unwrapDiagnostics (Container.parse w.text filename).diagnostics) := by
      unfold native
      dsimp only
      split
      · rfl
      · rw [Record.diagnostics_report_empty, if_pos herrors]
    rw [hreport, Record.diagnostics_report_empty, herrors] at h
    cases h
  have hsilent := parse_clean herrors
  rcases Wrapped.parse_derivation_entries hsilent with ⟨hclean, -, c, htree, hentries⟩
  have hnative : native addressing filename content =
      c.entries.foldl (recordEntry addressing filename w) {} := by
    unfold native
    simp only [w] at htree hsilent
    simp only [htree, hsilent]
    rfl
  rw [hnative] at h ⊢
  rcases foldl_recordEntry_clean h with ⟨os, hos, hfold⟩
  rw [hfold]
  exact ⟨hclean, rfl, c, htree, Wrapped.isAssignments_of_entryTokens hentries, hos⟩

/-- An assignment that is derived from all the tokens of a content is its one override. -/
theorem native_of_derivation {content : String} {target : Target} {value : Value}
    (hclean : (Tokens.ofText content).faults = [])
    (he : IsAssignment ((Tokens.ofText content).tokens.map (Token.mapSpan Wrapped.shiftSpan)) e)
    (hgives : Gives addressing e target value) (filename : String) :
    ∃ o, native addressing filename content = ⟨⟨[o]⟩, []⟩ ∧ o.target = target ∧ o.value = value := by
  have hentries := Hcl.IsLines.last (P := IsAssignment) (nofun : Hcl.LineEnds []) he
  rcases Wrapped.parse_of_derivation (w := ⟨content⟩) filename hclean hentries with
    ⟨hsilent, c, htree, hc⟩
  have hnative : native addressing filename content =
      recordEntry addressing filename ⟨content⟩ {} e := by
    unfold native
    simp only [htree, hsilent, hc]
    rfl
  rw [hnative, recordEntry_gives filename ⟨content⟩ hgives rfl]
  exact ⟨_, rfl, rfl, rfl⟩

/-- Whether an override stands for an entry of a container as a part of the content that gives the same
override alone. -/
def Stands (addressing : Addressing) (filename : String) (w : Wrapped) (e : Entry) (o : Override) :
    Prop :=
  ∃ front part back, w.content.toList = front ++ part ++ back ∧
    e.key.span.upTo e.value.span =
      Wrapped.shiftSpan ⟨Pos.start.advanceAll front, Pos.start.advanceAll (front ++ part)⟩ ∧
    o.range = ⟨filename, Pos.start.advanceAll front, Pos.start.advanceAll (front ++ part)⟩ ∧
    ∀ name, ∃ alone, native addressing name (String.ofList part) = ⟨⟨[alone]⟩, []⟩ ∧
      alone.target = o.target ∧ alone.value = o.value

theorem Records.stands {us : List Token} {o : Override}
    (hclean : (Tokens.ofText w.content).faults = [])
    (hus : us <:+: (Tokens.ofText w.content).tokens.map (Token.mapSpan Wrapped.shiftSpan))
    (he : IsAssignment us e) (ho : Records addressing filename w e o) :
    Stands addressing filename w e o := by
  rcases Wrapped.exists_part hclean hus he with
    ⟨front, part, back, g, htext, hspan, hfaults, halone⟩
  refine ⟨front, part, back, htext, hspan, ?_, ?_⟩
  · have hstretch : Span.IsStretch .start w.content.toList
        ⟨Pos.start.advanceAll front, Pos.start.advanceAll (front ++ part)⟩ :=
      ⟨front, part, back, htext, rfl⟩
    rw [ho.range, Wrapped.unwrapRange_within, hspan,
      Wrapped.unwraps_unwrapSpan (Wrapped.wrapsSpan_shiftSpan hstretch)]
    rfl
  · exact native_of_derivation hfaults halone (ho.gives.mapSpans _)

theorem exists_stands {es : List Entry} {os : List Override}
    (h : List.Forall₂ (Stands addressing filename w) es os) :
    ∀ o ∈ os, ∃ e ∈ es, Stands addressing filename w e o := by
  induction h with
  | nil => exact fun _ h => absurd h List.not_mem_nil
  | cons ho _ ih =>
    refine List.forall_mem_cons.2 ⟨⟨_, List.mem_cons_self, ho⟩, fun o' ho' => ?_⟩
    rcases ih o' ho' with ⟨e', he', hstands⟩
    exact ⟨e', List.mem_cons_of_mem _ he', hstands⟩

/-- Overrides stand in the order of their entries. -/
theorem pairwise_ranges {es : List Entry} {os : List Override}
    (h : List.Forall₂ (Stands addressing filename w) es os)
    (hes : es.Pairwise fun a b =>
      (a.key.span.upTo a.value.span).stop ≤ (b.key.span.upTo b.value.span).start) :
    os.Pairwise fun a b => a.range.stop ≤ b.range.start := by
  induction h with
  | nil => exact .nil
  | @cons e o es os ho hos ih =>
    rw [List.pairwise_cons] at hes
    refine .cons (fun o' ho' => ?_) (ih hes.2)
    rcases exists_stands hos o' ho' with ⟨e', he', hstands⟩
    have hle := hes.1 e' he'
    rcases ho with ⟨front, part, back, -, hspan, hrange, -⟩
    rcases hstands with ⟨front', part', back', -, hspan', hrange', -⟩
    rw [hspan, hspan'] at hle
    rw [hrange, hrange']
    exact Wrapped.shift_le_shift.1 hle

/-- A file of the configuration language without errors loses nothing. Its overrides record the entries
of its container, one by one and in order, and stand one behind the other. The range of each cuts a
text out of the content that, decoded alone, reports nothing and gives one override, of the same
variable and with the same value. -/
theorem native_recorded_in_full (addressing : Addressing) (filename content : String)
    (h : (source addressing filename content .native).diagnostics.hasErrors = false) :
    (∃ c, (Container.parse (Wrapped.text ⟨content⟩) filename).tree = some c ∧
      List.Forall₂ (Records addressing filename ⟨content⟩) c.entries
        (source addressing filename content .native).overrides.entries) ∧
    (source addressing filename content .native).overrides.entries.Pairwise
      (fun a b => a.range.stop ≤ b.range.start) ∧
    ∀ o ∈ (source addressing filename content .native).overrides.entries,
      ∃ text, o.range.slice? content = some text ∧
        ∀ name, (source addressing name text .native).diagnostics = [] ∧
          ∃ alone, (source addressing name text .native).overrides.entries = [alone] ∧
            alone.target = o.target ∧ alone.value = o.value := by
  rw [source_native, Record.toFile_diagnostics] at h
  rcases native_clean h with ⟨hclean, -, c, htree, hentries, hrecords⟩
  rw [source_native, Record.toFile_clean h]
  have hstands : List.Forall₂ (Stands addressing filename ⟨content⟩) c.entries
      (native addressing filename content).overrides.entries := by
    -- Each entry's tokens are a stretch of the clean text, which read alone give the entry again.
    refine ((List.forall₂_and_left _ _).2 ⟨hentries.exists_infix, hrecords⟩).imp ?_
    rintro e o ⟨⟨us, hus, he⟩, ho⟩
    exact ho.stands hclean hus he
  refine ⟨⟨c, htree, hrecords⟩, pairwise_ranges hstands (Wrapped.pairwise_entries hentries), ?_⟩
  intro o ho
  rcases exists_stands hstands o ho with ⟨e, -, front, part, back, htext, -, hrange, halone⟩
  refine ⟨String.ofList part, ?_, fun name => ?_⟩
  · rw [hrange]
    exact SourceRange.slice?_eq htext
  · rcases halone name with ⟨alone, hrecord, htarget, hvalue⟩
    rw [source_native, hrecord]
    exact ⟨rfl, alone, rfl, htarget, hvalue⟩

/-- An override behind a comment, and one with a heredoc inside a tuple of an object. -/
theorem native_recorded_in_full_nested :
    let content := "# é\nport = -1 /* c */\n\"redis.t\" = \x7bk: [<<E\né\nE\n]\x7d # x\n"
    let addressing : Addressing := ⟨⟨"web"⟩, .hierarchical⟩
    let file := source addressing "o.vars" content .native
    file.diagnostics.hasErrors = false ∧
      file.overrides.entries.map (fun o => o.range.slice? content) =
        [some "port = -1", some "\"redis.t\" = \x7bk: [<<E\né\nE\n]\x7d"] ∧
      ∀ o ∈ file.overrides.entries, ∃ text, o.range.slice? content = some text ∧
        ∀ name, (source addressing name text .native).diagnostics = [] ∧
          ∃ alone, (source addressing name text .native).overrides.entries = [alone] ∧
            alone.target = o.target ∧ alone.value = o.value := by
  intro content addressing file
  have hclean : file.diagnostics.hasErrors = false := by decide +kernel
  have hslices : file.overrides.entries.map (fun o => o.range.slice? content) =
      [some "port = -1", some "\"redis.t\" = \x7bk: [<<E\né\nE\n]\x7d"] := by decide +kernel
  exact ⟨hclean, hslices, (native_recorded_in_full addressing "o.vars" content hclean).2.2⟩

end Decoding

end Overlay
