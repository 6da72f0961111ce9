import Overlay.Proofs.Hcl.Derivation
import Overlay.Proofs.Hcl.Entries
import Overlay.Proofs.Hcl.Tracing
import Overlay.Proofs.Value.Places
import Overlay.Proofs.Variable.OverrideSet
import Overlay.Source.Decoding

/-!
# Ranges in override files

Whatever an override file holds, every range that decoding it reports or records lies in it
(`native_ranges_inside`).

* A range of the wrapped text whose ends are places of it is unwrapped to a stretch of the content.
  Lexical faults, tokens and the end of the text have such spans, and syntactic faults are reported at
  tokens and at the end.
* Keys, values and faults of an evaluation have the spans of tokens, since entries are evaluated only
  if the container is derived.
-/

namespace Overlay

open Hcl (Tokens Token Container Wrapped EndsIn)

/-! ## Ranges of a text -/

/-- The range lies in the text: its ends are in order, and each is the place of its byte. -/
structure SourceRange.LiesIn (content : String) (r : SourceRange) : Prop where
  ordered : r.start.byte ≤ r.stop.byte
  inside : r.stop.byte ≤ content.utf8ByteSize
  start : r.start = .ofOffset content r.start.byte
  stop : r.stop = .ofOffset content r.stop.byte

/-- Both ranges of the diagnostic lie in the text. -/
def Diagnostic.LiesIn (content : String) (d : Diagnostic) : Prop :=
  ∀ r, d.subject = some r ∨ d.context = some r → r.LiesIn content

theorem Span.IsStretch.liesIn {content filename : String} {s : Span}
    (h : s.IsStretch .start content.toList) : (s.within filename).LiesIn content := by
  rcases Pos.isPlace_of_isStretch h with ⟨hstart, hstop⟩
  have hbytes : s.start.byte ≤ s.stop.byte := by
    rcases h with ⟨front, inner, back, -, rfl⟩
    simp only [Pos.advanceAll_byte, Text.byteLength_append]
    omega
  exact ⟨hbytes, hstop.byte_le, hstart.ofOffset_byte.symm, hstop.ofOffset_byte.symm⟩

/-- Both ends of the span are places of the text. -/
def Span.InText (text : String) (s : Span) : Prop := Pos.IsPlace text s.start ∧ Pos.IsPlace text s.stop

theorem Diagnostic.liesIn_about {content : String} {category : Category} {summary detail : String}
    {r : SourceRange} (hr : r.LiesIn content) :
    ((Diagnostic.error category summary detail).about r).LiesIn content := by
  intro r' h
  rcases h with h | h
  · rw [← Option.some.inj h]
    exact hr
  · cases h

namespace Hcl.Wrapped

variable {w : Wrapped} {filename : String}

/-- A span of the wrapped text is unwrapped to a range of the content. -/
theorem unwrapRange_liesIn {s : Span} (h : s.InText w.text) :
    (w.unwrapRange (s.within filename)).LiesIn w.content := by
  rw [unwrapRange_within]
  exact (unwrapSpan_isStretch h.1 h.2).liesIn

/-- The unwrapped diagnostic about a span of the wrapped text. -/
theorem unwrap_liesIn {category : Category} {summary detail : String} {s : Span}
    (h : s.InText w.text) :
    (((Diagnostic.error category summary detail).about (s.within filename)).mapRanges
      w.unwrapRange).LiesIn w.content :=
  Diagnostic.liesIn_about (unwrapRange_liesIn h)

theorem mem_unwrapDiagnostics {ds : Diagnostics} {d : Diagnostic} :
    d ∈ w.unwrapDiagnostics ds ↔ ∃ raw ∈ ds, raw.mapRanges w.unwrapRange = d :=
  List.mem_map

/-- Tokens and lexical faults of a text have spans of it. -/
theorem ofText_inText (text : String) : (Tokens.ofText text).All (Span.InText text) :=
  (Tokens.ofText_isStretch text).imp fun _ h => Pos.isPlace_of_isStretch h

/-- Every diagnostic of a container is unwrapped to one whose ranges lie in the content. -/
theorem parse_liesIn :
    ∀ d ∈ w.unwrapDiagnostics (Container.parse w.text filename).diagnostics, d.LiesIn w.content := by
  have htext := ofText_inText w.text
  have hend : Span.InText w.text (.point (.endOf w.text)) :=
    ⟨Pos.isPlace_endOf _, Pos.isPlace_endOf _⟩
  have hfaults := Container.ofTokens_faults htext.1 hend
  intro d hd
  rcases mem_unwrapDiagnostics.1 hd with ⟨raw, hraw, rfl⟩
  rw [Container.parse_diagnostics] at hraw
  rcases List.mem_append.1 hraw with hraw | hraw
  · rcases List.mem_map.1 hraw with ⟨f, hf, rfl⟩
    exact unwrap_liesIn (htext.2 f hf)
  · rcases List.mem_map.1 hraw with ⟨f, hf, rfl⟩
    exact unwrap_liesIn (hfaults f hf)

end Hcl.Wrapped

/-! ## Entries -/

namespace Decoding

/-- Everything in the record lies in the text. -/
structure Record.LiesIn (content : String) (r : Record) : Prop where
  diagnostics : ∀ d ∈ r.diagnostics, d.LiesIn content
  overrides : ∀ o ∈ r.overrides.entries, o.range.LiesIn content

variable {addressing : Addressing} {filename content : String} {r : Record}

theorem Record.LiesIn.report {ds : Diagnostics} (hr : r.LiesIn content)
    (hds : ∀ d ∈ ds, d.LiesIn content) : (r.report ds).LiesIn content :=
  ⟨List.forall_mem_append.2 ⟨hr.diagnostics, hds⟩, hr.overrides⟩

/-- One more problem about a range of the text. -/
theorem Record.LiesIn.report_about {category : Category} {summary detail : String}
    {range : SourceRange} (hr : r.LiesIn content) (hrange : range.LiesIn content) :
    (r.report [(Diagnostic.error category summary detail).about range]).LiesIn content :=
  hr.report (List.forall_mem_singleton.2 (Diagnostic.liesIn_about hrange))

theorem Record.LiesIn.assign {segments : List String} {value : Value} {range keyRange : SourceRange}
    (hr : r.LiesIn content) (hrange : range.LiesIn content) (hkey : keyRange.LiesIn content) :
    (r.assign addressing filename segments value range keyRange).LiesIn content := by
  unfold Record.assign
  split
  · exact hr.report_about hkey
  · split
    · next overrides hinsert =>
      have hset := (OverrideSet.insert_eq_ok hinsert).2
      refine ⟨hr.diagnostics, ?_⟩
      subst hset
      exact List.forall_mem_append.2 ⟨hr.overrides, List.forall_mem_singleton.2 hrange⟩
    · next d hinsert =>
      -- A second override of a variable is reported with the range of the first one around it.
      rcases OverrideSet.insert_eq_error hinsert with ⟨first, hfirst, rfl⟩
      have hfirstRange := hr.overrides first (OverrideSet.mem_of_get? hfirst).1
      refine hr.report (List.forall_mem_singleton.2 ?_)
      intro range' h
      rcases h with h | h
      · rw [← Option.some.inj h]
        exact hrange
      · rw [← Option.some.inj h]
        exact hfirstRange

theorem Record.LiesIn.recordEntry {w : Wrapped} {ts : List Token} {e : Hcl.Entry}
    (hr : r.LiesIn w.content) (he : Hcl.IsAssignment ts e)
    (hts : EndsIn (Pos.IsPlace w.text) ts) :
    (recordEntry addressing filename w r e).LiesIn w.content := by
  rcases he with @⟨ks, vs, t, key, value, hkey, ht, hvalue⟩
  rcases Hcl.endsIn_append.1 hts with ⟨hks, htvs⟩
  have hvs := (Hcl.endsIn_cons.1 htvs).2
  -- Key and value take tokens of the wrapped text, so their spans begin and end at places of it.
  have hkeySpan : key.span.InText w.text := by
    rcases hkey.exists_cons with ⟨u, us, rfl, -⟩
    rw [hkey.span_eq]
    exact hks.spanOf (List.cons_ne_nil _ _)
  have hvalueSpan : value.span.InText w.text := by
    rcases hvalue.exists_cons with ⟨u, us, rfl, -⟩
    rw [hvalue.span_eq]
    exact hvs.spanOf (List.cons_ne_nil _ _)
  have hkeyRange : (w.unwrapRange (key.span.within filename)).LiesIn w.content :=
    Wrapped.unwrapRange_liesIn hkeySpan
  have hrange : (w.unwrapRange ((key.span.upTo value.span).within filename)).LiesIn w.content :=
    Wrapped.unwrapRange_liesIn ⟨hkeySpan.1, hvalueSpan.2⟩
  have hds : ∀ d ∈ w.unwrapDiagnostics (value.evaluate.diagnostics filename),
      d.LiesIn w.content := by
    intro d hd
    rcases Wrapped.mem_unwrapDiagnostics.1 hd with ⟨raw, hraw, rfl⟩
    rcases List.mem_map.1 hraw with ⟨f, hf, rfl⟩
    exact Wrapped.unwrap_liesIn (hvalue.evaluate_faults hvs f hf)
  unfold Decoding.recordEntry
  simp only [Hcl.Entry.key, Hcl.Entry.value]
  cases keySegments key with
  | error detail => exact hr.report_about hkeyRange
  | ok segments =>
    by_cases herrors : (w.unwrapDiagnostics (value.evaluate.diagnostics filename)).hasErrors = true
    · simp only [herrors, if_true]
      exact hr.report hds
    · simp only [herrors]
      exact (hr.report hds).assign hrange hkeyRange

/-- Every diagnostic of a container is an error, so without errors there is none. -/
theorem parse_clean {w : Wrapped}
    (h : (w.unwrapDiagnostics (Container.parse w.text filename).diagnostics).hasErrors = false) :
    (Container.parse w.text filename).diagnostics = [] := by
  rw [Diagnostics.hasErrors, List.any_eq_false] at h
  have hall : ∀ d ∈ (Container.parse w.text filename).diagnostics, d.isError = true := by
    intro d hd
    rw [Hcl.Container.parse_diagnostics] at hd
    exact Hcl.isError_of_mem hd
  refine List.eq_nil_iff_forall_not_mem.2 fun d hd => ?_
  exact h _ (Wrapped.mem_unwrapDiagnostics.2 ⟨d, hd, rfl⟩) (hall d hd)

theorem Record.diagnostics_report_empty (ds : Diagnostics) :
    (({} : Record).report ds).diagnostics = ds := rfl

/-- Entries that are derived from tokens of the wrapped text are recorded with ranges of the
content. -/
theorem Record.LiesIn.foldl_recordEntry {w : Wrapped} {ts : List Token} {es : List Hcl.Entry}
    (hes : ∀ e ∈ es, ∃ us, us <:+: ts ∧ Hcl.IsAssignment us e)
    (hts : EndsIn (Pos.IsPlace w.text) ts) {r : Record} (hr : r.LiesIn w.content) :
    (es.foldl (Decoding.recordEntry addressing filename w) r).LiesIn w.content := by
  induction es generalizing r with
  | nil => exact hr
  | cons e es ih =>
    rcases List.forall_mem_cons.1 hes with ⟨⟨us, hwithin, hus⟩, hes⟩
    have hends : EndsIn (Pos.IsPlace w.text) us := fun t ht => hts t (hwithin.subset ht)
    exact ih hes (hr.recordEntry hus hends)

/-- What is recorded of a file of the configuration language lies in it. -/
theorem native_liesIn (addressing : Addressing) (filename content : String) :
    (native addressing filename content).LiesIn content := by
  let w : Wrapped := ⟨content⟩
  have hempty : (({} : Record).report (w.unwrapDiagnostics
      (Container.parse w.text filename).diagnostics)).LiesIn content := by
    refine ⟨?_, fun _ h => absurd h List.not_mem_nil⟩
    rw [Record.diagnostics_report_empty]
    exact Wrapped.parse_liesIn (w := w)
  unfold native
  dsimp only
  split
  · exact hempty
  · next c hc =>
    split
    · exact hempty
    · next herrors =>
      -- Entries are evaluated only if the container has no errors, so they are derived.
      rw [Record.diagnostics_report_empty, Bool.not_eq_true] at herrors
      rcases Wrapped.parse_derivation_entries (parse_clean herrors) with
        ⟨-, hmem, c', hc', hentries⟩
      have hsame : c = c' := Option.some.inj (hc.symm.trans hc')
      have hends : EndsIn (Pos.IsPlace w.text) w.entryTokens :=
        fun t ht => (Wrapped.ofText_inText w.text).1 t (hmem t ht)
      rw [hsame]
      exact hempty.foldl_recordEntry hentries.exists_infix hends

theorem source_native (addressing : Addressing) (filename content : String) :
    source addressing filename content .native =
      (native addressing filename content).toFile filename content := rfl

theorem Record.toFile_diagnostics (r : Record) (filename content : String) :
    (r.toFile filename content).diagnostics = r.diagnostics := rfl

theorem Record.toFile_clean (h : r.diagnostics.hasErrors = false) :
    (r.toFile filename content).overrides = r.overrides := by
  unfold Record.toFile
  rw [h, if_neg Bool.false_ne_true]

/-- A file has no overrides but those of its record. -/
theorem Record.mem_of_toFile {o : Override} (h : o ∈ (r.toFile filename content).overrides.entries) :
    o ∈ r.overrides.entries := by
  unfold Record.toFile at h
  dsimp only at h
  split at h
  · exact absurd h List.not_mem_nil
  · exact h

/-- For every content of a file in the configuration language: the subject and the context of every
diagnostic and the range of every override have ends in order, inside the content, each the place of
its byte. -/
theorem native_ranges_inside (addressing : Addressing) (filename content : String) :
    (∀ d ∈ (source addressing filename content .native).diagnostics, ∀ r,
      d.subject = some r ∨ d.context = some r →
        r.start.byte ≤ r.stop.byte ∧ r.stop.byte ≤ content.utf8ByteSize ∧
          r.start = .ofOffset content r.start.byte ∧ r.stop = .ofOffset content r.stop.byte) ∧
    ∀ o ∈ (source addressing filename content .native).overrides.entries,
      o.range.start.byte ≤ o.range.stop.byte ∧ o.range.stop.byte ≤ content.utf8ByteSize ∧
        o.range.start = .ofOffset content o.range.start.byte ∧
          o.range.stop = .ofOffset content o.range.stop.byte := by
  have hall := native_liesIn addressing filename content
  rw [source_native, Record.toFile_diagnostics]
  constructor
  · intro d hd r hr
    rcases hall.diagnostics d hd r hr with ⟨hordered, hinside, hstart, hstop⟩
    exact ⟨hordered, hinside, hstart, hstop⟩
  · intro o ho
    rcases hall.overrides o (Record.mem_of_toFile ho) with ⟨hordered, hinside, hstart, hstop⟩
    exact ⟨hordered, hinside, hstart, hstop⟩

end Decoding

end Overlay
