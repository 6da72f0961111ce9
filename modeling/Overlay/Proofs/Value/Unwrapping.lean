import Overlay.Proofs.Hcl.Correspondence
import Overlay.Proofs.Value.Evaluation

/-!
# Evaluation of wrapped values

* The values of a wrapped text are evaluated like those of the content, and what is reported has
  the same ranges after unwrapping.
* The texts are the same but for one: that about a second key names the place of the first one, on
  its line in the wrapped text (`line_eq_of_detail`).
-/

namespace Overlay

open Hcl (Body Container Expr Located Wrapped)

/-! ## The text about a second key -/

theorem takeWhile_toDigits (n : Nat) (cs : List Char) :
    (Nat.toDigits 10 n ++ ',' :: cs).takeWhile Char.isDigit = Nat.toDigits 10 n := by
  rw [List.takeWhile_append_of_pos fun c hc =>
    Nat.isDigit_of_mem_toDigits (Nat.succ_pos 9) (Nat.le_refl 10) hc]
  exact List.append_nil _

/-- A number in front of a comma can be told from the text. -/
theorem repr_comma_inj {m n : Nat} {s t : String}
    (h : m.repr ++ ("," ++ s) = n.repr ++ ("," ++ t)) : m = n := by
  have hdigits := congrArg (fun s : String => s.toList.takeWhile Char.isDigit) h
  simp only [String.toList_append, Nat.toList_repr] at hdigits
  have hsame : Nat.toDigits 10 m = Nat.toDigits 10 n :=
    (takeWhile_toDigits m _).symm.trans (hdigits.trans (takeWhile_toDigits n _))
  calc
    m = Nat.ofDigitChars 10 (Nat.toDigits 10 m) 0 := Nat.ofDigitChars_ten_toDigits.symm
    _ = Nat.ofDigitChars 10 (Nat.toDigits 10 n) 0 := by rw [hsame]
    _ = n := Nat.ofDigitChars_ten_toDigits

/-- The text of a range starts with its file and its line. -/
theorem SourceRange.exists_render_eq (r : SourceRange) :
    ∃ t, r.render = r.filename ++ ":" ++ (r.start.line.repr ++ "," ++ t) := by
  unfold render
  split
  · exact ⟨r.start.column.repr ++ "-" ++ r.stop.column.repr,
      by simp [toString, String.append_assoc]⟩
  · exact ⟨r.start.column.repr ++ "-" ++ r.stop.line.repr ++ "," ++ r.stop.column.repr,
      by simp [toString, String.append_assoc]⟩

section

attribute [local irreducible] SourceRange.render Text.inspect

theorem EvaluationFault.duplicateKey_detail (filename name : String) (first : Span) :
    detail filename (.duplicateKey name first) =
      "An attribute named " ++ Text.inspect name ++ " was already defined at " ++
        ((first.within filename).render ++ ".") := by
  rfl

end

/-- The text about a second key shows on which line the first one is. -/
theorem EvaluationFault.line_eq_of_detail {filename name : String} {first first' : Span}
    (h : detail filename (.duplicateKey name first) =
      detail filename (.duplicateKey name first')) : first.start.line = first'.start.line := by
  rcases (first.within filename).exists_render_eq with ⟨t, ht⟩
  rcases (first'.within filename).exists_render_eq with ⟨t', ht'⟩
  rw [duplicateKey_detail, duplicateKey_detail, String.append_right_inj, ht, ht'] at h
  have hfile : (first.within filename).filename = (first'.within filename).filename := rfl
  simp only [hfile, String.append_assoc, String.append_right_inj] at h
  exact repr_comma_inj h

/-! ## What is reported -/

namespace Hcl.Wrapped

variable {w : Wrapped} {filename : String}

/-- The diagnostic without its sentences. -/
def withoutDetail (d : Diagnostic) : Diagnostic := { d with detail := "" }

/-- What unwrapping makes of a report: its ranges change, its sentences stay. -/
theorem unwrap_diagnostic (x : Located EvaluationFault) :
    (EvaluationFault.diagnostic filename x).mapRanges w.unwrapRange =
      { EvaluationFault.diagnostic filename (EvaluationFault.move w.unwrapSpan x) with
        detail := x.item.detail filename } := by
  rcases x with ⟨item, span⟩
  have hrange := w.unwrapRange_within span filename
  cases item <;>
    simp [EvaluationFault.diagnostic, EvaluationFault.move, EvaluationFault.mapSpan,
      EvaluationFault.category, EvaluationFault.summary, Diagnostic.mapRanges, Diagnostic.about,
      Diagnostic.error, hrange]

/-- Unwrapping gives all of a report back but its sentences. -/
theorem unwrapDiagnostics_withoutDetail (e : Expr) :
    (w.unwrapDiagnostics (e.evaluate.diagnostics filename)).map withoutDetail =
      ((e.mapSpans w.unwrapSpan).evaluate.diagnostics filename).map withoutDetail := by
  rw [Expr.evaluate_mapSpans]
  simp only [unwrapDiagnostics, Diagnostics.mapRanges, Evaluated.diagnostics, Evaluated.mapSpans,
    List.map_map]
  refine List.map_congr_left fun x _ => ?_
  simp only [Function.comp_apply, unwrap_diagnostic]
  rfl

/-- Unwrapping gives the sentences back where they name no place. -/
theorem unwrap_diagnostic_eq_iff {x : Located EvaluationFault}
    (h : ∀ name first, x.item = .duplicateKey name first →
      w.WrapsSpan (w.unwrapSpan first) first) :
    (EvaluationFault.diagnostic filename x).mapRanges w.unwrapRange =
        EvaluationFault.diagnostic filename (EvaluationFault.move w.unwrapSpan x) ↔
      ¬x.item.NamesPlace := by
  rw [unwrap_diagnostic]
  constructor
  · intro heq hplace
    rcases x with ⟨item, span⟩
    cases item with
    | duplicateKey name first =>
      -- The sentences name the line of the first key, which is another one in the wrapped text.
      have hdetail := congrArg Diagnostic.detail heq
      have hline := EvaluationFault.line_eq_of_detail hdetail
      have hdown := (h name first rfl).start.line
      omega
    | _ => exact hplace
  · intro hplace
    have hitem := EvaluationFault.mapSpan_of_not_namesPlace (f := w.unwrapSpan) hplace
    have hdetail : x.item.detail filename =
        (EvaluationFault.diagnostic filename (EvaluationFault.move w.unwrapSpan x)).detail := by
      show _ = (x.item.mapSpan w.unwrapSpan).detail filename
      rw [hitem]
    rw [hdetail]

/-- Where a value has the same tree under every way to take its spans back, all places that its
report names stand for places in the content. -/
theorem wrapsSpan_of_duplicateKey {e : Expr}
    (h : ∀ f, w.Unwraps f → e.mapSpans f = e.mapSpans w.unwrapSpan) :
    ∀ x ∈ e.evaluate.faults, ∀ name first, x.item = .duplicateKey name first →
      w.WrapsSpan (w.unwrapSpan first) first := by
  -- The way `f` gives a place of the content back only where it is one.
  rcases w.exists_unwraps with ⟨f, hf, hwraps⟩
  have hfaults := congrArg (fun e : Expr => e.evaluate.faults) (h f hf)
  simp only [Expr.evaluate_mapSpans, Evaluated.mapSpans, List.map_inj_left] at hfaults
  intro x hx name first hitem
  have hmove := congrArg Located.item (hfaults x hx)
  simp only [EvaluationFault.move, hitem, EvaluationFault.mapSpan,
    EvaluationFault.duplicateKey.injEq, true_and] at hmove
  exact hwraps first hmove

theorem unwrapDiagnostics_evaluate_iff {e : Expr}
    (h : ∀ f, w.Unwraps f → e.mapSpans f = e.mapSpans w.unwrapSpan) :
    w.unwrapDiagnostics (e.evaluate.diagnostics filename) =
        (e.mapSpans w.unwrapSpan).evaluate.diagnostics filename ↔
      ∀ x ∈ (e.mapSpans w.unwrapSpan).evaluate.faults, ¬x.item.NamesPlace := by
  have hwraps := wrapsSpan_of_duplicateKey h
  rw [Expr.evaluate_mapSpans]
  simp only [unwrapDiagnostics, Diagnostics.mapRanges, Evaluated.diagnostics, Evaluated.mapSpans,
    List.map_map, List.map_inj_left, List.forall_mem_map]
  refine forall₂_congr fun x hx => ?_
  rw [Function.comp_apply, Function.comp_apply, unwrap_diagnostic_eq_iff (hwraps x hx)]
  exact not_congr (EvaluationFault.namesPlace_mapSpan x.item).symm

/-! ## Whole texts -/

/-- What is reported about the values of a plain content and, after unwrapping, about those of its
container is the same but for its sentences, and it is the same with its sentences if and only if
no object in the value has a key twice. -/
theorem attributes_evaluate {filename : String} (h : (Body.parse w.content filename).IsPlain) :
    ∃ c, (Container.parse w.text filename).tree = some c ∧
      List.Forall₂
        (fun a e =>
          (w.unwrapDiagnostics (e.value.evaluate.diagnostics filename)).map withoutDetail =
              (a.expr.evaluate.diagnostics filename).map withoutDetail ∧
            (w.unwrapDiagnostics (e.value.evaluate.diagnostics filename) =
                a.expr.evaluate.diagnostics filename ↔
              ∀ x ∈ a.expr.evaluate.faults, ¬x.item.NamesPlace))
        (Body.parse w.content filename).tree.attributes c.entries := by
  rcases attributes_correspond h with ⟨c, hc, hentries⟩
  refine ⟨c, hc, hentries.imp ?_⟩
  intro a e he
  have hexpr := (he w.unwrapSpan unwraps_unwrapSpan).expr
  rw [← hexpr]
  exact ⟨unwrapDiagnostics_withoutDetail _,
    unwrapDiagnostics_evaluate_iff fun f hf => (he f hf).expr.trans hexpr.symm⟩

/-- A value with problems and without a second key, of which both reports are the same. -/
theorem attributes_evaluate_reference :
    let w : Wrapped := ⟨"a = [b.c, \x7b x = -\"y\" \x7d]\n"⟩
    (Body.parse w.content "o.hcl").IsPlain ∧
      ∃ c, (Container.parse w.text "o.hcl").tree = some c ∧
        List.Forall₂
          (fun a e => w.unwrapDiagnostics (e.value.evaluate.diagnostics "o.hcl") =
            a.expr.evaluate.diagnostics "o.hcl")
          (Body.parse w.content "o.hcl").tree.attributes c.entries := by
  intro w
  have hplain : (Body.parse w.content "o.hcl").IsPlain := ⟨by decide +kernel, by decide +kernel⟩
  have hnone : ∀ a ∈ (Body.parse w.content "o.hcl").tree.attributes,
      ∀ x ∈ a.expr.evaluate.faults, ¬x.item.NamesPlace := by decide +kernel
  rcases attributes_evaluate hplain with ⟨c, hc, hentries⟩
  refine ⟨hplain, c, hc, List.forall₂_iff_zip.2 ⟨hentries.length_eq, fun hmem => ?_⟩⟩
  have hreport := (List.forall₂_iff_zip.1 hentries).2 hmem
  exact hreport.2.2 (hnone _ (List.of_mem_zip hmem).1)

/-- A key that comes twice in a value: the sentences of the report name a place in the wrapped text,
where those about the content name the place in the content. -/
theorem secondKey_names_wrapped :
    let w : Wrapped := ⟨"a = \x7b x = 1, x = 2 \x7d\n"⟩
    (Body.parse w.content "o.hcl").IsPlain ∧
      ((Container.parse w.text "o.hcl").tree.map fun c =>
          c.entries.map fun e => w.unwrapDiagnostics (e.value.evaluate.diagnostics "o.hcl")) ≠
        some ((Body.parse w.content "o.hcl").tree.attributes.map fun a =>
          a.expr.evaluate.diagnostics "o.hcl") :=
  ⟨⟨by decide +kernel, by decide +kernel⟩, by decide +kernel⟩

end Hcl.Wrapped

end Overlay
