import Overlay.Proofs.Hcl.Grammar
import Overlay.Proofs.Hcl.Token
import Overlay.Proofs.Hcl.Tree

/-!
# Places in derivations

* The span of a derived tree is the one of its tokens (`IsExpr.span_eq`, `IsKey.span_eq`).
* Tokens that are moved make the same tree, moved with them (`IsExpr.map`, `IsAssignment.map`).
* Every place in a derived tree is an end of one of its tokens: a change of spans that keeps those with
  such ends keeps the tree (`IsExpr.mapSpans_eq`).
-/

namespace Overlay.Hcl

/-! ## Spans -/

theorem IsPath.span_eq {ts : List Token} {path : Traversal} (h : IsPath ts path) :
    path.span = spanOf ts := by
  cases h
  rfl

theorem IsExpr.span_eq {ts : List Token} {e : Expr} (h : IsExpr ts e) : e.span = spanOf ts := by
  cases h with
  | traversal hpath => exact hpath.span_eq
  | _ => rfl

theorem IsKey.span_eq {ts : List Token} {key : Key} (h : IsKey ts key) : key.span = spanOf ts := by
  cases h with
  | path hpath => exact hpath.span_eq
  | expr _ he => exact he.span_eq

theorem IsAssignment.span_eq {ts : List Token} {e : Entry} (h : IsAssignment ts e) :
    e.key.span.upTo e.value.span = spanOf ts := by
  cases h with
  | mk hkey _ hvalue =>
    rcases hkey.exists_cons with ⟨t, ks, rfl, -⟩
    rcases hvalue.exists_cons with ⟨u, vs, rfl, -⟩
    simp only [Entry.key, Entry.value, hkey.span_eq, hvalue.span_eq]
    simp [Span.upTo]

/-! ## Moving -/

section

variable {f : Span → Span} {g : Pos → Pos} {ts as : List Token}

theorem stopAfter_map (last : Pos) (ts : List Token) :
    stopAfter (g last) (ts.map (Token.mapSpan (Span.map g))) = g (stopAfter last ts) := by
  induction ts generalizing last with
  | nil => rfl
  | cons t ts ih => exact ih t.span.stop

theorem spanOf_map (hne : ts ≠ []) :
    spanOf (ts.map (Token.mapSpan (Span.map g))) = (spanOf ts).map g := by
  rcases List.exists_cons_of_ne_nil hne with ⟨t, us, rfl⟩
  rw [List.map_cons, spanOf_cons, spanOf_cons]
  exact congrArg (Span.mk _) (stopAfter_map t.span.stop us)

theorem LineEnds.map (has : LineEnds as) : LineEnds (as.map (Token.mapSpan f)) := by
  intro t ht
  rcases List.mem_map.1 ht with ⟨a, ha, rfl⟩
  exact has a ha

mutual

/-- Tokens that are moved make the same tree, moved with them. -/
theorem IsExpr.map (g : Pos → Pos) {ts : List Token} {e : Expr} (h : IsExpr ts e) :
    IsExpr (ts.map (Token.mapSpan (Span.map g))) (e.mapSpans (Span.map g)) := by
  match h with
  | .number ht => exact .number ht
  | .string ht => exact .string ht
  | .heredoc ht => exact .heredoc ht
  | .trueLit ht => exact .trueLit ht
  | .falseLit ht => exact .falseLit ht
  | .nullLit ht => exact .nullLit ht
  | .negate ht he =>
    rw [Expr.mapSpans, ← spanOf_map (by simp)]
    exact .negate ht (he.map g)
  | .call ht hname ho hes hc =>
    rw [Expr.mapSpans, ← spanOf_map (by simp), List.map_append]
    exact .call ht hname ho (hes.map g) hc
  | .traversal hpath hroot =>
    rw [Expr.mapSpans]
    exact .traversal (hpath.map g) (by rwa [Traversal.root_mapSpans])
  | .tuple ho hes hc =>
    rw [Expr.mapSpans, ← spanOf_map (by simp), List.map_append]
    exact .tuple ho (hes.map g) hc
  | .object ho hes hc =>
    rw [Expr.mapSpans, ← spanOf_map (by simp), List.map_append]
    exact .object ho (hes.map g) hc
  | .parens ho has he hbs hc =>
    rw [Expr.mapSpans, ← spanOf_map (by simp), List.map_append, List.map_append, List.map_append]
    exact .parens ho has.map (he.map g) hbs.map hc

theorem IsList.map (g : Pos → Pos) {ts : List Token} {es : List Expr} (h : IsList ts es) :
    IsList (ts.map (Token.mapSpan (Span.map g))) (mapItems (Span.map g) es) := by
  match h with
  | .mk has hes hbs =>
    rw [List.map_append, List.map_append]
    exact .mk has.map (hes.map g) hbs.map

theorem IsItems.map (g : Pos → Pos) {ts : List Token} {es : List Expr} (h : IsItems ts es) :
    IsItems (ts.map (Token.mapSpan (Span.map g))) (mapItems (Span.map g) es) := by
  match h with
  | .none => exact .none
  | .last he => exact .last (he.map g)
  | .cons he has ht hbs hes =>
    rw [List.map_append, List.map_append, List.map_append]
    exact .cons (he.map g) has.map ht hbs.map (hes.map g)

theorem IsEntries.map (g : Pos → Pos) {ts : List Token} {es : List Entry} (h : IsEntries ts es) :
    IsEntries (ts.map (Token.mapSpan (Span.map g))) (mapEntries (Span.map g) es) := by
  match h with
  | .none has => exact .none has.map
  | .last has he =>
    rw [List.map_append]
    exact .last has.map (he.map g)
  | .cons has he ht hes =>
    rw [List.map_append, List.map_append]
    exact .cons has.map (he.map g) ht (hes.map g)

theorem IsEntry.map (g : Pos → Pos) {ts : List Token} {e : Entry} (h : IsEntry ts e) :
    IsEntry (ts.map (Token.mapSpan (Span.map g))) (e.mapSpans (Span.map g)) := by
  match h with
  | .mk hkey ht hvalue =>
    rw [List.map_append]
    exact .mk (hkey.map g) ht (hvalue.map g)

theorem IsKey.map (g : Pos → Pos) {ts : List Token} {key : Key} (h : IsKey ts key) :
    IsKey (ts.map (Token.mapSpan (Span.map g))) (key.mapSpans (Span.map g)) := by
  match h with
  | .path hpath => exact .path (hpath.map g)
  | .expr ht he => exact .expr ht (he.map g)

theorem IsPath.map (g : Pos → Pos) {ts : List Token} {path : Traversal} (h : IsPath ts path) :
    IsPath (ts.map (Token.mapSpan (Span.map g))) (path.mapSpans (Span.map g)) := by
  match h with
  | .mk ht hsteps =>
    rw [Traversal.mapSpans, ← spanOf_map (by simp)]
    exact .mk ht (hsteps.map g)

theorem IsSteps.map (g : Pos → Pos) {ts : List Token} {steps : List Step} (h : IsSteps ts steps) :
    IsSteps (ts.map (Token.mapSpan (Span.map g))) (mapSteps (Span.map g) steps) := by
  match h with
  | .none => exact .none
  | .cons hstep hsteps =>
    rw [List.map_append]
    exact .cons (hstep.map g) (hsteps.map g)

theorem IsStep.map (g : Pos → Pos) {ts : List Token} {step : Step} (h : IsStep ts step) :
    IsStep (ts.map (Token.mapSpan (Span.map g))) (step.mapSpans (Span.map g)) := by
  match h with
  | .attr hd ht =>
    rw [Step.mapSpans, ← spanOf_map (by simp)]
    exact .attr hd ht
  | .number hd ht =>
    rw [Step.mapSpans, ← spanOf_map (by simp)]
    exact .number hd ht
  | .index ho has he hbs hc =>
    rw [Step.mapSpans, ← spanOf_map (by simp), List.map_append, List.map_append, List.map_append]
    exact .index ho has.map (he.map g) hbs.map hc

end

theorem IsAssignment.map (g : Pos → Pos) {e : Entry} (h : IsAssignment ts e) :
    IsAssignment (ts.map (Token.mapSpan (Span.map g))) (e.mapSpans (Span.map g)) := by
  cases h with
  | mk hkey ht hvalue =>
    rw [List.map_append]
    exact .mk (hkey.map g) ht (hvalue.map g)

end

/-! ## Ends of tokens -/

/-- Whether both ends of every token are as `P` says. -/
def EndsIn (P : Pos → Prop) (ts : List Token) : Prop := ∀ t ∈ ts, P t.span.start ∧ P t.span.stop

/-- Whether the function keeps every span whose ends are as `P` says. -/
def Keeps (P : Pos → Prop) (f : Span → Span) : Prop := ∀ s, P s.start → P s.stop → f s = s

section

variable {P : Pos → Prop} {f : Span → Span} {ts us : List Token} {t : Token}

theorem endsIn_append : EndsIn P (ts ++ us) ↔ EndsIn P ts ∧ EndsIn P us :=
  List.forall_mem_append

theorem endsIn_cons : EndsIn P (t :: ts) ↔ (P t.span.start ∧ P t.span.stop) ∧ EndsIn P ts :=
  List.forall_mem_cons

theorem EndsIn.stopAfter {last : Pos} (hlast : P last) (h : EndsIn P ts) : P (stopAfter last ts) := by
  induction ts generalizing last with
  | nil => exact hlast
  | cons t ts ih =>
    rcases endsIn_cons.1 h with ⟨ht, hts⟩
    exact ih ht.2 hts

theorem EndsIn.spanOf (h : EndsIn P ts) (hne : ts ≠ []) :
    P (spanOf ts).start ∧ P (spanOf ts).stop := by
  rcases List.exists_cons_of_ne_nil hne with ⟨t, us, rfl⟩
  rcases endsIn_cons.1 h with ⟨ht, hus⟩
  exact ⟨ht.1, hus.stopAfter ht.2⟩

/-- There is a change of spans that keeps exactly the spans whose ends are as `P` says. -/
theorem EndsIn.exists_keeps (h : EndsIn P ts) (hne : ts ≠ []) :
    ∃ keep : Span → Span, Keeps P keep ∧ ∀ s, P (keep s).start ∧ P (keep s).stop := by
  classical
  let keep : Span → Span := fun s => if P s.start ∧ P s.stop then s else Hcl.spanOf ts
  refine ⟨keep, fun s hstart hstop => if_pos ⟨hstart, hstop⟩, fun s => ?_⟩
  by_cases hs : P s.start ∧ P s.stop
  · simp only [keep, if_pos hs]
    exact hs
  · simp only [keep, if_neg hs]
    exact h.spanOf hne

theorem Keeps.token (hf : Keeps P f) (h : EndsIn P (t :: ts)) : f t.span = t.span := by
  rcases endsIn_cons.1 h with ⟨ht, -⟩
  exact hf _ ht.1 ht.2

theorem Keeps.spanOf (hf : Keeps P f) (h : EndsIn P ts) (hne : ts ≠ []) :
    f (Hcl.spanOf ts) = Hcl.spanOf ts :=
  hf _ (h.spanOf hne).1 (h.spanOf hne).2

mutual

/-- A change of spans that keeps those with the ends of tokens keeps a derived tree. -/
theorem IsExpr.mapSpans_eq (hf : Keeps P f) {ts : List Token} {e : Expr} (h : IsExpr ts e)
    (hts : EndsIn P ts) : e.mapSpans f = e := by
  match h with
  | .number _ => rw [Expr.mapSpans, hf.token hts]
  | .string _ => rw [Expr.mapSpans, hf.token hts]
  | .heredoc _ => rw [Expr.mapSpans, hf.token hts]
  | .trueLit _ => rw [Expr.mapSpans, hf.token hts]
  | .falseLit _ => rw [Expr.mapSpans, hf.token hts]
  | .nullLit _ => rw [Expr.mapSpans, hf.token hts]
  | .negate _ he =>
    rw [Expr.mapSpans, hf.spanOf hts (by simp), he.mapSpans_eq hf (endsIn_cons.1 hts).2]
  | .call _ _ _ hes _ =>
    have hinner := (endsIn_append.1 (endsIn_cons.1 (endsIn_cons.1 hts).2).2).1
    rw [Expr.mapSpans, hf.spanOf hts (by simp), hes.mapItems_eq hf hinner]
  | .traversal hpath _ => rw [Expr.mapSpans, hpath.mapSpans_eq hf hts]
  | .tuple _ hes _ =>
    have hinner := (endsIn_append.1 (endsIn_cons.1 hts).2).1
    rw [Expr.mapSpans, hf.spanOf hts (by simp), hes.mapItems_eq hf hinner]
  | .object _ hes _ =>
    have hinner := (endsIn_append.1 (endsIn_cons.1 hts).2).1
    rw [Expr.mapSpans, hf.spanOf hts (by simp), hes.mapEntries_eq hf hinner]
  | .parens _ _ he _ _ =>
    have hinner := (endsIn_append.1 (endsIn_append.1 (endsIn_append.1 hts).1).1).2
    rw [Expr.mapSpans, hf.spanOf hts (by simp), he.mapSpans_eq hf hinner]

theorem IsList.mapItems_eq (hf : Keeps P f) {ts : List Token} {es : List Expr} (h : IsList ts es)
    (hts : EndsIn P ts) : mapItems f es = es := by
  match h with
  | .mk _ hes _ => exact hes.mapItems_eq hf (endsIn_append.1 (endsIn_append.1 hts).1).2

theorem IsItems.mapItems_eq (hf : Keeps P f) {ts : List Token} {es : List Expr} (h : IsItems ts es)
    (hts : EndsIn P ts) : mapItems f es = es := by
  match h with
  | .none => rfl
  | .last he => rw [mapItems, he.mapSpans_eq hf hts, mapItems]
  | .cons he _ _ _ hes =>
    rcases endsIn_append.1 hts with ⟨hfront, hus⟩
    have hitem := (endsIn_append.1 (endsIn_append.1 hfront).1).1
    rw [mapItems, he.mapSpans_eq hf hitem, hes.mapItems_eq hf hus]

theorem IsEntries.mapEntries_eq (hf : Keeps P f) {ts : List Token} {es : List Entry}
    (h : IsEntries ts es) (hts : EndsIn P ts) : mapEntries f es = es := by
  match h with
  | .none _ => rfl
  | .last _ he => rw [mapEntries, he.mapSpans_eq hf (endsIn_append.1 hts).2, mapEntries]
  | .cons _ he _ hes =>
    rcases endsIn_append.1 hts with ⟨hfront, hus⟩
    have hentry := (endsIn_append.1 hfront).2
    rw [mapEntries, he.mapSpans_eq hf hentry, hes.mapEntries_eq hf (endsIn_cons.1 hus).2]

theorem IsEntry.mapSpans_eq (hf : Keeps P f) {ts : List Token} {e : Entry} (h : IsEntry ts e)
    (hts : EndsIn P ts) : e.mapSpans f = e := by
  match h with
  | .mk hkey _ hvalue =>
    rcases endsIn_append.1 hts with ⟨hks, hvs⟩
    rw [Entry.mapSpans, hkey.mapSpans_eq hf hks, hvalue.mapSpans_eq hf (endsIn_cons.1 hvs).2]

theorem IsKey.mapSpans_eq (hf : Keeps P f) {ts : List Token} {key : Key} (h : IsKey ts key)
    (hts : EndsIn P ts) : key.mapSpans f = key := by
  match h with
  | .path hpath => rw [Key.mapSpans, hpath.mapSpans_eq hf hts]
  | .expr _ he => rw [Key.mapSpans, he.mapSpans_eq hf hts]

theorem IsPath.mapSpans_eq (hf : Keeps P f) {ts : List Token} {path : Traversal} (h : IsPath ts path)
    (hts : EndsIn P ts) : path.mapSpans f = path := by
  match h with
  | .mk _ hsteps =>
    rw [Traversal.mapSpans, hf.token hts, hf.spanOf hts (by simp),
      hsteps.mapSteps_eq hf (endsIn_cons.1 hts).2]

theorem IsSteps.mapSteps_eq (hf : Keeps P f) {ts : List Token} {steps : List Step}
    (h : IsSteps ts steps) (hts : EndsIn P ts) : mapSteps f steps = steps := by
  match h with
  | .none => rfl
  | .cons hstep hsteps =>
    rcases endsIn_append.1 hts with ⟨hts, hus⟩
    rw [mapSteps, hstep.mapSpans_eq hf hts, hsteps.mapSteps_eq hf hus]

theorem IsStep.mapSpans_eq (hf : Keeps P f) {ts : List Token} {step : Step} (h : IsStep ts step)
    (hts : EndsIn P ts) : step.mapSpans f = step := by
  match h with
  | .attr _ _ => rw [Step.mapSpans, hf.spanOf hts (by simp)]
  | .number _ _ =>
    rw [Step.mapSpans, Expr.mapSpans, hf.spanOf hts (by simp), hf.token (endsIn_cons.1 hts).2]
  | .index _ _ he _ _ =>
    have hinner := (endsIn_append.1 (endsIn_append.1 (endsIn_append.1 hts).1).1).2
    rw [Step.mapSpans, hf.spanOf hts (by simp), he.mapSpans_eq hf hinner]

end

end

end Overlay.Hcl
