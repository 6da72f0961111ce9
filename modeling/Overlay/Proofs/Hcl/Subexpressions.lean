import Overlay.Proofs.Hcl.Coverage
import Overlay.Proofs.Hcl.Items
import Overlay.Proofs.Hcl.Parts
import Overlay.Proofs.Hcl.Recognition

/-!
# The parts of an expression

The span of every expression that is read cuts out the text of that expression, which is read alone as
the same expression (`Expr.parse_slice`).

* `Expr.parts` are the expressions that an expression is made of, and `Expr.Within` and
  `Expr.WithinItem` say that one is anywhere in an expression or an item.
* The tokens of an expression have those of its parts among them, one behind the other
  (`IsExpr.hasParts`), so the tokens of everything in it stand next to each other
  (`IsExpr.of_within`), and its parts stand in order (`HasParts.pairwise`).
-/

namespace Overlay.Hcl

/-! ## Parts -/

/-- The key of a step, if it stands in brackets. -/
def Step.parts : Step → List Expr
  | .attr _ _ => []
  | .index key _ => [key]

/-- The keys of the steps of a traversal. -/
def Traversal.parts (path : Traversal) : List Expr := path.steps.flatMap Step.parts

/-- The expression that is a key, or those in it. -/
def Key.parts : Key → List Expr
  | .path t => t.parts
  | .expr e => [e]

/-- What is in the key of an entry, and its value. -/
def Entry.parts (entry : Entry) : List Expr := entry.key.parts ++ [entry.value]

/-- The expressions that an expression is made of, in the order of the text. -/
def Expr.parts : Expr → List Expr
  | .null _ | .bool _ _ | .number _ _ | .string _ _ => []
  | .tuple items _ => items
  | .object entries _ => entries.flatMap Entry.parts
  | .traversal path => path.parts
  | .call _ arguments _ => arguments
  | .negate operand _ => [operand]
  | .parens inner _ => [inner]

/-- Whether `x` is the expression or in one of its parts. -/
inductive Expr.Within (x : Expr) : Expr → Prop
  | self : x.Within x
  | part {y e : Expr} (hy : y ∈ e.parts) (hx : x.Within y) : x.Within e

/-- Whether `x` is in the value of an attribute, in the item or in the body of the block. -/
inductive Expr.WithinItem (x : Expr) : Item → Prop
  | attr {a : Attribute} (hx : x.Within a.expr) : x.WithinItem (.attr a)
  | block {h : Header} {items : List Item} {item : Item} {bodySpan span : Span}
      (hitem : item ∈ items) (hx : x.WithinItem item) : x.WithinItem (.block h items bodySpan span)

/-! ## Tokens of parts -/

/-- The tokens have those of the expressions among them, one behind the other. -/
inductive HasParts : List Token → List Expr → Prop
  | nil (ts : List Token) : HasParts ts []
  | cons {us ts : List Token} {e : Expr} {es : List Expr} (as : List Token) (he : IsExpr us e)
      (hes : HasParts ts es) : HasParts (as ++ us ++ ts) (e :: es)

namespace HasParts

variable {ts us : List Token} {e : Expr} {es fs : List Expr}

theorem front (as : List Token) (h : HasParts ts es) : HasParts (as ++ ts) es := by
  cases h with
  | nil => exact .nil _
  | cons bs he hes =>
    rw [List.append_assoc, ← List.append_assoc, ← List.append_assoc]
    exact .cons (as ++ bs) he hes

theorem append (h : HasParts ts es) (hfs : HasParts us fs) : HasParts (ts ++ us) (es ++ fs) := by
  induction h with
  | nil ts => exact hfs.front ts
  | cons as he _ ih =>
    rw [List.append_assoc]
    exact .cons as he ih

theorem back (bs : List Token) (h : HasParts ts es) : HasParts (ts ++ bs) es := by
  have hall := h.append (.nil bs)
  rwa [List.append_nil] at hall

theorem single (he : IsExpr ts e) : HasParts ts [e] := by
  have hone := HasParts.cons [] he (.nil [])
  rwa [List.append_nil] at hone

/-- The tokens of each of the expressions stand next to each other. -/
theorem exists_infix (h : HasParts ts es) : ∀ e ∈ es, ∃ us, us <:+: ts ∧ IsExpr us e := by
  induction h with
  | nil => exact fun _ he => absurd he List.not_mem_nil
  | @cons us ts e es as he hes ih =>
    refine List.forall_mem_cons.2 ⟨⟨us, ⟨as, ts, rfl⟩, he⟩, fun e' he' => ?_⟩
    rcases ih e' he' with ⟨vs, hvs, he'⟩
    exact ⟨vs, hvs.trans (List.suffix_append _ _).isInfix, he'⟩

/-- Expressions one behind the other start where those in front of them have ended. -/
theorem pairwise {p : Pos} (h : HasParts ts es) (hts : Tokens.InOrder p ts) :
    es.Pairwise fun x y => x.span.stop ≤ y.span.start := by
  induction h with
  | nil => exact .nil
  | @cons us ts e es as he hes ih =>
    refine .cons (fun y hy => ?_) (ih (hts.sublist (List.sublist_append_right _ _)))
    rcases hes.exists_infix y hy with ⟨vs, hvs, hy⟩
    -- The last token of the one stands in front of the first token of the other.
    rcases he.exists_concat with ⟨front, t, rfl, -⟩
    rcases hy.exists_cons with ⟨v, vs, rfl, -⟩
    rw [he.span_eq, hy.span_eq, Tokens.spanOf_concat_stop, spanOf_cons]
    have hbetween := (List.pairwise_append.1 hts.pairwise.2).2.2
    exact hbetween t (by simp) v (hvs.subset List.mem_cons_self)

end HasParts

theorem IsItems.hasParts {ts : List Token} {es : List Expr} (h : IsItems ts es) : HasParts ts es := by
  induction es generalizing ts with
  | nil =>
    cases h
    exact .nil []
  | cons e es ih =>
    cases h with
    | last he => exact .single he
    | cons he _ _ _ hes => exact (((HasParts.single he).back _).back _).append (ih hes)

theorem IsList.hasParts {ts : List Token} {es : List Expr} (h : IsList ts es) : HasParts ts es := by
  cases h with
  | mk _ hes _ => exact (hes.hasParts.front _).back _

theorem IsStep.hasParts {ts : List Token} {step : Step} (h : IsStep ts step) :
    HasParts ts step.parts := by
  cases h with
  | attr => exact .nil _
  | @number d t text _ ht => exact (HasParts.single (.number ht)).front [d]
  | index _ _ he _ _ => exact (((HasParts.single he).front _).back _).back _

theorem IsSteps.hasParts {ts : List Token} {steps : List Step} (h : IsSteps ts steps) :
    HasParts ts (steps.flatMap Step.parts) := by
  induction steps generalizing ts with
  | nil =>
    cases h
    exact .nil []
  | cons step steps ih =>
    cases h with
    | cons hstep hsteps => exact hstep.hasParts.append (ih hsteps)

theorem IsPath.hasParts {ts : List Token} {path : Traversal} (h : IsPath ts path) :
    HasParts ts path.parts := by
  cases h with
  | @mk t ts name steps _ hsteps => exact hsteps.hasParts.front [t]

theorem IsKey.hasParts {ts : List Token} {key : Key} (h : IsKey ts key) : HasParts ts key.parts := by
  cases h with
  | path hpath => exact hpath.hasParts
  | expr _ he => exact .single he

theorem IsEntry.hasParts {ts : List Token} {entry : Entry} (h : IsEntry ts entry) :
    HasParts ts entry.parts := by
  cases h with
  | @mk ks vs t key value hkey _ hvalue =>
    exact hkey.hasParts.append ((HasParts.single hvalue).front [t])

theorem IsEntries.hasParts {ts : List Token} {es : List Entry} (h : IsEntries ts es) :
    HasParts ts (es.flatMap Entry.parts) := by
  induction es generalizing ts with
  | nil =>
    cases h
    exact .nil _
  | cons entry es ih =>
    cases h with
    | last _ he =>
      rw [List.flatMap_singleton]
      exact he.hasParts.front _
    | @cons _ _ _ t _ _ _ he _ hes => exact (he.hasParts.front _).append ((ih hes).front [t])

/-- An expression has the tokens of its parts, one part behind the other. -/
theorem IsExpr.hasParts {ts : List Token} {e : Expr} (h : IsExpr ts e) : HasParts ts e.parts := by
  cases h with
  | number | string | heredoc | trueLit | falseLit | nullLit => exact .nil _
  | @negate t ts e _ he => exact (HasParts.single he).front [t]
  | @call t o c ts name es _ _ _ hes _ => exact (hes.hasParts.front [t, o]).back [c]
  | traversal hpath => exact hpath.hasParts
  | @tuple o c ts es _ hes _ => exact (hes.hasParts.front [o]).back [c]
  | @object o c ts es _ hes _ => exact (hes.hasParts.front [o]).back [c]
  | parens _ _ he _ _ => exact (((HasParts.single he).front _).back _).back _

section

variable {ts : List Token} {x e : Expr}

/-- The tokens of everything in an expression stand next to each other. -/
theorem IsExpr.of_within (he : IsExpr ts e) (hx : x.Within e) : ∃ us, us <:+: ts ∧ IsExpr us x := by
  induction hx generalizing ts with
  | self => exact ⟨ts, List.infix_rfl, he⟩
  | part hy _ ih =>
    rcases he.hasParts.exists_infix _ hy with ⟨vs, hvs, hy⟩
    rcases ih hy with ⟨us, hus, hx⟩
    exact ⟨us, hus.trans hvs, hx⟩

/-- The tokens of everything in an item stand next to each other. -/
theorem IsItem.of_within {item : Item} (hitem : IsItem ts item) (hx : x.WithinItem item) :
    ∃ us, us <:+: ts ∧ IsExpr us x := by
  induction hx generalizing ts with
  | attr hx =>
    cases hitem with
    | @attr t q ts name e _ _ he =>
      rcases he.of_within hx with ⟨us, hus, hx⟩
      exact ⟨us, hus.trans (List.suffix_append [t, q] ts).isInfix, hx⟩
  | block hmem _ ih =>
    cases hitem with
    | @block t o c ls ts name labels items _ _ _ hitems _ =>
      rcases hitems.exists_infix _ hmem with ⟨vs, hvs, hinner⟩
      rcases ih hinner with ⟨us, hus, hx⟩
      exact ⟨us, hus.trans (hvs.trans ⟨t :: ls ++ [o], [c], by simp⟩), hx⟩

end

/-! ## Texts of expressions -/

section

variable {text : String} {us : List Token} {x : Expr}

/-- An expression that is derived from tokens of a text without lexical faults is read alone from the
text that its span cuts out. -/
theorem IsExpr.parse_slice (hx : IsExpr us x) (hus : us <:+: (Tokens.ofText text).tokens)
    (hclean : (Tokens.ofText text).faults = []) (filename : String) :
    ∃ slice, (x.span.within filename).slice? text = some slice ∧ ∀ name, Expr.parse slice name =
      ⟨x.mapSpans (Span.map (Pos.rebase x.span.start .start)), []⟩ := by
  rcases hus with ⟨as, bs, htokens⟩
  rcases hx.exists_cons with ⟨u, us, rfl, -⟩
  rcases Tokens.ofText_part htokens.symm (List.cons_ne_nil _ _) hclean with
    ⟨front, part, back, htext, hspan, hfaults, halone⟩
  -- The tokens of the part are those of the expression, moved, and make the expression, moved.
  have hmoved := hx.map (Pos.rebase (Pos.start.advanceAll front) .start)
  rw [← halone] at hmoved
  refine ⟨String.ofList part, ?_, fun name => ?_⟩
  · rw [hx.span_eq, hspan]
    exact SourceRange.slice?_eq htext
  · rw [hx.span_eq, hspan]
    exact Expr.parse_of_derivation hfaults hmoved name

/-- The ends of an expression are places of the text. -/
theorem IsExpr.isPlace_span (hx : IsExpr us x) (hus : us <:+: (Tokens.ofText text).tokens) :
    x.span.start.IsPlace text ∧ x.span.stop.IsPlace text := by
  have hplaces : EndsIn (Pos.IsPlace text) us :=
    fun t ht => Pos.isPlace_of_isStretch ((Tokens.ofText_isStretch text).1 t (hus.subset ht))
  rcases hx.exists_cons with ⟨u, us, rfl, -⟩
  rw [hx.span_eq]
  exact hplaces.spanOf (List.cons_ne_nil _ _)

/-- What is in an expression stands between its ends. -/
theorem IsExpr.span_within {p : Pos} {y : Expr} (hx : IsExpr us x) (horder : Tokens.InOrder p us)
    (hy : y.Within x) : x.span.start ≤ y.span.start ∧ y.span.stop ≤ x.span.stop := by
  rcases hx.of_within hy with ⟨vs, hvs, hy⟩
  have hends : EndsIn (spanOf us).Holds vs := fun t ht => horder.endsIn t (hvs.subset ht)
  rcases hy.exists_cons with ⟨v, vs, rfl, -⟩
  rcases hends.spanOf (List.cons_ne_nil _ _) with ⟨hstart, hstop⟩
  rw [hx.span_eq, hy.span_eq]
  exact ⟨hstart.1, hstop.2⟩

end

/-- A text that is read as an expression without diagnostics derives it. -/
theorem Expr.parse_clean {text filename : String}
    (h : (Expr.parse text filename).diagnostics = []) :
    (Tokens.ofText text).faults = [] ∧
      IsLone (Tokens.ofText text).tokens (Expr.parse text filename).tree := by
  have hfaults := h
  rw [Expr.parse_diagnostics, List.append_eq_nil_iff, List.map_eq_nil_iff] at hfaults
  have hclean : (Tokens.ofText text).diagnostics filename = [] := by
    rw [Tokens.diagnostics, hfaults.1]
    rfl
  rcases parse_derivation text filename hclean with ⟨⟨hiff, htree⟩, -⟩
  rcases hiff.1 h with ⟨e, he⟩
  rw [htree e he]
  exact ⟨hfaults.1, he⟩

/-- A text that is read as a body without diagnostics derives it. -/
theorem Body.parse_clean {text filename : String}
    (h : (Body.parse text filename).diagnostics = []) :
    (Tokens.ofText text).faults = [] ∧
      IsBody (Tokens.ofText text).tokens (Body.parse text filename).tree.items := by
  have hfaults := h
  rw [Body.parse_diagnostics, List.append_eq_nil_iff, List.map_eq_nil_iff] at hfaults
  have hclean : (Tokens.ofText text).diagnostics filename = [] := by
    rw [Tokens.diagnostics, hfaults.1]
    rfl
  rcases parse_derivation text filename hclean with ⟨-, hiff, htree⟩
  rcases hiff.1 h with ⟨items, hitems⟩
  rw [htree items hitems]
  exact ⟨hfaults.1, hitems⟩

/-- Spans of expressions are exact. Of a text that is read without diagnostics, as an expression or as
a body, the span of every expression in the tree cuts out a text. Read alone it gives the same
expression without diagnostics, with its places counted from the start of that text. Everything in
the expression has a span inside its span, and its parts stand one behind the other. -/
theorem Expr.parse_span {text filename : String} {x : Expr}
    (h : (Expr.parse text filename).diagnostics = [] ∧ x.Within (Expr.parse text filename).tree ∨
      (Body.parse text filename).diagnostics = [] ∧
        ∃ item ∈ (Body.parse text filename).tree.items, x.WithinItem item) :
    (∃ slice, (x.span.within filename).slice? text = some slice ∧ ∀ name, Expr.parse slice name =
      ⟨x.mapSpans (Span.map (Pos.rebase x.span.start .start)), []⟩) ∧
    (∀ y : Expr, y.Within x → (x.span.start ≤ y.span.start ∧ y.span.stop ≤ x.span.stop) ∧
      x.span.start.byte ≤ y.span.start.byte ∧ y.span.stop.byte ≤ x.span.stop.byte) ∧
    x.parts.Pairwise fun y z => y.span.stop ≤ z.span.start ∧
      y.span.stop.byte ≤ z.span.start.byte := by
  -- Wherever the expression was read, it is a derivation of neighbouring tokens of the text.
  obtain ⟨hclean, us, hus, hx⟩ : (Tokens.ofText text).faults = [] ∧
      ∃ us, us <:+: (Tokens.ofText text).tokens ∧ IsExpr us x := by
    rcases h with ⟨hsilent, hwithin⟩ | ⟨hsilent, item, hitem, hwithin⟩
    · rcases Expr.parse_clean hsilent with ⟨hclean, hlone⟩
      generalize (Tokens.ofText text).tokens = ts at hlone ⊢
      cases hlone with
      | @mk as ts bs e _ he _ =>
        rcases he.of_within hwithin with ⟨us, hus, hx⟩
        exact ⟨hclean, us, hus.trans ⟨as, bs, rfl⟩, hx⟩
    · rcases Body.parse_clean hsilent with ⟨hclean, hitems⟩
      rcases hitems.exists_infix item hitem with ⟨vs, hvs, hitem⟩
      rcases hitem.of_within hwithin with ⟨us, hus, hx⟩
      exact ⟨hclean, us, hus.trans hvs, hx⟩
  have horder : Tokens.InOrder .start us :=
    (Tokens.ofText_inOrder text).sublist hus.sublist
  have hplaces : ∀ y : Expr, y.Within x → y.span.start.IsPlace text ∧ y.span.stop.IsPlace text := by
    intro y hy
    rcases hx.of_within hy with ⟨vs, hvs, hy⟩
    exact hy.isPlace_span (hvs.trans hus)
  refine ⟨hx.parse_slice hus hclean filename, fun y hy => ?_, ?_⟩
  · have hinside := hx.span_within horder hy
    rcases hplaces x .self with ⟨hstart, hstop⟩
    exact ⟨hinside, hstart.byte_mono (hplaces y hy).1 hinside.1,
      (hplaces y hy).2.byte_mono hstop hinside.2⟩
  · refine (hx.hasParts.pairwise horder).imp_of_mem fun {y z} hy hz hle => ⟨hle, ?_⟩
    exact (hplaces y (.part hy .self)).2.byte_mono (hplaces z (.part hz .self)).1 hle

/-- A heredoc in a tuple of an attribute, behind an index of an index. -/
theorem Expr.parse_span_heredoc :
    let text := "a = [é.x[b[-1]], # c\n  <<E\né\nE\n]"
    (Body.parse text "v.hcl").diagnostics = [] ∧
      ∃ a ∈ (Body.parse text "v.hcl").tree.attributes,
        a.expr.parts.map (fun x => (x.span.within "v.hcl").slice? text) =
          [some "é.x[b[-1]]", some "<<E\né\nE"] ∧
        ∀ x ∈ a.expr.parts, ∃ slice, (x.span.within "v.hcl").slice? text = some slice ∧
          ∀ name, Expr.parse slice name =
            ⟨x.mapSpans (Span.map (Pos.rebase x.span.start .start)), []⟩ := by
  intro text
  have hclean : (Body.parse text "v.hcl").diagnostics = [] := by decide +kernel
  have hslices : ∃ a ∈ (Body.parse text "v.hcl").tree.attributes,
      a.expr.parts.map (fun x => (x.span.within "v.hcl").slice? text) =
        [some "é.x[b[-1]]", some "<<E\né\nE"] := by decide +kernel
  rcases hslices with ⟨a, ha, hslices⟩
  refine ⟨hclean, a, ha, hslices, fun x hx => ?_⟩
  have hitem : Item.attr a ∈ (Body.parse text "v.hcl").tree.items := by
    rcases List.mem_filterMap.1 ha with ⟨item, hitem, hattr⟩
    cases item with
    | attr b =>
      cases hattr
      exact hitem
    | block => cases hattr
  exact (Expr.parse_span (.inr ⟨hclean, _, hitem, .attr (.part hx .self)⟩)).1

end Overlay.Hcl
