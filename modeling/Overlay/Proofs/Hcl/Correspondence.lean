import Overlay.Proofs.Hcl.Container

/-!
# Attributes and bare keys

A content is a list of attributes if and only if its container is a list of assignments to bare
keys.

* What is read without a report and is neither a block nor an assignment to another key starts with
  a name and an equals sign (`Parser.Plain.atAttribute`, `Parser.Bare.atAttribute`).
* From there both sides read the same expression, and an induction over the places does the rest
  (`Sides.items_correspond`).
-/

namespace Overlay.Hcl

/-- The key of the entry is nothing but a name. -/
def Entry.HasBareKey (e : Entry) : Prop := ∃ path, e.key = .path path ∧ path.isBare = true

/-- The item is an attribute. -/
def Item.IsAttribute : Item → Prop
  | .attr _ => True
  | .block .. => False

/-- The items are attributes and were read without a report. -/
def Parsed.Plain (x : Parsed (List Item)) : Prop :=
  x.faults = [] ∧ ∀ item ∈ x.value, item.IsAttribute

/-- The assignments have bare keys and were read without a report. -/
def Parsed.Bare (x : Parsed (List Entry)) : Prop :=
  x.faults = [] ∧ ∀ e ∈ x.value, e.HasBareKey

/-- A name and an equals sign come next. -/
def Cursor.AtAttribute (c : Cursor) : Prop :=
  ∃ last name span separator ts, c = ⟨last, Parser.attributeTokens name span separator ts⟩

namespace Parser

variable {F : Frame} {c : Cursor} {depth : Nat}

/-! ## Items that are no attributes -/

theorem not_isAttribute_blockBody (items : Parser (List Item)) (header : Header) :
    ¬(blockBody items header F c).value.IsAttribute := by
  unfold blockBody
  simp only [bind_run]
  split <;> exact id

/-- An item that is no attribute is a block, or it is reported. -/
theorem itemOf_other {items : Parser (List Item)} {last : Pos} {t : Token} {ts : List Token}
    (h : ¬(⟨last, t :: ts⟩ : Cursor).AtAttribute) :
    (itemOf items F ⟨last, t :: ts⟩).faults ≠ [] ∨
      ∃ item ∈ (itemOf items F ⟨last, t :: ts⟩).value, ¬item.IsAttribute := by
  rcases t with ⟨k, span⟩
  unfold itemOf
  simp only [peek_bind, List.head?_cons]
  cases k with
  | ident name =>
    -- Without an equals sign behind it, the name starts a block or a malformed item.
    have hkind : ((⟨last, ⟨.ident name, span⟩ :: ts⟩ : Cursor).advance.kind? ==
        some (.mark .equals)) = false := by
      cases ts with
      | nil => rfl
      | cons u us =>
        rcases u with ⟨k, separator⟩
        refine beq_false_of_ne fun hequals => h ⟨last, name, span, separator, us, ?_⟩
        cases hequals
        rfl
    simp only [advance_bind, atMark_bind, hkind, Bool.false_eq_true, if_false]
    rw [bind_run]
    simp only [atMark_bind]
    split
    · exact .inr ⟨_, rfl, not_isAttribute_blockBody items _⟩
    · split
      · exact .inl (by simp [skipItem, report_bind])
      · exact .inl (by simp [skipItem, report_bind])
  | _ => exact .inl (List.cons_ne_nil _ _)

/-- What is read without a report and without a block starts with an attribute. -/
theorem Plain.atAttribute (h : (topItems (depth + 1) F c).Plain) :
    c.skipNewlines.kind? = none ∨ c.skipNewlines.AtAttribute := by
  by_contra hno
  rw [not_or] at hno
  rcases hno with ⟨hend, hother⟩
  rcases Option.ne_none_iff_exists'.1 hend with ⟨k, hkind⟩
  by_cases hbrace : k = .mark .closeBrace
  · rw [hbrace] at hkind
    rw [topItems_closeBrace hkind, report_bind] at h
    exact List.cons_ne_nil _ _ h.1
  · rw [topItems_item hkind hbrace] at h
    rcases hskip : c.skipNewlines with ⟨last, rest⟩
    rw [hskip] at h hother hkind
    rcases Cursor.exists_cons_of_kind? hkind with ⟨t, ts, rfl, -⟩
    rcases h with ⟨hfaults, hitems⟩
    rcases itemOf_other hother with hfault | ⟨item, hitem, hblock⟩
    · exact hfault (List.append_eq_nil_iff.1 hfaults).1
    · exact hblock (hitems item (List.mem_append_left _ (Option.mem_toList.2 hitem)))

/-! ## Assignments without a bare key -/

/-- Where no step is read, nothing is taken. -/
theorem steps_nil (h : (steps (depth + 1) F c).value = []) :
    steps (depth + 1) F c = ⟨[], c, []⟩ := by
  rcases c with ⟨last, rest⟩
  rw [steps] at h ⊢
  cases rest with
  | nil => rfl
  | cons t ts =>
    rcases t with ⟨k, span⟩
    cases k with
    | mark m =>
      cases m with
      | dot =>
        cases ts with
        | nil => rfl
        -- A dot is a step if a name or a number comes behind it, and else it is left where it is.
        | cons u us =>
          rcases u with ⟨k, span'⟩
          cases k with
          | ident => exact absurd h (List.cons_ne_nil _ _)
          | number => exact absurd h (List.cons_ne_nil _ _)
          | _ => rfl
      | openBracket =>
        exact absurd h (List.cons_ne_nil _ _)
      | _ => rfl
    | _ => rfl

theorem steps_traversal (p : Parser (List Step)) (root : String) (rootSpan : Span) :
    (traversal p root rootSpan F c).value.steps = (p F c.advance).value := by
  unfold traversal
  rw [advance_bind, bind_run, mark_bind]
  split <;> rfl

theorem traversal_bare {p : Parser (List Step)} {root : String} {rootSpan : Span}
    (h : p F c.advance = ⟨[], c.advance, []⟩)
    (hfaults : (traversal p root rootSpan F c).faults = []) :
    (traversal p root rootSpan F c).next = c.advance := by
  unfold traversal at hfaults ⊢
  rw [advance_bind, bind_run, h, mark_bind] at hfaults ⊢
  split
  · next hdot =>
    rw [if_pos hdot] at hfaults
    exact absurd hfaults (List.cons_ne_nil _ _)
  · rfl

/-- A key that is nothing but a name. -/
theorem entryKey_name {last : Pos} {t : Token} {ts : List Token} {path : Traversal}
    (hkey : (entryKey F ⟨last, t :: ts⟩).value = .path path) (hbare : path.isBare = true)
    (hfaults : (entryKey F ⟨last, t :: ts⟩).faults = []) :
    (∃ name, t.kind = .ident name) ∧ (entryKey F ⟨last, t :: ts⟩).next = ⟨t.span.stop, ts⟩ := by
  rcases t with ⟨k, span⟩
  cases k with
  | ident name =>
    refine ⟨⟨name, rfl⟩, ?_⟩
    have hrun : entryKey F ⟨last, ⟨.ident name, span⟩ :: ts⟩ =
      (do return .path (← traversal (steps (2 * ts.length + 4)) name span) : Parser Key) F
        ⟨last, ⟨.ident name, span⟩ :: ts⟩ := rfl
    rw [hrun, bind_run, pure_run] at hkey hfaults
    rw [hrun, bind_run, pure_run]
    have hpath := Key.path.inj hkey
    -- A bare key has no steps, so the reader of the steps took nothing.
    have hsteps : (steps (2 * ts.length + 4) F ⟨span.stop, ts⟩).value = [] := by
      have hempty : path.steps = [] := List.isEmpty_iff.1 hbare
      rw [← hempty, ← hpath, steps_traversal]
      rfl
    exact traversal_bare (steps_nil hsteps) (List.append_eq_nil_iff.1 hfaults).1
  | _ => cases hkey

/-- Assignments that are read without a report and have bare keys start with a name and an equals
sign. -/
theorem Bare.atAttribute (h : (assignments (depth + 1) F c).Bare) :
    c.skipNewlines.kind? = none ∨ c.skipNewlines.AtAttribute := by
  by_contra hno
  rw [not_or] at hno
  rcases hno with ⟨hend, hother⟩
  rcases Option.ne_none_iff_exists'.1 hend with ⟨k, hkind⟩
  rw [assignments] at h
  simp only [newlines_bind, peekKind_bind, hkind] at h
  rcases hskip : c.skipNewlines with ⟨last, rest⟩
  rw [hskip] at h hother hkind
  rcases Cursor.exists_cons_of_kind? hkind with ⟨t, ts, rfl, rfl⟩
  by_cases hkey : startsKey t.kind = true
  · simp only [hkey, if_true] at h
    rw [bind_run, mark_bind] at h
    split at h
    · next hequals =>
      -- The entry is among what is read, so its key is bare and is the name in front.
      have hfaults := (List.append_eq_nil_iff.1 h.1).1
      rcases h.2 _ List.mem_cons_self with ⟨path, hpath, hbare⟩
      rcases entryKey_name hpath hbare hfaults with ⟨⟨name, hname⟩, hnext⟩
      rw [hnext] at hequals
      rcases Cursor.exists_cons_of_kind? hequals with ⟨u, us, rfl, hu⟩
      rcases t with ⟨_, span⟩
      rcases u with ⟨_, separator⟩
      cases hname
      cases hu
      exact hother ⟨last, name, span, separator, us, rfl⟩
    · exact absurd (List.append_eq_nil_iff.1 h.1).2 (List.cons_ne_nil _ _)
  · rw [Bool.not_eq_true] at hkey
    simp only [hkey, Bool.false_eq_true, if_false] at h
    by_cases hbrace : t.kind = .mark .closeBrace
    · simp only [hbrace, if_true] at h
      exact absurd h.1 (List.cons_ne_nil _ _)
    · simp only [hbrace, if_false] at h
      exact absurd h.1 (List.cons_ne_nil _ _)

end Parser

/-! ## Both sides -/

/-- The entry of the wrapped text is the attribute of the content: its key is nothing but the name,
and taking the spans in it back with `f` gives the places of the attribute. -/
structure Corresponds (f : Span → Span) (a : Attribute) (e : Entry) : Prop where
  key : ∃ path, e.key = .path path ∧ path.isBare = true ∧ path.root = a.name
  nameSpan : f e.key.span = a.nameSpan
  expr : e.value.mapSpans f = a.expr

theorem Parsed.Plain.cons_iff {p : Parser Expr} {q : Parser (List Item)} {F : Frame} {c : Cursor}
    {f : Expr → Attribute} :
    (((do
      let expr ← p
      return .attr (f expr) :: (← q)) : Parser (List Item)) F c).Plain ↔
        (p F c).faults = [] ∧ (q F (p F c).next).Plain := by
  simp only [Parser.bind_run, Parser.pure_run, Parsed.Plain, List.append_nil,
    List.append_eq_nil_iff, List.forall_mem_cons, Item.IsAttribute, true_and, and_assoc]

theorem Parsed.Bare.cons_iff {p : Parser Expr} {q : Parser (List Entry)} {F : Frame} {c : Cursor}
    {name : String} {span : Span} :
    (((do
      let expr ← p
      return .mk (.path (.mk name span [] span)) expr :: (← q)) : Parser (List Entry)) F c).Bare ↔
        (p F c).faults = [] ∧ (q F (p F c).next).Bare := by
  have hbare : ∀ e, (Entry.mk (.path (.mk name span [] span)) e).HasBareKey :=
    fun e => ⟨_, rfl, rfl⟩
  simp only [Parser.bind_run, Parser.pure_run, Parsed.Bare, List.append_nil,
    List.append_eq_nil_iff, List.forall_mem_cons, hbare, true_and, and_assoc]

namespace Sides

variable {S : Sides} {n : Nat} {s : Pos} {c c' : Cursor}

theorem Aligned.atAttribute_iff (h : S.Aligned n s c c') : c.AtAttribute ↔ c'.AtAttribute := by
  rcases c with ⟨last, rest⟩
  rcases c' with ⟨last', rest'⟩
  constructor
  · rintro ⟨_, name, span, separator, ts, hc⟩
    cases hc
    rcases h.attribute with ⟨m, span', separator', ts', -, rfl, -, -⟩
    exact ⟨_, _, _, _, _, rfl⟩
  · rintro ⟨_, name, span', separator', ts', hc⟩
    cases hc
    -- The wrapped side cannot be at the line end behind the content: a name comes next there.
    cases h.rest with
    | @cons t _ ts _ token same late rest =>
      rcases t with ⟨_, span⟩
      have hname := (token.kind.ident_iff name).2 rfl
      cases hname
      cases rest with
      | lineEnd _ kind => cases kind
      | @cons u _ us _ token =>
        rcases u with ⟨_, separator⟩
        have hmark := (token.kind.mark_iff .equals).2 rfl
        cases hmark
        exact ⟨_, _, _, _, _, rfl⟩

/-- A text is attributes only, without a report, if and only if it is assignments with bare keys
only, and then they correspond. -/
theorem items_correspond (hS : S.exact) {d d' : Nat} (hd : n + 1 ≤ d) (hd' : n + 1 ≤ d')
    (h : S.Aligned n s c c') :
    ((Parser.topItems d S.plain c).Plain ↔ (Parser.assignments d' S.container c').Bare) ∧
      ((Parser.topItems d S.plain c).Plain →
        List.Forall₂ (fun item e => ∃ a, item = .attr a ∧ Corresponds S.unwrap a e)
          (Parser.topItems d S.plain c).value (Parser.assignments d' S.container c').value) := by
  induction n using Nat.strongRecOn generalizing d d' c c' with
  | ind n ih =>
    obtain ⟨d, rfl⟩ : ∃ e, d = e + 1 := ⟨d - 1, by omega⟩
    obtain ⟨d', rfl⟩ : ∃ e, d' = e + 1 := ⟨d' - 1, by omega⟩
    have hend := h.settled_skipNewlines
    have h := h.skipNewlines
    cases hkind : c.skipNewlines.kind? with
    | none =>
      rw [Parser.topItems_nil hkind, Parser.assignments_nil (hend.kind_none hkind)]
      exact ⟨⟨fun _ => ⟨rfl, nofun⟩, fun _ => ⟨rfl, nofun⟩⟩, fun _ => .nil⟩
    | some k =>
      rcases h.kind_some hkind with ⟨k', hkind', -⟩
      by_cases hattribute : c.skipNewlines.AtAttribute
      · rcases hattribute with ⟨last, name, span, separator, ts, hskip⟩
        rcases hskip' : c'.skipNewlines with ⟨last', rest'⟩
        rw [hskip, hskip'] at h
        rcases h.attribute with ⟨m, span', separator', ts', rfl, rfl, hspan, hrest⟩
        rw [Parser.topItems_attribute hskip, Parser.assignments_bare hskip']
        obtain ⟨hfaults, hnext, hvalue⟩ : S.Agrees True (S.Leaves Expr.mapSpans m s) _ _ :=
          definition_agrees hrest
        have hclean : (Parser.definition S.plain ⟨separator.stop, ts⟩).faults = [] ↔
            (Parser.definition S.container ⟨separator'.stop, ts'⟩).faults = [] := by
          rw [← List.length_eq_zero_iff, hfaults.length_eq, List.length_eq_zero_iff]
        obtain ⟨hiff, hcorrespond⟩ := ih m (by omega) (show m + 1 ≤ d by omega)
          (show m + 1 ≤ d' by omega) hnext
        rw [Parsed.Plain.cons_iff, Parsed.Bare.cons_iff, hclean, hiff]
        refine ⟨Iff.rfl, fun ⟨hfirst, hplain⟩ => .cons ⟨_, rfl, ?_⟩ (hcorrespond (hiff.2 hplain))⟩
        exact ⟨⟨_, rfl, rfl, rfl⟩, S.unwraps hspan, hvalue ⟨hS, trivial, hclean.2 hfirst⟩⟩
      · -- Anything else is reported or is no attribute, and no bare key on the other side.
        have hother := mt h.atAttribute_iff.2 hattribute
        have hplain : ¬(Parser.topItems (d + 1) S.plain c).Plain := fun hplain => by
          rcases Parser.Plain.atAttribute hplain with hnone | hsome
          · rw [hkind] at hnone
            cases hnone
          · exact hattribute hsome
        have hbare : ¬(Parser.assignments (d' + 1) S.container c').Bare := fun hbare => by
          rcases Parser.Bare.atAttribute hbare with hnone | hsome
          · rw [hkind'] at hnone
            cases hnone
          · exact hother hsome
        exact ⟨iff_of_false hplain hbare, fun hp => absurd hp hplain⟩

end Sides

/-! ## Whole texts -/

theorem Body.blockCount_eq_zero_iff (body : Body) :
    body.blockCount = 0 ↔ ∀ item ∈ body.items, item.IsAttribute := by
  rw [blockCount, List.countP_eq_zero]
  refine forall₂_congr fun item _ => ?_
  cases item <;> simp [Item.IsAttribute]

theorem Corresponds.attributes {f : Span → Span} {body : Body} {es : List Entry}
    (h : List.Forall₂ (fun item e => ∃ a, item = .attr a ∧ Corresponds f a e) body.items es) :
    List.Forall₂ (Corresponds f) body.attributes es := by
  rcases body with ⟨items, span⟩
  unfold Body.attributes
  dsimp only at h ⊢
  induction h with
  | nil => exact .nil
  | cons hfirst _ ih =>
    rcases hfirst with ⟨a, rfl, ha⟩
    exact .cons ha ih

/-- A text was read as attributes only, and nothing was reported. -/
def Reading.IsPlain (x : Reading Body) : Prop := x.diagnostics = [] ∧ x.tree.blockCount = 0

/-- A text was read as a container with bare keys only, and nothing was reported. -/
def Reading.IsBare (x : Reading (Option Container)) : Prop :=
  x.diagnostics = [] ∧ ∃ c, x.tree = some c ∧ ∀ e ∈ c.entries, e.HasBareKey

theorem Body.parse_isPlain_iff (text filename : String) :
    (Body.parse text filename).IsPlain ↔
      (Tokens.ofText text).faults = [] ∧
        (Parser.topItems ((Tokens.ofText text).tokens.length + 1) (.ofText text)
          ⟨.start, (Tokens.ofText text).tokens⟩).Plain := by
  rw [Reading.IsPlain, Body.parse_diagnostics, Body.blockCount_eq_zero_iff,
    List.append_eq_nil_iff, List.map_eq_nil_iff, List.map_eq_nil_iff, Parser.body_run.2,
    Body.parse_items, and_assoc]
  rfl

namespace Wrapped

variable {w : Wrapped}

/-- A content is plain if and only if its container is read without a report and has bare keys
only. -/
theorem isPlain_iff_isBare (w : Wrapped) (filename : String) :
    (Body.parse w.content filename).IsPlain ↔ (Container.parse w.text filename).IsBare := by
  rw [Body.parse_isPlain_iff, Reading.IsBare, Container.parse_diagnostics, Container.parse_tree]
  by_cases hapart : Lexeme.split (w.content.toList ++ Lexeme.back) =
      Lexeme.split w.content.toList ++ Lexeme.split Lexeme.back
  · rcases container_apart hapart with ⟨c, d, hd, hc, hentries⟩
    have hsides := Sides.items_correspond (S := .apart w unwraps_unwrapSpan) trivial
      (Nat.le_refl _) hd (Sides.apart_aligned w _)
    have hlexical : (Tokens.ofText w.text).faults = [] ↔ (Tokens.ofText w.content).faults = [] := by
      rw [ofText_apart w hapart, List.map_eq_nil_iff]
    simp only [hc, Option.some.injEq, exists_eq_left', List.append_eq_nil_iff,
      List.map_eq_nil_iff, hlexical, hentries, and_assoc]
    exact and_congr_right fun _ => hsides.1
  · -- What swallows the container's end is reported, so neither side is clean.
    have hfaults : ¬((Tokens.ofText w.content).faults = [] ∨ (Tokens.ofText w.text).faults = []) :=
      mt apart_of_clean hapart
    rw [not_or] at hfaults
    simp only [List.append_eq_nil_iff, List.map_eq_nil_iff, hfaults.1, hfaults.2, false_and]

/-- The attributes of a plain content and the entries of its container correspond, one by one. -/
theorem attributes_correspond {filename : String} (h : (Body.parse w.content filename).IsPlain) :
    ∃ c, (Container.parse w.text filename).tree = some c ∧
      List.Forall₂ (fun a e => ∀ f, w.Unwraps f → Corresponds f a e)
        (Body.parse w.content filename).tree.attributes c.entries := by
  rw [Body.parse_isPlain_iff] at h
  rcases container_apart (apart_of_clean (.inl h.1)) with ⟨c, d, hd, hc, hentries⟩
  refine ⟨c, by rw [Container.parse_tree, hc], ?_⟩
  have hitems : ∀ f, w.Unwraps f →
      List.Forall₂ (Corresponds f) (Body.parse w.content filename).tree.attributes c.entries := by
    intro f hf
    refine Corresponds.attributes ?_
    rw [Body.parse_items, hentries]
    exact (Sides.items_correspond (S := .apart w hf) trivial (Nat.le_refl _) hd
      (Sides.apart_aligned w hf)).2 h.2
  have hlength := (hitems w.unwrapSpan unwraps_unwrapSpan).length_eq
  refine List.forall₂_iff_zip.2 ⟨hlength, fun hmem f hf => ?_⟩
  exact (List.forall₂_iff_zip.1 (hitems f hf)).2 hmem

/-- A content is read as attributes only, without a report, if and only if its container is read
without a report and has bare keys only; then its entries are the attributes, one by one, with the
places that unwrapping gives. -/
theorem parse_correspond (w : Wrapped) (filename : String) :
    ((Body.parse w.content filename).IsPlain ↔ (Container.parse w.text filename).IsBare) ∧
      ((Body.parse w.content filename).IsPlain →
        ∃ c, (Container.parse w.text filename).tree = some c ∧
          List.Forall₂
            (fun a e =>
              (∃ path, e.key = .path path ∧ path.isBare = true ∧ path.root = a.name) ∧
                w.unwrapRange (e.key.span.within filename) = a.nameSpan.within filename ∧
                e.value.mapSpans w.unwrapSpan = a.expr)
            (Body.parse w.content filename).tree.attributes c.entries) := by
  refine ⟨isPlain_iff_isBare w filename, fun h => ?_⟩
  rcases attributes_correspond h with ⟨c, hc, hentries⟩
  refine ⟨c, hc, hentries.imp ?_⟩
  intro a e he
  have he := he w.unwrapSpan unwraps_unwrapSpan
  refine ⟨he.key, ?_, he.expr⟩
  rw [unwrapRange_within, he.nameSpan]

/-- A content with nested values, of which both readings are clean. -/
theorem parse_correspond_nested :
    let content := "a = \x7b x = [1, f(b.c[0])], \"y\" : -2 \x7d # x\nb-c = <<EOT\n  \x7d\nEOT\n"
    (Body.parse content "o.hcl").IsPlain ∧
      (Container.parse (Wrapped.mk content).text "o.hcl").IsBare ∧
      ∃ c, (Container.parse (Wrapped.mk content).text "o.hcl").tree = some c ∧
        c.entries.length = 2 := by
  intro content
  have hplain : (Body.parse content "o.hcl").IsPlain := ⟨by decide +kernel, by decide +kernel⟩
  rcases parse_correspond ⟨content⟩ "o.hcl" with ⟨hiff, hcorrespond⟩
  rcases hcorrespond hplain with ⟨c, hc, hentries⟩
  have hlength : (Body.parse content "o.hcl").tree.attributes.length = 2 := by decide +kernel
  exact ⟨hplain, hiff.1 hplain, c, hc, hentries.length_eq.symm.trans hlength⟩

end Wrapped

end Overlay.Hcl
