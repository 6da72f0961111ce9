import Overlay.Proofs.Dict
import Overlay.Proofs.Hcl.Items
import Overlay.Proofs.Value.Places
import Overlay.Variable.Declaration

/-!
# What items contribute

Every item of a file that parses is accounted for: it declares a variable, or an error about a part
of it is reported (`collect_contributes`).

* `variableOf_eq_ok` and `variableOf_eq_error` say what one block gives, `addItem_outcome` what one
  item does to the variables in front of it, and `addItems_outcomes` what all items do.
* An item without a variable leaves the variables as they are, so the items behind it do not see it.
* Items stand apart, so the range of a variable tells which item declares it.
-/

namespace Overlay.Declaration

open Hcl (Item Header Attribute Expr Token Body EndsIn IsItem IsExpr)

variable {file name : String} {P : Pos → Prop} {ts : List Token} {x : Item} {h : Header}
  {items : List Item} {bodySpan span : Span} {v : Variable} {declared : Dict Variable}

/-! ## Errors about a part of an item -/

/-- Whether the diagnostic is an error about a stretch of the file with ends as `P` says. -/
def ErrorAt (file : String) (P : Pos → Prop) (d : Diagnostic) : Prop :=
  d.isError = true ∧ ∃ s : Span, d.subject = some (s.within file) ∧ P s.start ∧ P s.stop

/-- Whether the diagnostic is an error about a part of the item. -/
def ErrorIn (file : String) (x : Item) (d : Diagnostic) : Prop := ErrorAt file x.span.Holds d

theorem errorAt_fault {category : Category} {summary detail : String} {s : Span}
    (hs : P s.start ∧ P s.stop) : ErrorAt file P (fault file category summary detail s) :=
  ⟨rfl, s, rfl, hs⟩

/-! ## The arguments of a block -/

/-- Every problem in the draft is about a part of its block, and so is its default. -/
structure Draft.Inside (file : String) (P : Pos → Prop) (d : Draft) : Prop where
  faults : ∀ f ∈ d.faults, ErrorAt file P f
  default : ∀ value, d.default = some value → P value.2.start ∧ P value.2.stop

theorem Draft.Inside.report {d : Draft} (hd : d.Inside file P) {ds : Diagnostics}
    (hds : ∀ f ∈ ds, ErrorAt file P f) : (d.report ds).Inside file P :=
  ⟨List.forall_mem_append.2 ⟨hd.faults, hds⟩, hd.default⟩

theorem Draft.Inside.report_one {d : Draft} (hd : d.Inside file P) {f : Diagnostic}
    (hf : ErrorAt file P f) : (d.report [f]).Inside file P :=
  hd.report (List.forall_mem_singleton.2 hf)

/-- An argument adds problems about its own parts. -/
theorem Draft.Inside.argument {d : Draft} (hd : d.Inside file P) {a : Attribute}
    (ha : IsItem ts (.attr a)) (hts : EndsIn P ts) : (d.argument file a).Inside file P := by
  cases ha with
  | @attr t q us name e ht hq he =>
    rcases Hcl.endsIn_cons.1 hts with ⟨hname, hrest⟩
    have hus := (Hcl.endsIn_cons.1 hrest).2
    have hexpr : P e.span.start ∧ P e.span.stop := by
      rw [he.span_eq]
      exact hus.spanOf he.ne_nil
    unfold Draft.argument
    have hseen : ({ d with seen := d.seen.insert name t.span } : Draft).Inside file P :=
      ⟨hd.faults, hd.default⟩
    -- A repeated argument is reported at its name and changes nothing else.
    cases d.seen.find? name with
    | some first => exact hseen.report_one (errorAt_fault hname)
    | none =>
      dsimp only
      split_ifs
      · cases htype : ValueType.ofExpr e with
        | ok type => exact ⟨hd.faults, hd.default⟩
        | error f => exact hseen.report_one ⟨rfl, f.span, rfl, he.ofExpr_fault hus htype⟩
      · refine ⟨List.forall_mem_append.2 ⟨hd.faults, ?_⟩, ?_⟩
        · intro g hg
          rcases List.mem_map.1 hg with ⟨f, hf, rfl⟩
          exact ⟨rfl, f.span, rfl, he.evaluate_faults hus f hf⟩
        · intro value hvalue
          cases hvalue
          exact hexpr
      · split
        · exact ⟨hd.faults, hd.default⟩
        · exact hseen.report_one (errorAt_fault hexpr)
      · exact hseen.report_one (errorAt_fault hname)

/-- The items of a block add problems about their own parts. -/
theorem Draft.Inside.foldl {d : Draft} (hd : d.Inside file P)
    (hitems : ∀ y ∈ items, ∃ us, IsItem us y ∧ EndsIn P us) :
    (items.foldl (Draft.item file) d).Inside file P := by
  induction items generalizing d with
  | nil => exact hd
  | cons y items ih =>
    rcases List.forall_mem_cons.1 hitems with ⟨⟨us, hy, hus⟩, hitems⟩
    refine ih ?_ hitems
    cases y with
    | attr a => exact hd.argument hy hus
    | block => exact hd.report_one (errorAt_fault (hy.header_ends hus).1)

/-! ## One block -/

/-- The item is a block that declares the variable: the variable is named by its only label and
stands where the block does. -/
inductive Declares (file : String) : Item → Variable → Prop
  | block {h : Header} {items : List Item} {bodySpan span : Span} {label : Hcl.Label} {v : Variable}
      (hkind : h.kind = blockKind) (hlabels : h.labels = [label]) (hname : v.name = label.text)
      (hvalid : isIdentifier v.name = true) (hrange : v.range = span.within file) :
      Declares file (.block h items bodySpan span) v

theorem Declares.range_eq (hv : Declares file x v) : v.range = x.span.within file := by
  cases hv with
  | block _ _ _ _ hrange => exact hrange

theorem finish_eq_ok {d : Draft} (hfinish : finish file name h span d = .ok v) :
    v.name = name ∧ v.range = span.within file := by
  unfold finish at hfinish
  split at hfinish
  · split at hfinish
    · cases hfinish
      exact ⟨rfl, rfl⟩
    · cases hfinish
  · cases hfinish
    exact ⟨rfl, rfl⟩

theorem finish_eq_error {d : Draft} (hd : d.Inside file P) {f : Diagnostic}
    (hfinish : finish file name h span d = .error f) : ErrorAt file P f := by
  unfold finish at hfinish
  split at hfinish
  · next htype hdefault =>
    split at hfinish
    · cases hfinish
    · cases hfinish
      exact ⟨rfl, _, rfl, hd.default _ hdefault⟩
  · cases hfinish

/-- The variable of a block is named by its label. -/
theorem variableOf_eq_ok (hkind : h.kind = blockKind)
    (hvariable : variableOf file h items span = .ok v) :
    Declares file (.block h items bodySpan span) v := by
  unfold variableOf at hvariable
  split at hvariable
  · next label hlabels =>
    split at hvariable
    · next hvalid =>
      dsimp only at hvariable
      split at hvariable
      · cases hfinish : finish file label.text h span (items.foldl (Draft.item file) {}) with
        | error f =>
          rw [hfinish] at hvariable
          cases hvariable
        | ok w =>
          rw [hfinish] at hvariable
          cases hvariable
          rcases finish_eq_ok hfinish with ⟨hname, hrange⟩
          exact .block hkind hlabels hname (by rw [hname]; exact hvalid) hrange
      · cases hvariable
    · cases hvariable
  · cases hvariable

/-- A block without a variable has an error, and all its errors are about parts of it. -/
theorem variableOf_eq_error {ds : Diagnostics} (hx : IsItem ts (.block h items bodySpan span))
    (hts : EndsIn P ts) (hvariable : variableOf file h items span = .error ds) :
    ds ≠ [] ∧ ∀ d ∈ ds, ErrorAt file P d := by
  rcases hx.header_ends hts with ⟨-, hheader, hlabels⟩
  have hempty : Draft.Inside file P {} := by
    constructor
    · exact fun _ h => absurd h List.not_mem_nil
    · exact fun _ h => absurd h (by simp)
  have hdraft := hempty.foldl (hx.inner_ends hts)
  unfold variableOf at hvariable
  split at hvariable
  · next label hlabel =>
    split at hvariable
    · dsimp only at hvariable
      split at hvariable
      · -- All arguments are right, so the default does not convert.
        cases hfinish : finish file label.text h span (items.foldl (Draft.item file) {}) with
        | ok w =>
          rw [hfinish] at hvariable
          cases hvariable
        | error f =>
          rw [hfinish] at hvariable
          cases hvariable
          exact ⟨List.cons_ne_nil _ _, List.forall_mem_singleton.2 (finish_eq_error hdraft hfinish)⟩
      · next hfaults =>
        cases hvariable
        exact ⟨fun hnil => hfaults (by rw [hnil]; rfl), hdraft.faults⟩
    · cases hvariable
      exact ⟨List.cons_ne_nil _ _, List.forall_mem_singleton.2
        (errorAt_fault (hlabels label (by rw [hlabel]; exact List.mem_cons_self)))⟩
  · cases hvariable
    exact ⟨List.cons_ne_nil _ _, List.forall_mem_singleton.2 (errorAt_fault hheader)⟩

/-! ## One item -/

/-- What comes of an item: the variable that it declares and nothing else, or errors about it. -/
inductive Outcome (file : String) (x : Item) : Option Variable × Diagnostics → Prop
  | declared {v : Variable} (hv : Declares file x v) : Outcome file x (some v, [])
  | faulty {ds : Diagnostics} (hne : ds ≠ []) (hds : ∀ d ∈ ds, ErrorIn file x d) :
      Outcome file x (none, ds)

theorem Outcome.fault {d : Diagnostic} (hd : ErrorIn file x d) : Outcome file x (none, [d]) :=
  .faulty (List.cons_ne_nil _ _) (List.forall_mem_singleton.2 hd)

/-- The variables with one more, if there is one. -/
def extend (declared : Dict Variable) : Option Variable → Dict Variable
  | some v => declared.insert v.name v
  | none => declared

/-- An item adds the variable that it declares, under a name that is new, or nothing. -/
theorem addItem_outcome (hx : x.Placed) (declared : Dict Variable) :
    ∃ v?, Outcome file x (v?, (addItem file declared x).2) ∧
      (addItem file declared x).1 = extend declared v? ∧
        ∀ v ∈ v?, declared.find? v.name = none := by
  rcases hx with ⟨ts, hx, hts⟩
  have hnone : ∀ v ∈ (none : Option Variable), declared.find? v.name = none := by simp
  cases x with
  | attr a =>
    refine ⟨none, .fault (errorAt_fault ?_), rfl, hnone⟩
    cases hx with
    | attr => exact (Hcl.endsIn_cons.1 hts).1
  | block h items bodySpan span =>
    rcases hx.header_ends hts with ⟨hkindSpan, hheader, -⟩
    unfold addItem
    dsimp only
    -- Only a block of the right kind declares, and only if its name is new.
    by_cases hkind : h.kind = blockKind
    · rw [if_neg (not_not_intro hkind)]
      cases hvariable : variableOf file h items span with
      | error ds =>
        rcases variableOf_eq_error hx hts hvariable with ⟨hne, hds⟩
        exact ⟨none, .faulty hne hds, rfl, hnone⟩
      | ok v =>
        dsimp only
        cases hfirst : declared.find? v.name with
        | some first => exact ⟨none, .fault (errorAt_fault hheader), rfl, hnone⟩
        | none =>
          refine ⟨some v, .declared (variableOf_eq_ok hkind hvariable), rfl, ?_⟩
          intro w hw
          cases hw
          exact hfirst
    · rw [if_pos hkind]
      exact ⟨none, .fault (errorAt_fault hkindSpan), rfl, hnone⟩

/-! ## All items -/

theorem addItems_append (declared : Dict Variable) (xs ys : List Item) :
    addItems file declared (xs ++ ys) =
      ((addItems file (addItems file declared xs).1 ys).1,
        (addItems file declared xs).2 ++ (addItems file (addItems file declared xs).1 ys).2) := by
  induction xs generalizing declared with
  | nil => rfl
  | cons x xs ih =>
    rw [List.cons_append]
    simp only [addItems, ih, List.append_assoc]

/-- The variables of some outcomes, each under its name. -/
def contributed (outcomes : List (Option Variable × Diagnostics)) : List (String × Variable) :=
  (outcomes.filterMap Prod.fst).map fun v => (v.name, v)

theorem extend_ascending (hdeclared : Dict.Ascending declared) (v? : Option Variable) :
    Dict.Ascending (extend declared v?) := by
  cases v? with
  | none => exact hdeclared
  | some v => exact Dict.ascending_insert hdeclared _ _

theorem perm_extend (hdeclared : Dict.Ascending declared) {v? : Option Variable}
    (hfresh : ∀ v ∈ v?, declared.find? v.name = none) (ds : Diagnostics) :
    (extend declared v?).Perm (declared ++ contributed [(v?, ds)]) := by
  cases v? with
  | none =>
    rw [show contributed [(none, ds)] = [] from rfl, List.append_nil]
    exact .refl _
  | some v =>
    -- The name is new, so the insertion keeps every variable in front.
    have hother : ∀ old ∈ declared, decide (old.1 ≠ v.name) = true := by
      intro old hold
      refine decide_eq_true fun hname => ?_
      have hfound := (Dict.find?_eq_some_iff hdeclared).2 hold
      rw [hname, hfresh v rfl] at hfound
      cases hfound
    have hinsert := Dict.perm_insert hdeclared v.name v
    rw [List.filter_eq_self.2 hother] at hinsert
    exact hinsert

theorem contributed_append (xs ys : List (Option Variable × Diagnostics)) :
    contributed (xs ++ ys) = contributed xs ++ contributed ys := by
  rw [contributed, List.filterMap_append, List.map_append, contributed, contributed]

/-- Items in turn have outcomes, one each: what is declared and reported is what they say. -/
theorem addItems_outcomes (hitems : ∀ x ∈ items, x.Placed) (hdeclared : Dict.Ascending declared) :
    ∃ outcomes, List.Forall₂ (Outcome file) items outcomes ∧
      (addItems file declared items).2 = outcomes.flatMap Prod.snd ∧
      ((addItems file declared items).1).Perm (declared ++ contributed outcomes) ∧
      Dict.Ascending (addItems file declared items).1 := by
  induction items generalizing declared with
  | nil => exact ⟨[], .nil, rfl, by simp [addItems, contributed], hdeclared⟩
  | cons x items ih =>
    rcases List.forall_mem_cons.1 hitems with ⟨hx, hitems⟩
    rcases @addItem_outcome file x hx declared with ⟨v?, hout, hnext, hfresh⟩
    have hascending := extend_ascending hdeclared v?
    rw [← hnext] at hascending
    rcases ih hitems hascending with ⟨outcomes, hall, hreports, hperm, hlast⟩
    refine ⟨(v?, (addItem file declared x).2) :: outcomes, .cons hout hall, ?_, ?_, hlast⟩
    · rw [List.flatMap_cons, ← hreports]
      rfl
    · have hextend := perm_extend hdeclared hfresh (addItem file declared x).2
      rw [← hnext] at hextend
      have hboth := hperm.trans (hextend.append_right (contributed outcomes))
      rwa [List.append_assoc, ← contributed_append] at hboth

/-! ## One item among the others -/

/-- The items in front of an item, the item and those behind it have outcomes of their own. If the
item declares no variable, then the variables are those of the other items. -/
theorem addItems_around {front back : List Item} (hfront : ∀ y ∈ front, y.Placed) (hx : x.Placed)
    (hback : ∀ y ∈ back, y.Placed) :
    ∃ before v? ds behind, List.Forall₂ (Outcome file) front before ∧ Outcome file x (v?, ds) ∧
      List.Forall₂ (Outcome file) back behind ∧
      (addItems file [] (front ++ x :: back)).2 =
        before.flatMap Prod.snd ++ ds ++ behind.flatMap Prod.snd ∧
      ((addItems file [] (front ++ x :: back)).1).Perm
        (contributed before ++ contributed [(v?, ds)] ++ contributed behind) ∧
      (v? = none →
        (addItems file [] (front ++ back)).1 = (addItems file [] (front ++ x :: back)).1) := by
  rcases @addItems_outcomes file front [] hfront Dict.ascending_nil with
    ⟨before, hbefore, hreports, hperm, hascending⟩
  rcases @addItem_outcome file x hx (addItems file [] front).1 with ⟨v?, hout, hnext, hfresh⟩
  have hthere := extend_ascending hascending v?
  rw [← hnext] at hthere
  rcases @addItems_outcomes file back _ hback hthere with ⟨behind, hbehind, hrest, hlast, -⟩
  have hsplit : addItems file [] (front ++ x :: back) =
      ((addItems file (addItem file (addItems file [] front).1 x).1 back).1,
        (addItems file [] front).2 ++ ((addItem file (addItems file [] front).1 x).2 ++
          (addItems file (addItem file (addItems file [] front).1 x).1 back).2)) := by
    rw [addItems_append]
    rfl
  refine ⟨before, v?, _, behind, hbefore, hout, hbehind, ?_, ?_, ?_⟩
  · rw [hsplit, hreports, hrest, List.append_assoc]
  · rw [hsplit]
    refine hlast.trans (List.Perm.append_right _ ?_)
    rw [hnext]
    refine (perm_extend hascending hfresh (addItem file (addItems file [] front).1 x).2).trans ?_
    exact List.Perm.append_right _ hperm
  · intro hnone
    subst hnone
    -- The item leaves the variables in front of it as they are.
    rw [hsplit, addItems_append, hnext]
    rfl

/-! ## Items told by their places -/

theorem exists_declares {outcomes : List (Option Variable × Diagnostics)}
    (hall : List.Forall₂ (Outcome file) items outcomes) {entry : String × Variable}
    (hentry : entry ∈ contributed outcomes) : ∃ y ∈ items, Declares file y entry.2 := by
  induction hall with
  | nil => exact absurd hentry List.not_mem_nil
  | @cons y outcome items outcomes hout _ ih =>
    cases hout with
    | declared hv =>
      rcases List.mem_cons.1 hentry with rfl | hentry
      · exact ⟨y, List.mem_cons_self, hv⟩
      · rcases ih hentry with ⟨z, hz, hv⟩
        exact ⟨z, List.mem_cons_of_mem _ hz, hv⟩
    | faulty =>
      rcases ih hentry with ⟨z, hz, hv⟩
      exact ⟨z, List.mem_cons_of_mem _ hz, hv⟩

theorem exists_errorIn {outcomes : List (Option Variable × Diagnostics)}
    (hall : List.Forall₂ (Outcome file) items outcomes) {d : Diagnostic}
    (hd : d ∈ outcomes.flatMap Prod.snd) : ∃ y ∈ items, ErrorIn file y d := by
  induction hall with
  | nil => exact absurd hd List.not_mem_nil
  | @cons y outcome items outcomes hout _ ih =>
    rw [List.flatMap_cons] at hd
    rcases List.mem_append.1 hd with hd | hd
    · cases hout with
      | declared => exact absurd hd List.not_mem_nil
      | faulty _ hds => exact ⟨y, List.mem_cons_self, hds d hd⟩
    · rcases ih hd with ⟨z, hz, hd⟩
      exact ⟨z, List.mem_cons_of_mem _ hz, hd⟩

/-- Without errors every item declares a variable. -/
theorem forall₂_declares {outcomes : List (Option Variable × Diagnostics)}
    (hall : List.Forall₂ (Outcome file) items outcomes)
    (hclean : Diagnostics.hasErrors (outcomes.flatMap Prod.snd) = false) :
    List.Forall₂ (Declares file) items (outcomes.filterMap Prod.fst) := by
  induction hall with
  | nil => exact .nil
  | @cons y outcome items outcomes hout _ ih =>
    rw [List.flatMap_cons, Diagnostics.hasErrors, List.any_append, Bool.or_eq_false_iff] at hclean
    cases hout with
    | declared hv => exact .cons hv (ih hclean.2)
    | @faulty ds hne hds =>
      rcases List.exists_mem_of_ne_nil ds hne with ⟨d, hd⟩
      exact absurd (hds d hd).1 (List.any_eq_false.1 hclean.1 d hd)

theorem within_inj {s s' : Span} (h : s.within file = s'.within file) : s = s' := by
  cases s
  cases s'
  simpa [Span.within] using h

/-- Of the variables that other items declare, none stands where the item does. -/
theorem filter_contributed {outcomes : List (Option Variable × Diagnostics)}
    (hall : List.Forall₂ (Outcome file) items outcomes) (hne : ∀ y ∈ items, y.span ≠ x.span) :
    (contributed outcomes).filter (fun entry => entry.2.range = x.span.within file) = [] := by
  refine List.filter_eq_nil_iff.2 fun entry hentry => ?_
  rcases exists_declares hall hentry with ⟨y, hy, hv⟩
  intro hsame
  have hrange := hv.range_eq.symm.trans (of_decide_eq_true hsame)
  exact hne y hy (within_inj hrange)

/-- Items apart have no error in common. -/
theorem not_errorIn_of_apart {y : Item} {d : Diagnostic} (hapart : x.Apart y)
    (hx : ErrorIn file x d) : ¬ErrorIn file y d := by
  intro hy
  rcases hx with ⟨-, s, hs, hxstart, -⟩
  rcases hy with ⟨-, s', hs', hystart, -⟩
  have hsame : s.start = s'.start :=
    congrArg SourceRange.start (Option.some.inj (hs.symm.trans hs'))
  rw [← hsame] at hystart
  exact hapart.not_holds hxstart hystart

/-! ## Whole files -/

/-- The variables that stand where the item does, each under its name. -/
def contributions (source : SourceFile) (x : Item) : Dict Variable :=
  (collect source).1.filter fun entry => entry.2.range = x.span.within source.name

/-- What an item contributes is the variable of its outcome: the items around it contribute variables
of other ranges, and errors about other items. -/
theorem contributions_cases {source : SourceFile} {front back : List Item}
    (hclean : (Body.parse source.content source.name).diagnostics = [])
    (hitems : (Body.parse source.content source.name).tree.items = front ++ x :: back) :
    (∃ v, Declares source.name x v ∧ contributions source x = [(v.name, v)] ∧
        ¬∃ d ∈ (collect source).2, ErrorIn source.name x d) ∨
      contributions source x = [] ∧ (∃ d ∈ (collect source).2, ErrorIn source.name x d) ∧
        (addItems source.name [] (front ++ back)).1 = (collect source).1 := by
  rcases Hcl.Body.parse_items_apart hclean with ⟨hplaced, hapart⟩
  rw [hitems] at hplaced hapart
  rcases List.forall_mem_append.1 hplaced with ⟨hfront, hrest⟩
  rcases List.forall_mem_cons.1 hrest with ⟨hx, hback⟩
  rcases List.pairwise_append.1 hapart with ⟨-, hrestApart, hfrontApart⟩
  have hbackApart := (List.pairwise_cons.1 hrestApart).1
  have hfrontApart := fun y hy => hfrontApart y hy x List.mem_cons_self
  have hvars : (collect source).1 = (addItems source.name [] (front ++ x :: back)).1 := by
    rw [← hitems]
    rfl
  have hreports : (collect source).2 = (addItems source.name [] (front ++ x :: back)).2 := by
    rw [← hitems]
    exact congrArg (· ++ _) hclean
  rcases @addItems_around source.name x front back hfront hx hback with
    ⟨before, v?, ds, behind, hbefore, hout, hbehind, hall, hperm, hdeleted⟩
  have hfilter := hperm.filter fun entry => entry.2.range = x.span.within source.name
  rw [← hvars, List.filter_append, List.filter_append,
    filter_contributed hbefore fun y hy => (hfrontApart y hy).span_ne (hfront y hy),
    filter_contributed hbehind fun y hy => ((hbackApart y hy).span_ne hx).symm,
    List.nil_append, List.append_nil] at hfilter
  rw [hall] at hreports
  cases hout with
  | @declared v hv =>
    left
    refine ⟨v, hv, ?_, ?_⟩
    · have hone : [(v.name, v)].filter (fun entry => entry.2.range = x.span.within source.name) =
          [(v.name, v)] := by
        rw [List.filter_eq_self]
        exact List.forall_mem_singleton.2 (decide_eq_true hv.range_eq)
      rw [show contributed [(some v, [])] = [(v.name, v)] from rfl, hone] at hfilter
      exact List.perm_singleton.1 hfilter
    · rintro ⟨d, hd, hin⟩
      rw [hreports, List.append_nil] at hd
      -- The error is about an item in front or behind.
      rcases List.mem_append.1 hd with hd | hd
      · rcases exists_errorIn hbefore hd with ⟨y, hy, hother⟩
        exact not_errorIn_of_apart (hfrontApart y hy) hother hin
      · rcases exists_errorIn hbehind hd with ⟨y, hy, hother⟩
        exact not_errorIn_of_apart (hbackApart y hy) hin hother
  | @faulty ds hne hds =>
    right
    refine ⟨List.perm_nil.1 hfilter, ?_, ?_⟩
    · rcases List.exists_mem_of_ne_nil ds hne with ⟨d, hd⟩
      refine ⟨d, ?_, hds d hd⟩
      rw [hreports]
      exact List.mem_append_left _ (List.mem_append_right _ hd)
    · rw [hvars]
      exact hdeleted rfl

/-- A file that parses without diagnostics. Each item of its body contributes exactly one variable, and
no error is about a part of it, or it contributes none, and an error is. If there are no errors, then
the variables are those that the items declare, one each, with valid names that are their labels. The
body without an item that contributes no variable declares the same variables. -/
theorem collect_contributes (source : SourceFile)
    (hclean : (Body.parse source.content source.name).diagnostics = []) :
    (∀ x ∈ (Body.parse source.content source.name).tree.items,
      ((∃ v, contributions source x = [(v.name, v)]) ∧
          ¬∃ d ∈ (collect source).2, ErrorIn source.name x d) ∨
        contributions source x = [] ∧ ∃ d ∈ (collect source).2, ErrorIn source.name x d) ∧
    ((collect source).2.hasErrors = false →
      ∃ vs, List.Forall₂ (Declares source.name)
          (Body.parse source.content source.name).tree.items vs ∧
        ((collect source).1).Perm (vs.map fun v => (v.name, v))) ∧
    ∀ front x back, (Body.parse source.content source.name).tree.items = front ++ x :: back →
      contributions source x = [] →
        (addItems source.name [] (front ++ back)).1 = (collect source).1 := by
  refine ⟨?_, ?_, ?_⟩
  · intro x hx
    rcases List.append_of_mem hx with ⟨front, back, hitems⟩
    rcases contributions_cases hclean hitems with ⟨v, -, hone, hnone⟩ | ⟨hnone, herror, -⟩
    · exact .inl ⟨⟨v, hone⟩, hnone⟩
    · exact .inr ⟨hnone, herror⟩
  · intro herrors
    rcases @addItems_outcomes source.name _ [] (Hcl.Body.parse_items_apart hclean).1
      Dict.ascending_nil with ⟨outcomes, hall, hreports, hperm, -⟩
    -- The text is clean, so every report comes from an item.
    have hboth : (collect source).2 = outcomes.flatMap Prod.snd := by
      rw [← hreports]
      exact congrArg (· ++ _) hclean
    rw [hboth] at herrors
    exact ⟨_, forall₂_declares hall herrors, hperm⟩
  · intro front x back hitems hnone
    rcases contributions_cases hclean hitems with ⟨v, -, hone, -⟩ | ⟨-, -, hsame⟩
    · rw [hone] at hnone
      cases hnone
    · exact hsame

/-- A block that is wrong in front of one with the same name, and a block with a name taken. -/
def laterSource : SourceFile :=
  ⟨"v.hcl", "variable \"a\" \x7b\n  type = x\n  default = f()\n\x7d\n\n" ++
    "variable \"a\" \x7b\n  default = 1\n\x7d\nvariable \"a\" \x7b\n\x7d\n"⟩

theorem collect_contributes_later :
    (Body.parse laterSource.content laterSource.name).diagnostics = [] ∧
      (Body.parse laterSource.content laterSource.name).tree.items.length = 3 ∧
      (collect laterSource).1.map (fun entry => (entry.1, entry.2.range.start.line)) = [("a", 6)] ∧
      ∀ x ∈ (Body.parse laterSource.content laterSource.name).tree.items,
        ((∃ v, contributions laterSource x = [(v.name, v)]) ∧
            ¬∃ d ∈ (collect laterSource).2, ErrorIn laterSource.name x d) ∨
          contributions laterSource x = [] ∧
            ∃ d ∈ (collect laterSource).2, ErrorIn laterSource.name x d := by
  have hclean : (Body.parse laterSource.content laterSource.name).diagnostics = [] := by
    decide +kernel
  refine ⟨hclean, by decide +kernel, by decide +kernel, ?_⟩
  exact (collect_contributes laterSource hclean).1

end Overlay.Declaration
