import Overlay.Proofs.Resolution.Conformity
import Overlay.Proofs.Source.Plain

/-!
# Where the values of variables come from

* `Variable.Sourced`: the value of a variable is a plain value converted to its type.
* A declaration makes such a variable (`collect_sourced`), and an override with a plain value that
  converts leaves one (`applyOverride_sourced`).
* `Sourced.rereads`: the literal of such a value converts to all of it but infinite numbers.
-/

namespace Overlay

namespace Variable

variable {v w : Variable} {o : Override}

/-- Whether a variable is named by an identifier, and its value is a plain one converted to its
type. -/
structure Sourced (v : Variable) : Prop where
  named : isIdentifier v.name = true
  ordered : ∀ t, v.type = some t → t.Ordered
  source : ∃ raw : Value, raw.Plain ∧ conform v.type raw = .ok v.value

/-- An override with a plain value that leaves the type gives a new source. -/
theorem applyOverride_sourced (hv : v.Sourced) (ho : o.value.Plain) (htype : v.typeUnder o = v.type)
    (h : v.applyOverride o = .ok w) : w.type = v.type ∧ w.Sourced := by
  rcases applyOverride_eq_ok h with ⟨value, hvalue, rfl⟩
  refine ⟨htype, hv.named, ?_, o.value, ho, hvalue⟩
  rw [htype]
  exact hv.ordered

/-- What the literal of a converted plain value is read as, converts to the same type again. -/
theorem conform_readBack {type : Option ValueType} {raw value : Value}
    (htype : ∀ t, type = some t → t.Ordered) (hraw : raw.Plain)
    (h : conform type raw = .ok value) :
    value.Ordered ∧ conform type value.readBack = .ok value.finitePart ∧
      (value.IsFinite → value.finitePart = value) := by
  cases type with
  | none =>
    cases h
    rcases Value.readBack_of_plain hraw with ⟨hread, hordered⟩
    exact ⟨hordered, congrArg Except.ok hread, Value.finitePart_of_plain hraw⟩
  | some t =>
    have hrereads := Value.rereads_of_convert t (htype t rfl) hraw h
    exact ⟨hrereads.ordered, hrereads.convert, hrereads.same⟩

theorem Sourced.rereads (h : v.Sourced) :
    v.value.Ordered ∧ conform v.type v.value.readBack = .ok v.value.finitePart ∧
      (v.value.IsFinite → v.value.finitePart = v.value) := by
  rcases h.source with ⟨raw, hraw, hvalue⟩
  exact conform_readBack h.ordered hraw hvalue

end Variable

/-! ## Declarations -/

namespace Declaration

variable {file name : String} {h : Hcl.Header} {span : Span} {d : Draft} {v : Variable}
  {P : Variable → Prop}

/-- Whether the default in a draft, if there is one, is plain. -/
def Draft.PlainDefault (d : Draft) : Prop := ∀ x, d.default = some x → x.1.Plain

theorem argument_plain (hd : d.PlainDefault) (a : Hcl.Attribute) :
    (d.argument file a).PlainDefault := by
  unfold Draft.argument
  cases d.seen.find? a.name with
  | some first => exact hd
  | none =>
    dsimp only
    split_ifs
    · split <;> exact hd
    · intro x hx
      cases hx
      exact Hcl.evaluate_plain a.expr
    · split <;> exact hd
    · exact hd

theorem items_plain (hd : d.PlainDefault) (items : List Hcl.Item) :
    (items.foldl (Draft.item file) d).PlainDefault := by
  induction items generalizing d with
  | nil => exact hd
  | cons x xs ih =>
    apply ih
    cases x with
    | attr a => exact argument_plain hd a
    | block h items bodySpan span => exact hd

/-- The value of a finished draft is its default converted to its type; without a default both are
`null`. -/
theorem finish_source (hd : d.PlainDefault) (hfinish : finish file name h span d = .ok v) :
    v.name = name ∧ ∃ raw : Value, raw.Plain ∧ Variable.conform v.type raw = .ok v.value := by
  unfold finish at hfinish
  cases htype : d.type with
  | none =>
    simp only [htype, Except.ok.injEq] at hfinish
    subst hfinish
    cases hdefault : d.default with
    | none => exact ⟨rfl, .null, trivial, rfl⟩
    | some x => exact ⟨rfl, x.1, hd x hdefault, rfl⟩
  | some t =>
    cases hdefault : d.default with
    | none =>
      simp only [htype, hdefault, Except.ok.injEq] at hfinish
      subst hfinish
      exact ⟨rfl, .null, trivial, Value.convert_null t⟩
    -- A default is converted to the declared type, and the outcome of that is the value.
    | some x =>
      rcases x with ⟨value, valueSpan⟩
      simp only [htype, hdefault] at hfinish
      split at hfinish
      · next converted hconverted =>
        cases hfinish
        exact ⟨rfl, value, hd _ hdefault, hconverted⟩
      · cases hfinish

theorem variableOf_sourced {items : List Hcl.Item}
    (hvariable : variableOf file h items span = .ok v) : v.Sourced := by
  have hordered := (variableOf_conforming hvariable).ordered
  unfold variableOf at hvariable
  split at hvariable
  · next label _ =>
    split at hvariable
    · next hname =>
      dsimp only at hvariable
      split at hvariable
      · have hnothing : Draft.PlainDefault {} := by
          intro x hx
          cases hx
        rcases finish_source (items_plain hnothing items) (Value.mapError_eq_ok.1 hvariable) with
          ⟨hself, hsource⟩
        exact ⟨by rw [hself]; exact hname, hordered, hsource⟩
      · cases hvariable
    · cases hvariable
  · cases hvariable

/-- What holds of the variable of every block, holds of all variables that a file declares. -/
theorem addItems_forall
    (hP : ∀ (h : Hcl.Header) items span v, variableOf file h items span = .ok v → P v)
    {declared : Dict Variable} (hdeclared : ∀ entry ∈ declared, P entry.2) (items : List Hcl.Item) :
    ∀ entry ∈ (addItems file declared items).1, P entry.2 := by
  induction items generalizing declared with
  | nil => exact hdeclared
  | cons x xs ih =>
    have hnext : ∀ entry ∈ (addItem file declared x).1, P entry.2 := by
      rcases addItem_declared file declared x with hsame | ⟨h, items, span, v, hvariable, hadded⟩
      · rw [hsame]
        exact hdeclared
      · rw [hadded]
        intro entry hentry
        rcases Dict.mem_insert hentry with rfl | hold
        · exact hP h items span v hvariable
        · exact hdeclared entry hold
    exact ih hnext

end Declaration

namespace Resolution

/-- The values of all declared variables have a source. -/
theorem collect_sourced (sources : Dict SourceFile) :
    ∀ target v, (collect sources).1.lookup? target = some v → v.Sourced := by
  have hpackages : ∀ package ∈ (collect sources).1, ∀ entry ∈ package.2, entry.2.Sourced := by
    induction sources with
    | nil => simp [collect]
    | cons source rest ih =>
      intro package hpackage
      rcases List.mem_cons.1 hpackage with rfl | hrest
      · exact Declaration.addItems_forall
          (fun h items span v hv => Declaration.variableOf_sourced hv) (by simp) _
      · exact ih package hrest
  intro target v hv
  rcases Option.bind_eq_some_iff.1 hv with ⟨declared, hdeclared, hfind⟩
  exact hpackages _ (Dict.mem_of_find? hdeclared) _ (Dict.mem_of_find? hfind)

end Resolution

end Overlay
