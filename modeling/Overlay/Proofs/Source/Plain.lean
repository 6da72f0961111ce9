import Overlay.Proofs.Source.Documents
import Overlay.Proofs.Source.Inline
import Overlay.Proofs.Value.Rereading
import Overlay.Proofs.Variable.OverrideSet
import Overlay.Source.Decoding

/-!
# Plain values from every source

* `evaluate_plain`, `ofJson_plain`: what expressions and documents hold is plain.
* `source_plain`: the overrides of a file have plain values and name no type.
* `inline_plain`: the override of a key and a text has a plain value and names the declared type of
  its variable, if it names one.
-/

namespace Overlay

open Hcl (Expr Entry Key)

/-! ## Expressions -/

namespace Value

theorem Plain.insert {entries : Dict Value} {v : Value} (hasc : Dict.Ascending entries)
    (hentries : Plain.entriesPlain entries) (hv : v.Plain) (key : String) :
    Dict.Ascending (entries.insert key v) ∧ Plain.entriesPlain (entries.insert key v) := by
  refine ⟨Dict.ascending_insert hasc key v, entriesPlain_iff.2 fun e he => ?_⟩
  rcases Dict.mem_insert he with rfl | hold
  · exact hv
  · exact entriesPlain_iff.1 hentries e hold

end Value

namespace Hcl

theorem negated_plain {x : Evaluated Value} (hx : x.result.Plain) (span : Span) :
    (Expr.negated x span).result.Plain := by
  rcases x with ⟨result, faults⟩
  cases result <;> trivial

mutual

/-- The value of an expression is plain, whatever is wrong with the expression. -/
theorem evaluate_plain : ∀ e : Expr, e.evaluate.result.Plain
  | .null _ | .bool _ _ | .string _ _ | .traversal _ | .call _ _ _ => trivial
  | .number text span => by
    rw [Expr.evaluate]
    cases Numeric.Number.parse? text <;> trivial
  | .parens inner _ => evaluate_plain inner
  | .negate operand span => negated_plain (evaluate_plain operand) span
  | .tuple items _ => evaluateItems_plain items
  | .object entries _ => evaluateEntries_plain entries Dict.ascending_nil trivial

theorem evaluateItems_plain : ∀ items : List Expr,
    Value.Plain.itemsPlain (evaluateItems items).result
  | [] => trivial
  | x :: xs => ⟨evaluate_plain x, evaluateItems_plain xs⟩

theorem evaluateEntries_plain : ∀ (entries : List Entry) {seen : Dict Span} {values : Dict Value},
    Dict.Ascending values → Value.Plain.entriesPlain values →
      Dict.Ascending (evaluateEntries seen values entries).result ∧
        Value.Plain.entriesPlain (evaluateEntries seen values entries).result
  | [], _, _, hasc, hvalues => ⟨hasc, hvalues⟩
  | .mk key value :: rest, seen, values, hasc, hvalues => by
    rw [evaluateEntries]
    dsimp only
    split
    · exact evaluateEntries_plain rest hasc hvalues
    · split
      · exact evaluateEntries_plain rest hasc hvalues
      · rcases Value.Plain.insert hasc hvalues (evaluate_plain value) _ with ⟨hnext, hmore⟩
        exact evaluateEntries_plain rest hnext hmore

end

end Hcl

/-! ## Documents -/

namespace Value

theorem ofNumberText_plain (text : String) : (ofNumberText text).Plain := by
  unfold ofNumberText
  cases Numeric.Number.parse? text <;> trivial

theorem keys_ofMembers (members : List (String × Json)) :
    Dict.keys (ofJson.ofMembers members) = Dict.keys members := by
  induction members with
  | nil => rfl
  | cons m rest ih =>
    rcases m with ⟨key, x⟩
    exact congrArg (key :: ·) ih

mutual

/-- The value of an ordered document is plain. -/
theorem ofJson_plain : ∀ {x : Json}, x.Ordered → (ofJson x).Plain
  | .null, _ | .bool _, _ | .string _, _ => trivial
  | .integer n, _ => ofNumberText_plain _
  | .float x, _ => ofNumberText_plain _
  | .array _, h => ofItems_plain h
  | .object members, h => by
    refine ⟨?_, ofMembers_plain h.2⟩
    rw [Dict.Ascending, keys_ofMembers]
    exact h.1

theorem ofItems_plain : ∀ {items : List Json}, Json.Ordered.itemsOrdered items →
    Plain.itemsPlain (ofJson.ofItems items)
  | [], _ => trivial
  | _ :: _, h => ⟨ofJson_plain h.1, ofItems_plain h.2⟩

theorem ofMembers_plain : ∀ {members : List (String × Json)}, Json.Ordered.membersOrdered members →
    Plain.entriesPlain (ofJson.ofMembers members)
  | [], _ => trivial
  | (_, _) :: _, h => ⟨ofJson_plain h.1, ofMembers_plain h.2⟩

end

end Value

/-! ## Overrides -/

namespace Decoding

variable {addressing : Addressing} {declared : VariableMap} {filename content : String}

/-- Whether all overrides that are recorded have plain values and name no type. -/
def Record.Plain (r : Record) : Prop := ∀ o ∈ r.overrides.entries, o.value.Plain ∧ o.type = none

theorem Record.Plain.report {r : Record} (hr : r.Plain) (ds : Diagnostics) : (r.report ds).Plain :=
  hr

theorem Record.Plain.assign {r : Record} (hr : r.Plain) {segments : List String} {v : Value}
    (hv : v.Plain) {range keyRange : SourceRange} :
    (r.assign addressing filename segments v range keyRange).Plain := by
  unfold Record.assign
  split
  · exact hr
  · split
    · next overrides hinsert =>
      rcases OverrideSet.insert_eq_ok hinsert with ⟨-, rfl⟩
      intro o ho
      rcases List.mem_append.1 ho with hold | hnew
      · exact hr o hold
      · rw [List.mem_singleton.1 hnew]
        exact ⟨hv, rfl⟩
    · exact hr

theorem recordEntry_plain {r : Record} (hr : r.Plain) (w : Hcl.Wrapped) (e : Entry) :
    (recordEntry addressing filename w r e).Plain := by
  unfold recordEntry
  dsimp only
  split
  · exact hr
  · split
    · exact hr
    · exact (hr.report _).assign (Hcl.evaluate_plain e.value)

theorem recordMember_plain {r : Record} (hr : r.Plain) (whole : SourceRange)
    {member : String × Json} (hmember : member.2.Ordered) :
    (recordMember addressing filename whole r member).Plain := by
  unfold recordMember
  split
  · exact hr
  · exact hr.assign (Value.ofJson_plain hmember)

theorem empty_plain : Record.Plain {} := by
  intro o ho
  cases ho

theorem native_plain : (native addressing filename content).Plain := by
  have hentries : ∀ (w : Hcl.Wrapped) (es : List Entry) {r : Record}, r.Plain →
      (es.foldl (recordEntry addressing filename w) r).Plain := by
    intro w es
    induction es with
    | nil => exact fun hr => hr
    | cons e es ih => exact fun hr => ih (recordEntry_plain hr w e)
  unfold native
  dsimp only
  split
  · exact empty_plain.report _
  · split_ifs
    · exact empty_plain.report _
    · exact hentries _ _ (empty_plain.report _)

theorem document_plain {format : Format} {parsed : Except Diagnostic Json}
    (h : ∀ x, parsed = .ok x → x.Ordered) :
    (document addressing filename content format parsed).Plain := by
  have hmembers : ∀ (whole : SourceRange) (members : List (String × Json)) {r : Record}, r.Plain →
      Json.Ordered.membersOrdered members →
        (members.foldl (recordMember addressing filename whole) r).Plain := by
    intro whole members
    induction members with
    | nil => exact fun hr _ => hr
    | cons m rest ih =>
      exact fun hr hordered => ih (recordMember_plain hr whole hordered.1) hordered.2
  unfold document
  dsimp only
  split
  · exact empty_plain
  · exact empty_plain
  · exact hmembers _ _ empty_plain (h _ rfl).2
  · exact empty_plain

theorem otherDocument_ordered {format : Format} {read : Except DocumentFault Json} {x : Json}
    (hx : otherDocument filename format content read = .ok x) : x.Ordered := by
  cases read with
  | error f => cases hx
  | ok y =>
    cases hx
    exact Json.collapse_ordered y

/-- The overrides of a file have plain values and name no type, whatever it is read with. -/
theorem source_plain {format : Format} {documents : DocumentReaders} {o : Override}
    (ho : o ∈ (source addressing filename content format documents).overrides.entries) :
    o.value.Plain ∧ o.type = none := by
  have hfile : ∀ {r : Record}, r.Plain → o ∈ (r.toFile filename content).overrides.entries →
      o.value.Plain ∧ o.type = none := by
    intro r hr hmem
    unfold Record.toFile at hmem
    dsimp only at hmem
    split_ifs at hmem
    · cases hmem
    · exact hr o hmem
  cases format with
  | native => exact hfile native_plain ho
  | json =>
    refine hfile (document_plain fun x hx => ?_) ho
    exact Json.parse?_ordered (Value.mapError_eq_ok.1 hx)
  | yaml => exact hfile (document_plain fun x hx => otherDocument_ordered hx) ho
  | toml => exact hfile (document_plain fun x hx => otherDocument_ordered hx) ho

theorem inlineExpression_plain {raw : String} {v : Value}
    (h : inlineExpression raw filename = .ok v) : v.Plain := by
  unfold inlineExpression at h
  dsimp only at h
  split_ifs at h
  cases h
  exact Hcl.evaluate_plain _

theorem inlineValue_plain {type : Option ValueType} {raw : String} {v : Value}
    (h : inlineValue type raw filename = .ok v) : v.Plain := by
  unfold inlineValue at h
  split at h
  · cases h
    trivial
  · cases h
    trivial
  · cases h
    trivial
  · split at h <;>
      (cases h; trivial)
  · exact inlineExpression_plain h

/-- The override of a key and a text has a plain value, and it names the declared type of its
variable. -/
theorem inline_plain {origin : OverrideSource} {key raw : String} {o : Override}
    (h : inline addressing declared origin key raw = .ok o) :
    o.value.Plain ∧ o.type = (declared.lookup? o.target).bind Variable.type := by
  rcases inline_eq_ok h with ⟨-, -, htype, hvalue⟩
  exact ⟨inlineValue_plain hvalue, htype⟩

end Decoding

end Overlay
