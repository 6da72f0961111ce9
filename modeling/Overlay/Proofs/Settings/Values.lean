import Overlay.Proofs.Json.Expression
import Overlay.Proofs.Source.Inline
import Overlay.Settings.Basic

/-!
# Settings values and their texts

Settings give values as documents, and flags are texts: a value that is no string is passed on as the
text of its document, and is read back as an expression where the variable holds neither text nor a
number.

* `find?_apply`: what a flag is once settings are applied.
* `inlineExpression_render`: the text of a document is an expression of the document's value exactly
  if its strings and names survive.
* `apply_survives`: so does a settings value on its way to a variable. Braces behind a dollar or
  percent sign do not survive, nor do backspace and form feed (`sequence_lost`).
-/

namespace Overlay

/-! ## Flags -/

namespace Settings

theorem find?_addFlag (flags : Dict String) (entry : String × Json) (key : String) :
    (addFlag flags entry).find? key =
      (flags.find? key).or (if entry.1 = key then some (rawText entry.2) else none) := by
  unfold addFlag Dict.contains
  by_cases hkey : entry.1 = key
  · subst hkey
    cases hfind : flags.find? entry.1 with
    | some text => simp [hfind]
    | none => simp [Dict.find?_insert_self]
  · rw [if_neg hkey, Option.or_none]
    split
    · rfl
    · exact Dict.find?_insert_of_ne (Ne.symm hkey) _ _

/-- A flag keeps what it is set to first. -/
theorem find?_foldl_addFlag (values : Dict Json) (key : String) : ∀ flags : Dict String,
    (values.foldl addFlag flags).find? key =
      (flags.find? key).or ((values.find? key).map rawText) := by
  induction values with
  | nil =>
    intro flags
    exact (Option.or_none).symm
  | cons entry rest ih =>
    intro flags
    rcases entry with ⟨k, x⟩
    have hfirst : Dict.find? key ((k, x) :: rest) =
        if k = key then some x else Dict.find? key rest := rfl
    rw [List.foldl_cons, ih, find?_addFlag, Option.or_assoc, hfirst]
    by_cases hkey : k = key
    · simp [hkey]
    · simp [hkey]

/-- A flag that is set already stays as it is, and any other is set to the text of its value. -/
theorem find?_apply (settings : Settings) (c : Configuration) (key : String) :
    (settings.apply c).cli.find? key =
      (c.cli.find? key).or ((settings.values.find? key).map rawText) :=
  find?_foldl_addFlag settings.values key c.cli

end Settings

/-! ## Documents as expressions -/

namespace Decoding

/-- Without errors an expression is read without diagnostics. -/
theorem inlineExpression_eq_ok {raw filename : String} {v : Value}
    (h : inlineExpression raw filename = .ok v) :
    (Hcl.Tokens.ofText raw).faults = [] ∧
      (Hcl.Expr.parse raw filename).tree.evaluate.faults = [] ∧
        (Hcl.Expr.parse raw filename).tree.evaluate.result = v := by
  unfold inlineExpression at h
  dsimp only at h
  split at h
  · cases h
  · next hparse =>
    split at h
    · cases h
    · next hall =>
      rw [Diagnostics.hasErrors, List.any_append, Bool.or_eq_true, not_or] at hall
      refine ⟨?_, ?_, Except.ok.inj h⟩
      · -- Every fault is an error, so the first one would have been reported.
        cases hfaults : (Hcl.Tokens.ofText raw).faults with
        | nil => rfl
        | cons f faults =>
          refine absurd ?_ hparse
          show (Hcl.Tokens.diagnostics _ filename ++ _).any Diagnostic.isError = true
          unfold Hcl.Tokens.diagnostics
          rw [hfaults]
          rfl
      · cases hfaults : (Hcl.Expr.parse raw filename).tree.evaluate.faults with
        | nil => rfl
        | cons f faults =>
          refine absurd ?_ hall.2
          unfold Evaluated.diagnostics
          rw [hfaults]
          rfl

/-- The text of a document is an expression of its value exactly if the document survives. -/
theorem inlineExpression_render {j : Json} (hj : j.Ordered) (filename : String) :
    inlineExpression j.render filename = .ok (.ofJson j) ↔ j.Survives := by
  rcases Json.render_conveyed j hj with ⟨xs, hcuts, hvalue⟩
  have htokens : Hcl.Tokens.ofText j.render = Hcl.Tokens.ofLexemes .start xs := by
    have hall := hcuts [] (by intro c cs heq; cases heq)
    have hnil : Hcl.Lexeme.split [] = [] := rfl
    rw [List.append_nil, hnil, List.append_nil] at hall
    rw [Hcl.Tokens.ofText, hall]
  have hread : (Hcl.Tokens.ofText j.render).faults = [] →
      ∃ e, Hcl.Expr.parse j.render filename = ⟨e, []⟩ ∧
        Json.Carries j.Survives Value.textSize e.evaluate (.ofJson j) := by
    intro hclean
    have hderives := hvalue.derives .start
    rw [← htokens] at hderives
    rcases hderives hclean with ⟨e, he, hcarries⟩
    exact ⟨e, Hcl.Expr.parse_of_derivation hclean he filename, hcarries⟩
  constructor
  · -- A value that is carried without a fault and is the whole one lost no text.
    intro h
    rcases inlineExpression_eq_ok h with ⟨hclean, hfaults, hresult⟩
    rcases hread hclean with ⟨e, hparse, hcarries⟩
    rw [hparse] at hfaults hresult
    exact hcarries.survives hfaults hresult
  · intro hsurvives
    have hclean := hvalue.clean hsurvives .start
    rw [← htokens] at hclean
    rcases hread hclean with ⟨e, hparse, hcarries⟩
    unfold inlineExpression
    rw [hparse]
    dsimp only
    rw [hcarries.eq_pure hsurvives]
    rfl

end Decoding

/-! ## Settings values -/

/-- Whether the values of a variable are neither texts nor numbers. -/
def ValueType.IsStructured : ValueType → Prop
  | bool | list _ | set _ | map _ | tuple _ | object _ => True
  | any | string | number => False

theorem Decoding.inlineValue_of_isStructured {t : ValueType} (ht : t.IsStructured)
    (raw filename : String) :
    inlineValue (some t) raw filename = inlineExpression raw filename := by
  cases t with
  | any => cases ht
  | string => cases ht
  | number => cases ht
  | bool => rfl
  | list => rfl
  | set => rfl
  | map => rfl
  | tuple => rfl
  | object => rfl

namespace Settings

/-- A value that is no string becomes a flag, unless the flag is set already; and for a variable of
a structured type the flag is an override with this value exactly if all strings and names in it
survive. -/
theorem apply_survives {settings : Settings} {c : Configuration} {key : String} {j : Json}
    (hvalue : settings.values.find? key = some j) (hstring : ∀ s, j ≠ .string s) (hj : j.Ordered)
    (hfree : c.cli.find? key = none) {addressing : Addressing} {declared : VariableMap}
    {target : Target} {v : Variable} {t : ValueType} (htarget : addressing.targetOf? key = some target)
    (hdeclared : declared.lookup? target = some v) (htype : v.type = some t) (ht : t.IsStructured)
    (source : OverrideSource) :
    ∃ raw, (settings.apply c).cli.find? key = some raw ∧
      ((∃ o, Decoding.inline addressing declared source key raw = .ok o ∧ o.value = .ofJson j) ↔
        j.Survives) := by
  have hraw : rawText j = j.render := by
    unfold rawText
    split
    · next s => exact absurd rfl (hstring s)
    · rfl
  refine ⟨j.render, ?_, ?_⟩
  · rw [find?_apply, hfree, hvalue, ← hraw]
    rfl
  · have hbind : (declared.lookup? target).bind Variable.type = some t := by
      rw [hdeclared]
      exact htype
    rw [← Decoding.inlineExpression_render hj (Decoding.inlineName source),
      Decoding.inline_of_targetOf? htarget, hbind, Decoding.inlineValue_of_isStructured ht]
    -- A structured type takes the expression's value as it is, so the outcomes agree both ways.
    cases Decoding.inlineExpression j.render (Decoding.inlineName source) with
    | error ds =>
      constructor
      · rintro ⟨o, ho, -⟩
        cases ho
      · intro h
        cases h
    | ok w =>
      constructor
      · rintro ⟨o, ho, hw⟩
        rw [← Except.ok.inj ho] at hw
        exact congrArg Except.ok hw
      · intro h
        exact ⟨_, rfl, Except.ok.inj h⟩

/-- The variables of a package `web` with one variable `x`. -/
def oneVariable (t : ValueType) : VariableMap :=
  [("web", [("x", { Variable.bare "x" (.point "v.hcl" .start) with type := some t })])]

/-- Escapes, signs and a number with an exponent on their way to a map. -/
theorem apply_survives_escaped :
    let j : Json := .object [("k\n", .array [.float (.ofDecimal true 25 20), .string "\"\\\t$%"])]
    let settings : Settings := { values := [("x", j)] }
    ∃ raw, (settings.apply { root := ⟨"web"⟩ }).cli.find? "x" = some raw ∧
      ∃ o, Decoding.inline ⟨⟨"web"⟩, .hierarchical⟩ (oneVariable (.map .any)) (.cli "x") "x" raw =
        .ok o ∧ o.value = .ofJson j := by
  intro j settings
  have hj : j.Ordered := ⟨by simp [Dict.Ascending, Dict.keys], ⟨trivial, trivial, trivial⟩, trivial⟩
  have hstring : ∀ s, j ≠ .string s := by
    intro s
    simp [j]
  have htarget : Addressing.targetOf? ⟨⟨"web"⟩, .hierarchical⟩ "x" = some ⟨⟨"web"⟩, "x"⟩ := by
    decide +kernel
  have hsurvives : j.Survives := by
    refine ⟨⟨?_, trivial, ?_, trivial⟩, trivial⟩
    · decide +kernel
    · show Json.TextSurvives _
      decide +kernel
  rcases @apply_survives settings { root := ⟨"web"⟩ } "x" j rfl hstring hj rfl _
    (oneVariable (.map .any)) _ _ _ htarget rfl rfl trivial (.cli "x") with ⟨raw, hraw, hvalue⟩
  exact ⟨raw, hraw, hvalue.2 hsurvives⟩

/-- A dollar sign in front of a brace: the flag is no expression. -/
theorem sequence_lost :
    let settings : Settings := { values := [("x", .array [.string "$\x7bx\x7d"])] }
    (settings.apply { root := ⟨"web"⟩ }).cli.find? "x" = some "[\"$\x7bx\x7d\"]" ∧
      ¬∃ o, Decoding.inline ⟨⟨"web"⟩, .hierarchical⟩ (oneVariable (.list .string)) (.cli "x") "x"
        "[\"$\x7bx\x7d\"]" = .ok o := by
  intro settings
  refine ⟨by decide +kernel, ?_⟩
  rintro ⟨o, ho⟩
  have hfails : (Decoding.inline ⟨⟨"web"⟩, .hierarchical⟩ (oneVariable (.list .string)) (.cli "x")
      "x" "[\"$\x7bx\x7d\"]").toOption.isSome = false := by
    decide +kernel
  rw [ho] at hfails
  cases hfails

end Settings

end Overlay
