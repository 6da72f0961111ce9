import Overlay.Proofs.Hcl.Completeness

/-!
# What parses cleanly

A text without lexical faults parses without diagnostics exactly if the grammar derives its tokens,
and then the tree is the one of the derivation (`parse_derivation`).

* A reading of all tokens of a text is clean exactly if there is a derivation, where the reader is
  sound and complete (`readText_derivation`).
* A derivation gives the tree of the reading, so there is at most one.
-/

namespace Overlay.Hcl

variable {α : Type}

/-- A reader of whole texts that takes what `P` derives, and reads it: its diagnostics are empty
exactly if there is a derivation, and it gives the tree of any derivation. -/
theorem Parser.readText_derivation {p : Parser α} {P : List Token → α → Prop} {text : String}
    (filename : String) (hclean : (Tokens.ofText text).diagnostics filename = [])
    (hsound : ∀ c, (p (.ofText text) c).Leaves c fun ts rest a => rest = [] ∧ P ts a)
    (hcomplete : ∀ {ts a}, P ts a → ∀ last,
      p (.ofText text) ⟨last, ts⟩ = ⟨a, ⟨stopAfter last ts, []⟩, []⟩) :
    ((p.readText text filename).diagnostics = [] ↔ ∃ a, P (Tokens.ofText text).tokens a) ∧
      ∀ a, P (Tokens.ofText text).tokens a → (p.readText text filename).tree = a := by
  unfold Parser.readText
  simp only [hclean, List.nil_append, List.map_eq_nil_iff, Cursor.ofTokens]
  refine ⟨⟨?_, ?_⟩, ?_⟩
  · intro hfaults
    rcases hsound _ hfaults with ⟨ts, hrest, -, hnil, hts⟩
    have htokens : (Tokens.ofText text).tokens = ts := by
      rw [hnil, List.append_nil] at hrest
      exact hrest
    rw [← htokens] at hts
    exact ⟨_, hts⟩
  · rintro ⟨a, ha⟩
    rw [hcomplete ha]
  · intro a ha
    rw [hcomplete ha]

/-- A text whose tokens are an expression is read as the expression. -/
theorem Expr.parse_of_derivation {text : String} {e : Expr}
    (hclean : (Tokens.ofText text).faults = []) (he : IsExpr (Tokens.ofText text).tokens e)
    (filename : String) : Expr.parse text filename = ⟨e, []⟩ := by
  have hlone : IsLone ([] ++ (Tokens.ofText text).tokens ++ []) e :=
    .mk lineEnds_nil he lineEnds_nil
  rw [List.append_nil, List.nil_append] at hlone
  have hread := @Parser.loneExpression_complete (.ofText text) _ _ hlone .start
  unfold Expr.parse Parser.readText
  dsimp only [Cursor.ofTokens]
  rw [hread, Tokens.diagnostics, hclean]
  rfl

/-- A text that lexes cleanly parses cleanly, as an expression or as a body, exactly if its tokens
are one; and every derivation is the tree that parsing gives. The span of a body is the one of its
tokens, and without tokens it is the end of the text. -/
theorem parse_derivation (text filename : String)
    (hclean : (Tokens.ofText text).diagnostics filename = []) :
    (((Expr.parse text filename).diagnostics = [] ↔ ∃ e, IsLone (Tokens.ofText text).tokens e) ∧
      ∀ e, IsLone (Tokens.ofText text).tokens e → (Expr.parse text filename).tree = e) ∧
    (((Body.parse text filename).diagnostics = [] ↔
        ∃ items, IsBody (Tokens.ofText text).tokens items) ∧
      ∀ items, IsBody (Tokens.ofText text).tokens items → (Body.parse text filename).tree =
        ⟨items, if (Tokens.ofText text).tokens = [] then .point (.endOf text)
          else spanOf (Tokens.ofText text).tokens⟩) := by
  have hexpr := Parser.readText_derivation filename hclean
    (fun _ => Parser.loneExpression_leaves) Parser.loneExpression_complete
  have hbody := Parser.readText_derivation (p := Parser.body)
    (P := fun ts b => ∃ items, IsBody ts items ∧
      b = ⟨items, if ts = [] then .point (.endOf text) else spanOf ts⟩)
    filename hclean (fun _ => Parser.body_leaves)
    (by
      rintro ts b ⟨items, hitems, rfl⟩ last
      exact Parser.body_complete hitems last)
  refine ⟨hexpr, ⟨hbody.1.trans ⟨?_, ?_⟩, ?_⟩⟩
  · rintro ⟨b, items, hitems, -⟩
    exact ⟨items, hitems⟩
  · rintro ⟨items, hitems⟩
    exact ⟨_, items, hitems, rfl⟩
  · intro items hitems
    exact hbody.2 _ ⟨items, hitems, rfl⟩

/-- A block with an attribute over several lines: its tokens are a body, and no expression. -/
theorem parse_derivation_nested :
    let text := "b \"l\" \x7b\n  a = [-x.y[0], \x7bk: f(1), (j) = <<E\n\nE\n\n\x7d]\x7d"
    (Tokens.ofText text).diagnostics "v.hcl" = [] ∧
      (∃ items, IsBody (Tokens.ofText text).tokens items) ∧
      ¬∃ e, IsLone (Tokens.ofText text).tokens e := by
  intro text
  have hclean : (Tokens.ofText text).diagnostics "v.hcl" = [] := by decide +kernel
  have hbody : (Body.parse text "v.hcl").diagnostics = [] := by decide +kernel
  have hexpr : (Expr.parse text "v.hcl").diagnostics ≠ [] := by decide +kernel
  rcases parse_derivation text "v.hcl" hclean with ⟨⟨hlone, -⟩, hitems, -⟩
  exact ⟨hclean, hitems.1 hbody, fun h => hexpr (hlone.2 h)⟩

end Overlay.Hcl
