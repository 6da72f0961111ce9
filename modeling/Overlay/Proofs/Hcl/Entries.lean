import Overlay.Proofs.Hcl.Completeness
import Overlay.Proofs.Hcl.Container
import Overlay.Proofs.Hcl.Soundness

/-!
# The entries of a container

A wrapped text that is read without diagnostics is a container, and its entries are a derivation of
the tokens of its content, one line down, with one line end behind them
(`Wrapped.parse_derivation_entries`). What the tokens of a content derive is read without diagnostics
(`Wrapped.parse_of_derivation`).
-/

namespace Overlay.Hcl

section

variable {α : Type} {P : List Token → α → Prop} {ts : List Token} {items : List α}

/-- Lines are made of the tokens of their items and of line ends. -/
theorem IsLines.exists_infix (h : IsLines P ts items) : ∀ a ∈ items, ∃ us, us <:+: ts ∧ P us a := by
  induction h with
  | none => exact fun _ ha => absurd ha List.not_mem_nil
  | @last as ts a has ha =>
    intro b hb
    rw [List.mem_singleton.1 hb]
    exact ⟨ts, ⟨as, [], by simp⟩, ha⟩
  | @cons as ts us t a more has ha ht hmore ih =>
    intro b hb
    rcases List.mem_cons.1 hb with rfl | hb
    · exact ⟨ts, ⟨as, t :: us, by simp⟩, ha⟩
    · rcases ih b hb with ⟨vs, ⟨front, back, rfl⟩, hvs⟩
      exact ⟨vs, ⟨as ++ ts ++ t :: front, back, by simp⟩, hvs⟩

/-- What holds between the tokens of a text in order gives what holds between the items of its
lines. -/
theorem IsLines.pairwise {R : Token → Token → Prop} {Q : α → α → Prop}
    (hQ : ∀ us a vs b, P us a → P vs b → (∀ t ∈ us, ∀ u ∈ vs, R t u) → Q a b)
    (h : IsLines P ts items) (hts : ts.Pairwise R) : items.Pairwise Q := by
  induction h with
  | none => exact .nil
  | last => exact List.pairwise_singleton _ _
  | @cons as ts us t a more has ha ht hmore ih =>
    rcases List.pairwise_append.1 hts with ⟨-, hback, hbetween⟩
    refine .cons ?_ (ih (List.pairwise_cons.1 hback).2)
    intro b hb
    rcases hmore.exists_infix b hb with ⟨vs, hvs, hb⟩
    refine hQ ts a vs b ha hb fun t ht u hu => ?_
    exact hbetween t (List.mem_append_right _ ht) u (List.mem_cons_of_mem _ (hvs.subset hu))

/-- The last line needs no end. -/
theorem IsLines.of_concat (hP : Opens P)
    (hlast : ∀ ts a, P ts a → ∃ front t, ts = front ++ [t] ∧ t.kind ≠ .mark .newline) {t : Token}
    (h : IsLines P (ts ++ [t]) items) (ht : t.kind = .mark .newline) : IsLines P ts items := by
  generalize hall : ts ++ [t] = all at h
  induction h generalizing ts with
  | none has =>
    subst hall
    exact .none fun u hu => has u (List.mem_append_left _ hu)
  | @last as us a has ha =>
    -- The line end would be the last token of the item.
    rcases hlast us a ha with ⟨front, u, rfl, hu⟩
    rw [← List.append_assoc] at hall
    rw [← (List.append_singleton_inj.1 hall).2] at hu
    exact absurd ht hu
  | @cons as us vs u a more has ha hu hmore ih =>
    rcases List.eq_nil_or_concat' vs with rfl | ⟨vs, v, rfl⟩
    · have hts := (List.append_singleton_inj.1 hall).1
      rw [hts, hmore.eq_nil hP]
      exact .last has ha
    · have hparts : ts ++ [t] = (as ++ us ++ u :: vs) ++ [v] := by simpa using hall
      rcases List.append_singleton_inj.1 hparts with ⟨rfl, rfl⟩
      exact .cons has ha hu (ih rfl)

end

namespace Wrapped

/-- The tokens of the content in its container, and the line end behind them. -/
def entryTokens (w : Wrapped) : List Token :=
  (Tokens.ofText w.content).tokens.map (Token.mapSpan shiftSpan) ++
    (backTokens (shift (.endOf w.content))).take 1

/-- A container that is read without diagnostics. -/
theorem parse_derivation_entries {w : Wrapped} {filename : String}
    (hclean : (Container.parse w.text filename).diagnostics = []) :
    (Tokens.ofText w.content).faults = [] ∧
      (∀ t ∈ w.entryTokens, t ∈ (Tokens.ofText w.text).tokens) ∧
      ∃ c, (Container.parse w.text filename).tree = some c ∧ IsAssignments w.entryTokens c.entries := by
  rw [Container.parse_diagnostics, List.append_eq_nil_iff, List.map_eq_nil_iff,
    List.map_eq_nil_iff] at hclean
  rcases hclean with ⟨hlexical, hsyntax⟩
  have hapart := apart_of_clean (w := w) (.inr hlexical)
  have htext := ofText_apart w hapart
  have hfaults : (Tokens.ofText w.content).faults = [] := by
    rw [htext] at hlexical
    exact List.map_eq_nil_iff.1 hlexical
  have hmem : ∀ t ∈ w.entryTokens, t ∈ (Tokens.ofText w.text).tokens := by
    intro t ht
    rw [htext]
    rcases List.mem_append.1 ht with ht | ht
    · exact List.mem_append_right _ (List.mem_append_left _ ht)
    · exact List.mem_append_right _ (List.mem_append_right _ (List.mem_of_mem_take ht))
  rcases container_read hapart with ⟨c, hcontainer, hentries⟩
  have htree : (Container.parse w.text filename).tree = some c := by
    simp only [Container.parse, hcontainer]
  refine ⟨hfaults, hmem, c, htree, ?_⟩
  rw [hcontainer] at hsyntax
  -- Without a report nothing is skipped, so the assignments are made of all tokens.
  rcases Parser.assignments_leaves _ _ hsyntax with ⟨ts, hrest, -, hnil, hts⟩
  rw [hnil, List.append_nil] at hrest
  have htokens : w.entryTokens = ts := hrest
  rw [hentries, htokens]
  exact hts

/-- The entries of a container that is read without diagnostics, without the line end behind them. -/
theorem isAssignments_of_entryTokens {w : Wrapped} {es : List Entry}
    (h : IsAssignments w.entryTokens es) :
    IsAssignments ((Tokens.ofText w.content).tokens.map (Token.mapSpan shiftSpan)) es :=
  IsLines.of_concat opens_isAssignment (fun _ _ h => h.exists_concat) h rfl

/-- A content without lexical faults whose tokens derive entries is the content of a container with
these entries, and nothing is reported. -/
theorem parse_of_derivation {w : Wrapped} {es : List Entry} (filename : String)
    (hclean : (Tokens.ofText w.content).faults = [])
    (hes : IsAssignments ((Tokens.ofText w.content).tokens.map (Token.mapSpan shiftSpan)) es) :
    (Container.parse w.text filename).diagnostics = [] ∧
      ∃ c, (Container.parse w.text filename).tree = some c ∧ c.entries = es := by
  have hapart := apart_of_clean (w := w) (.inl hclean)
  have hlexical : (Tokens.ofText w.text).faults = [] := by
    rw [ofText_apart w hapart, hclean]
    rfl
  rcases container_read hapart with ⟨c, hcontainer, hentries⟩
  have hlineEnd : LineEnds ((backTokens (shift (.endOf w.content))).take 1) :=
    List.forall_mem_singleton.2 rfl
  have hread := Parser.assignments_complete (F := w.containerFrame)
    ((Tokens.ofText w.content).tokens.length + 3) (hes.append_lineEnds hlineEnd)
    (by simp [backTokens]) (shift .start)
  rw [hread] at hcontainer hentries
  refine ⟨?_, c, ?_, hentries⟩
  · rw [Container.parse_diagnostics, hlexical, hcontainer]
    rfl
  · simp only [Container.parse, hcontainer]

end Wrapped

end Overlay.Hcl
