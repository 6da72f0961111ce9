import Overlay.Hcl.Body
import Overlay.Hcl.Container

/-!
# The grammar

Which token lists are expressions, bodies and containers, and which tree each derivation makes.

* One predicate stands for each nonterminal, and one constructor for each alternative. A predicate
  relates the tokens to the tree, so a proof of it is a derivation.
* `spanOf` is the span of a list of tokens. Every node of a tree has the span of its own tokens.
* Line ends count: between entries of an object and behind items they separate, between brackets
  and parentheses and around commas they may stand anywhere.
-/

namespace Overlay.Hcl

/-! ## Spans of token lists -/

/-- Where tokens end that stand behind `last`. -/
def stopAfter (last : Pos) : List Token → Pos
  | [] => last
  | t :: ts => stopAfter t.span.stop ts

@[simp] theorem stopAfter_nil (last : Pos) : stopAfter last [] = last := rfl

@[simp] theorem stopAfter_cons (last : Pos) (t : Token) (ts : List Token) :
    stopAfter last (t :: ts) = stopAfter t.span.stop ts := rfl

@[simp] theorem stopAfter_append (last : Pos) (ts us : List Token) :
    stopAfter last (ts ++ us) = stopAfter (stopAfter last ts) us := by
  induction ts generalizing last with
  | nil => rfl
  | cons t ts ih => exact ih t.span.stop

/-- From the start of the first token to the end of the last one. -/
def spanOf : List Token → Span
  | [] => default
  | t :: ts => ⟨t.span.start, stopAfter t.span.stop ts⟩

@[simp] theorem spanOf_cons (t : Token) (ts : List Token) :
    spanOf (t :: ts) = ⟨t.span.start, stopAfter t.span.stop ts⟩ := rfl

/-! ## Words of the grammar -/

/-- Whether there is nothing but line ends. -/
def LineEnds (ts : List Token) : Prop := ∀ t ∈ ts, t.kind = .mark .newline

theorem lineEnds_nil : LineEnds [] := by
  intro t ht
  cases ht

/-- Whether a name is none of the literals. -/
def NotLiteral (name : String) : Prop := name ≠ "true" ∧ name ≠ "false" ∧ name ≠ "null"

instance : DecidablePred NotLiteral := fun _ => inferInstanceAs (Decidable (_ ∧ _ ∧ _))

/-- Whether an expression that starts with the token can be the key of an entry. -/
def startsKeyExpr : TokenKind → Bool
  | .str _ | .heredoc _ | .number _ | .mark .minus | .mark .openParen => true
  | _ => false

theorem startsKey_iff {k : TokenKind} :
    Parser.startsKey k = true ↔ (∃ name, k = .ident name) ∨ startsKeyExpr k = true := by
  cases k with
  | mark m => cases m <;> simp [Parser.startsKey, startsKeyExpr]
  | _ => simp [Parser.startsKey, startsKeyExpr]

/-! ## Expressions -/

mutual

/-- Literals, operations, calls, traversals, tuples, objects, and expressions in parentheses. -/
inductive IsExpr : List Token → Expr → Prop
  | number {t : Token} {text : String} (ht : t.kind = .number text) :
      IsExpr [t] (.number text t.span)
  | string {t : Token} {text : String} (ht : t.kind = .str text) :
      IsExpr [t] (.string text t.span)
  | heredoc {t : Token} {text : String} (ht : t.kind = .heredoc text) :
      IsExpr [t] (.string text t.span)
  | trueLit {t : Token} (ht : t.kind = .ident "true") : IsExpr [t] (.bool true t.span)
  | falseLit {t : Token} (ht : t.kind = .ident "false") : IsExpr [t] (.bool false t.span)
  | nullLit {t : Token} (ht : t.kind = .ident "null") : IsExpr [t] (.null t.span)
  | negate {t : Token} {ts : List Token} {e : Expr} (ht : t.kind = .mark .minus)
      (he : IsExpr ts e) : IsExpr (t :: ts) (.negate e (spanOf (t :: ts)))
  | call {t o c : Token} {ts : List Token} {name : String} {es : List Expr}
      (ht : t.kind = .ident name) (hname : NotLiteral name) (ho : o.kind = .mark .openParen)
      (hes : IsList ts es) (hc : c.kind = .mark .closeParen) :
      IsExpr (t :: o :: ts ++ [c]) (.call name es (spanOf (t :: o :: ts ++ [c])))
  | traversal {ts : List Token} {path : Traversal} (hpath : IsPath ts path)
      (hroot : NotLiteral path.root) : IsExpr ts (.traversal path)
  | tuple {o c : Token} {ts : List Token} {es : List Expr} (ho : o.kind = .mark .openBracket)
      (hes : IsList ts es) (hc : c.kind = .mark .closeBracket) :
      IsExpr (o :: ts ++ [c]) (.tuple es (spanOf (o :: ts ++ [c])))
  | object {o c : Token} {ts : List Token} {es : List Entry} (ho : o.kind = .mark .openBrace)
      (hes : IsEntries ts es) (hc : c.kind = .mark .closeBrace) :
      IsExpr (o :: ts ++ [c]) (.object es (spanOf (o :: ts ++ [c])))
  | parens {o c : Token} {as ts bs : List Token} {e : Expr} (ho : o.kind = .mark .openParen)
      (has : LineEnds as) (he : IsExpr ts e) (hbs : LineEnds bs)
      (hc : c.kind = .mark .closeParen) :
      IsExpr (o :: as ++ ts ++ bs ++ [c]) (.parens e (spanOf (o :: as ++ ts ++ bs ++ [c])))

/-- What stands between brackets or parentheses: items, with line ends around them. -/
inductive IsList : List Token → List Expr → Prop
  | mk {as ts bs : List Token} {es : List Expr} (has : LineEnds as) (hes : IsItems ts es)
      (hbs : LineEnds bs) : IsList (as ++ ts ++ bs) es

/-- Expressions with a comma between two of them, and maybe one behind the last. Line ends around a
comma count for nothing. -/
inductive IsItems : List Token → List Expr → Prop
  | none : IsItems [] []
  | last {ts : List Token} {e : Expr} (he : IsExpr ts e) : IsItems ts [e]
  | cons {ts as bs us : List Token} {t : Token} {e : Expr} {es : List Expr} (he : IsExpr ts e)
      (has : LineEnds as) (ht : t.kind = .mark .comma) (hbs : LineEnds bs) (hes : IsItems us es) :
      IsItems (ts ++ as ++ t :: bs ++ us) (e :: es)

/-- What stands between the braces of an object: entries, each but the last one ended by a comma or
a line end, with line ends in front of each. Behind the last entry there are line ends only if it is
ended, too. -/
inductive IsEntries : List Token → List Entry → Prop
  | none {as : List Token} (has : LineEnds as) : IsEntries as []
  | last {as ts : List Token} {e : Entry} (has : LineEnds as) (he : IsEntry ts e) :
      IsEntries (as ++ ts) [e]
  | cons {as ts us : List Token} {t : Token} {e : Entry} {es : List Entry} (has : LineEnds as)
      (he : IsEntry ts e) (ht : t.kind = .mark .comma ∨ t.kind = .mark .newline)
      (hes : IsEntries us es) : IsEntries (as ++ ts ++ t :: us) (e :: es)

/-- A key and a value, with an equals sign or a colon between them. -/
inductive IsEntry : List Token → Entry → Prop
  | mk {ks vs : List Token} {t : Token} {key : Key} {value : Expr} (hkey : IsKey ks key)
      (ht : t.kind = .mark .equals ∨ t.kind = .mark .colon) (hvalue : IsExpr vs value) :
      IsEntry (ks ++ t :: vs) (.mk key value)

/-- A name with steps, which may be the name of a literal here, or an expression that starts with
neither a name nor an opening bracket or brace. -/
inductive IsKey : List Token → Key → Prop
  | path {ts : List Token} {path : Traversal} (hpath : IsPath ts path) : IsKey ts (.path path)
  | expr {t : Token} {ts : List Token} {e : Expr} (ht : startsKeyExpr t.kind = true)
      (he : IsExpr (t :: ts) e) : IsKey (t :: ts) (.expr e)

/-- A name and the steps behind it. -/
inductive IsPath : List Token → Traversal → Prop
  | mk {t : Token} {ts : List Token} {name : String} {steps : List Step}
      (ht : t.kind = .ident name) (hsteps : IsSteps ts steps) :
      IsPath (t :: ts) (.mk name t.span steps (spanOf (t :: ts)))

/-- Any number of steps. -/
inductive IsSteps : List Token → List Step → Prop
  | none : IsSteps [] []
  | cons {ts us : List Token} {step : Step} {steps : List Step} (hstep : IsStep ts step)
      (hsteps : IsSteps us steps) : IsSteps (ts ++ us) (step :: steps)

/-- A name or a number behind a dot, or a key in brackets. -/
inductive IsStep : List Token → Step → Prop
  | attr {d t : Token} {name : String} (hd : d.kind = .mark .dot) (ht : t.kind = .ident name) :
      IsStep [d, t] (.attr name (spanOf [d, t]))
  | number {d t : Token} {text : String} (hd : d.kind = .mark .dot) (ht : t.kind = .number text) :
      IsStep [d, t] (.index (.number text t.span) (spanOf [d, t]))
  | index {o c : Token} {as ts bs : List Token} {e : Expr} (ho : o.kind = .mark .openBracket)
      (has : LineEnds as) (he : IsExpr ts e) (hbs : LineEnds bs)
      (hc : c.kind = .mark .closeBracket) :
      IsStep (o :: as ++ ts ++ bs ++ [c]) (.index e (spanOf (o :: as ++ ts ++ bs ++ [c])))

end

/-- An expression has a first token, which neither closes a group nor ends a line. -/
theorem IsExpr.exists_cons {ts : List Token} {e : Expr} (h : IsExpr ts e) :
    ∃ t us, ts = t :: us ∧ t.kind.isCloser = false ∧ t.kind.isNewline = false := by
  have hfirst : ∀ (t : Token) us k, t.kind = k → k.isCloser = false → k.isNewline = false →
      ∃ u vs, t :: us = u :: vs ∧ u.kind.isCloser = false ∧ u.kind.isNewline = false := by
    intro t us k ht hcloser hnewline
    exact ⟨t, us, rfl, ht ▸ hcloser, ht ▸ hnewline⟩
  cases h with
  | traversal hpath =>
    cases hpath with
    | mk ht => exact hfirst _ _ _ ht rfl rfl
  | number ht => exact hfirst _ _ _ ht rfl rfl
  | string ht => exact hfirst _ _ _ ht rfl rfl
  | heredoc ht => exact hfirst _ _ _ ht rfl rfl
  | trueLit ht => exact hfirst _ _ _ ht rfl rfl
  | falseLit ht => exact hfirst _ _ _ ht rfl rfl
  | nullLit ht => exact hfirst _ _ _ ht rfl rfl
  | negate ht => exact hfirst _ _ _ ht rfl rfl
  | call ht => exact hfirst _ _ _ ht rfl rfl
  | tuple ho => exact hfirst _ _ _ ho rfl rfl
  | object ho => exact hfirst _ _ _ ho rfl rfl
  | parens ho => exact hfirst _ _ _ ho rfl rfl

/-- A step has a last token, which ends no line. -/
theorem IsStep.exists_concat {ts : List Token} {step : Step} (h : IsStep ts step) :
    ∃ front t, ts = front ++ [t] ∧ t.kind ≠ .mark .newline := by
  cases h with
  | @attr d t name _ ht => exact ⟨[d], t, rfl, by simp [ht]⟩
  | @number d t text _ ht => exact ⟨[d], t, rfl, by simp [ht]⟩
  | index _ _ _ _ hc => exact ⟨_, _, rfl, by simp [hc]⟩

/-- Steps behind a token that ends no line have a last token that ends none. -/
theorem IsSteps.exists_concat {t : Token} {ts : List Token} {steps : List Step}
    (h : IsSteps ts steps) (ht : t.kind ≠ .mark .newline) :
    ∃ front u, t :: ts = front ++ [u] ∧ u.kind ≠ .mark .newline := by
  match h with
  | .none => exact ⟨[], t, rfl, ht⟩
  | .cons hstep hsteps =>
    rcases hstep.exists_concat with ⟨front, u, rfl, hu⟩
    rcases hsteps.exists_concat hu with ⟨more, v, hmore, hv⟩
    exact ⟨t :: front ++ more, v, by simp [hmore], hv⟩

/-- An expression has a last token, which ends no line. -/
theorem IsExpr.exists_concat {ts : List Token} {e : Expr} (h : IsExpr ts e) :
    ∃ front t, ts = front ++ [t] ∧ t.kind ≠ .mark .newline := by
  match h with
  | .number ht => exact ⟨[], _, rfl, by simp [ht]⟩
  | .string ht => exact ⟨[], _, rfl, by simp [ht]⟩
  | .heredoc ht => exact ⟨[], _, rfl, by simp [ht]⟩
  | .trueLit ht => exact ⟨[], _, rfl, by simp [ht]⟩
  | .falseLit ht => exact ⟨[], _, rfl, by simp [ht]⟩
  | .nullLit ht => exact ⟨[], _, rfl, by simp [ht]⟩
  | .negate _ he =>
    rcases he.exists_concat with ⟨front, t, rfl, ht⟩
    exact ⟨_ :: front, t, rfl, ht⟩
  | .call _ _ _ _ hc => exact ⟨_, _, rfl, by simp [hc]⟩
  | .traversal (.mk ht hsteps) _ => exact hsteps.exists_concat (by simp [ht])
  | .tuple _ _ hc => exact ⟨_, _, rfl, by simp [hc]⟩
  | .object _ _ hc => exact ⟨_, _, rfl, by simp [hc]⟩
  | .parens _ _ _ _ hc => exact ⟨_, _, rfl, by simp [hc]⟩

/-- A whole text that is one expression. -/
inductive IsLone : List Token → Expr → Prop
  | mk {as ts bs : List Token} {e : Expr} (has : LineEnds as) (he : IsExpr ts e)
      (hbs : LineEnds bs) : IsLone (as ++ ts ++ bs) e

/-! ## Lines -/

/-- Items with line ends in front of each. One line end ends an item; the last one needs none, where
the closing brace of a block or the end of the text comes next. -/
inductive IsLines {α : Type} (P : List Token → α → Prop) : List Token → List α → Prop
  | none {as : List Token} (has : LineEnds as) : IsLines P as []
  | last {as ts : List Token} {a : α} (has : LineEnds as) (ha : P ts a) : IsLines P (as ++ ts) [a]
  | cons {as ts us : List Token} {t : Token} {a : α} {more : List α} (has : LineEnds as)
      (ha : P ts a) (ht : t.kind = .mark .newline) (hmore : IsLines P us more) :
      IsLines P (as ++ ts ++ t :: us) (a :: more)

section

variable {α : Type} {P : List Token → α → Prop} {ts as bs : List Token}

theorem LineEnds.append (has : LineEnds as) (hbs : LineEnds bs) : LineEnds (as ++ bs) := by
  intro t ht
  rcases List.mem_append.1 ht with ht | ht
  · exact has t ht
  · exact hbs t ht

/-- Lines may go on with line ends. -/
theorem IsLines.append_lineEnds {items : List α} (h : IsLines P ts items) (hbs : LineEnds bs) :
    IsLines P (ts ++ bs) items := by
  induction h with
  | none has => exact .none (has.append hbs)
  | last has ha =>
    rcases bs with - | ⟨t, bs⟩
    · rw [List.append_nil]
      exact .last has ha
    · have hkinds := List.forall_mem_cons.1 hbs
      exact .cons has ha hkinds.1 (.none hkinds.2)
  | cons has ha ht hmore ih =>
    rw [List.append_assoc, List.cons_append]
    exact .cons has ha ht ih

/-- Whether an item has a first token, which neither ends a line nor closes a block. -/
def Opens (P : List Token → α → Prop) : Prop :=
  ∀ ts a, P ts a → ∃ t us, ts = t :: us ∧ t.kind ≠ .mark .newline ∧ t.kind ≠ .mark .closeBrace

theorem IsLines.eq_nil (hP : Opens P) {items : List α} (h : IsLines P [] items) : items = [] := by
  generalize hts : ([] : List Token) = ts at h
  cases h with
  | none => rfl
  | last _ ha =>
    rcases hP _ _ ha with ⟨t, us, rfl, -⟩
    simp at hts
  | cons => simp at hts

/-- Lines do not start with a closing brace. -/
theorem IsLines.head_ne (hP : Opens P) {items : List α} {t : Token} (h : IsLines P (t :: ts) items) :
    t.kind ≠ .mark .closeBrace := by
  -- The first token is a line end in front of the first item, or that item's first token.
  have hfirst : ∀ as us a rest, LineEnds as → P us a → t :: ts = as ++ us ++ rest →
      t.kind ≠ .mark .closeBrace := by
    intro as us a rest has ha heq
    rcases hP _ _ ha with ⟨u, vs, rfl, -, hu⟩
    rcases as with - | ⟨v, as⟩
    · rw [(List.cons.inj heq).1]
      exact hu
    · have hkind := has v List.mem_cons_self
      rw [(List.cons.inj heq).1, hkind]
      decide
  generalize hts : t :: ts = us at h
  cases h with
  | none has =>
    subst hts
    rw [has t List.mem_cons_self]
    decide
  | last has ha => exact hfirst _ _ _ [] has ha (by rw [hts, List.append_nil])
  | cons has ha _ _ => exact hfirst _ _ _ _ has ha hts

end

/-! ## Bodies -/

/-- The labels of a block: quoted strings and names. -/
inductive IsLabels : List Token → List Label → Prop
  | none : IsLabels [] []
  | cons {t : Token} {ts : List Token} {text : String} {labels : List Label}
      (ht : t.kind = .str text ∨ t.kind = .ident text) (hlabels : IsLabels ts labels) :
      IsLabels (t :: ts) (⟨text, t.span⟩ :: labels)

/-- An attribute, or a block with a body of its own. -/
inductive IsItem : List Token → Item → Prop
  | attr {t q : Token} {ts : List Token} {name : String} {e : Expr} (ht : t.kind = .ident name)
      (hq : q.kind = .mark .equals) (he : IsExpr ts e) :
      IsItem (t :: q :: ts) (.attr ⟨name, t.span, e⟩)
  | block {t o c : Token} {ls ts : List Token} {name : String} {labels : List Label}
      {items : List Item} (ht : t.kind = .ident name) (hlabels : IsLabels ls labels)
      (ho : o.kind = .mark .openBrace) (hitems : IsLines IsItem ts items)
      (hc : c.kind = .mark .closeBrace) :
      IsItem (t :: ls ++ o :: ts ++ [c])
        (.block ⟨name, t.span, labels⟩ items (spanOf (o :: ts ++ [c]))
          (spanOf (t :: ls ++ o :: ts ++ [c])))

theorem opens_isItem : Opens IsItem := by
  intro ts item h
  cases h with
  | attr ht => exact ⟨_, _, rfl, by simp [ht], by simp [ht]⟩
  | block ht => exact ⟨_, _, rfl, by simp [ht], by simp [ht]⟩

/-- An item has a last token, which ends no line. -/
theorem IsItem.exists_concat {ts : List Token} {item : Item} (h : IsItem ts item) :
    ∃ front t, ts = front ++ [t] ∧ t.kind ≠ .mark .newline := by
  cases h with
  | attr _ _ he =>
    rcases he.exists_concat with ⟨front, t, rfl, ht⟩
    exact ⟨_ :: _ :: front, t, rfl, ht⟩
  | block _ _ _ _ hc => exact ⟨_, _, rfl, by simp [hc]⟩

/-- The items of a body, each on lines of its own. -/
abbrev IsBody : List Token → List Item → Prop := IsLines IsItem

/-! ## Containers -/

/-- A key and a value with an equals sign between them. -/
inductive IsAssignment : List Token → Entry → Prop
  | mk {ks vs : List Token} {t : Token} {key : Key} {value : Expr} (hkey : IsKey ks key)
      (ht : t.kind = .mark .equals) (hvalue : IsExpr vs value) :
      IsAssignment (ks ++ t :: vs) (.mk key value)

/-- A key has a first token, and it says that a key starts. -/
theorem IsKey.exists_cons {ts : List Token} {key : Key} (h : IsKey ts key) :
    ∃ t us, ts = t :: us ∧ Parser.startsKey t.kind = true := by
  cases h with
  | path hpath =>
    cases hpath with
    | mk ht => exact ⟨_, _, rfl, by rw [ht]; rfl⟩
  | @expr t ts e ht => exact ⟨t, ts, rfl, startsKey_iff.2 (.inr ht)⟩

theorem opens_isAssignment : Opens IsAssignment := by
  intro ts e h
  cases h with
  | mk hkey =>
    rcases hkey.exists_cons with ⟨t, us, rfl, ht⟩
    refine ⟨t, _, rfl, ?_, ?_⟩
    · intro hkind
      rw [hkind] at ht
      cases ht
    · intro hkind
      rw [hkind] at ht
      cases ht

/-- An assignment has a last token, which ends no line. -/
theorem IsAssignment.exists_concat {ts : List Token} {e : Entry} (h : IsAssignment ts e) :
    ∃ front t, ts = front ++ [t] ∧ t.kind ≠ .mark .newline := by
  cases h with
  | @mk ks vs q key value _ _ hvalue =>
    rcases hvalue.exists_concat with ⟨front, t, rfl, ht⟩
    exact ⟨ks ++ q :: front, t, by simp, ht⟩

/-- The entries of a container, each on lines of its own. -/
abbrev IsAssignments : List Token → List Entry → Prop := IsLines IsAssignment

end Overlay.Hcl
