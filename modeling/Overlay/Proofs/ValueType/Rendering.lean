import Overlay.Proofs.Hcl.Recognition
import Overlay.Proofs.Value.Literal
import Overlay.Proofs.ValueType.Ordered

/-!
# Rendered types

The text of a type is read as this type if all names of attributes are words.

* `names` lists the names of the attributes of a type, at any depth; `kinds` lists the kinds of the
  tokens that the type is written with.
* `spells_render`: these are the tokens of its text, since a name that is a word is one token.
* `exists_expr`: they are an expression that writes the type. The names of the attributes ascend,
  so reading them puts each one behind those in front.
-/

namespace Overlay.ValueType

open Hcl (Expr Entry Token TokenKind Spells Reads IsExpr IsItems IsList IsEntries IsEntry IsKey
  lineEnds_nil)
open Value (IsWord commaKinds commaSeparated isWord_of_isIdentifier)

/-! ## Names and tokens -/

/-- The names of all attributes at any depth, in the order in which they are written. -/
def names : ValueType → List String
  | any | string | number | bool => []
  | list t | set t | map t => t.names
  | tuple ts => elementNames ts
  | object ts => attributeNames ts
where
  /-- The names in the elements. -/
  elementNames : List ValueType → List String
  | [] => []
  | t :: ts => t.names ++ elementNames ts
  /-- The names of the attributes, each with those in its type behind it. -/
  attributeNames : List (String × ValueType) → List String
  | [] => []
  | (name, t) :: ts => name :: t.names ++ attributeNames ts

/-- The tokens of a call with one argument. -/
def callKinds (name : String) (argument : List TokenKind) : List TokenKind :=
  .ident name :: .mark .openParen :: argument ++ [.mark .closeParen]

/-- The tokens that a type is written with. -/
def kinds : ValueType → List TokenKind
  | any => [.ident "any"]
  | string => [.ident "string"]
  | number => [.ident "number"]
  | bool => [.ident "bool"]
  | list t => callKinds "list" t.kinds
  | set t => callKinds "set" t.kinds
  | map t => callKinds "map" t.kinds
  | tuple ts =>
    callKinds "tuple" (.mark .openBracket :: commaKinds (elementKinds ts) ++ [.mark .closeBracket])
  | object ts =>
    callKinds "object" (.mark .openBrace :: commaKinds (attributeKinds ts) ++ [.mark .closeBrace])
where
  /-- The tokens of the elements. -/
  elementKinds : List ValueType → List (List TokenKind)
  | [] => []
  | t :: ts => t.kinds :: elementKinds ts
  /-- The tokens of the attributes, each with its name, an equals sign and its type. -/
  attributeKinds : List (String × ValueType) → List (List TokenKind)
  | [] => []
  | (name, t) :: ts => (.ident name :: .mark .equals :: t.kinds) :: attributeKinds ts

/-! ## The tokens of a text -/

section Texts

variable {text : List Char} {ks : List TokenKind}

theorem toList_intercalate (texts : List String) :
    (", ".intercalate texts).toList = commaSeparated (texts.map String.toList) := by
  match texts with
  | [] => rfl
  | [x] => rw [String.intercalate_singleton]; rfl
  | x :: y :: rest =>
    have ih := toList_intercalate (y :: rest)
    rw [String.intercalate_cons_cons, String.toList_append, String.toList_append, ih,
      List.append_assoc]
    rfl

/-- A call of a constructor. -/
theorem spells_call (name : String) (hname : IsWord name) (h : Spells text ks) :
    Spells (name.toList ++ '(' :: text ++ [')']) (callKinds name ks) := by
  have hargument := Value.spells_before_mark (c := ')') h rfl (by decide +kernel) (by decide)
  intro rest ls fs hrest hreads
  have hopen := Value.spells_mark (c := '(') rfl hargument hrest hreads
  have hword := Value.spells_word hname (Hcl.apart_cons (by decide +kernel) (by decide) _) hopen
  simpa [callKinds] using hword

end Texts

mutual

/-- The text of a type is cut into the tokens that the type is written with. -/
theorem spells_render : ∀ t : ValueType, (∀ name ∈ t.names, IsWord name) →
    Spells t.render.toList t.kinds
  | any, _ => Value.spells_word (isWord_of_isIdentifier (by decide +kernel))
  | string, _ => Value.spells_word (isWord_of_isIdentifier (by decide +kernel))
  | number, _ => Value.spells_word (isWord_of_isIdentifier (by decide +kernel))
  | bool, _ => Value.spells_word (isWord_of_isIdentifier (by decide +kernel))
  | list t, h => by
    have hcall := spells_call "list" (isWord_of_isIdentifier (by decide +kernel))
      (spells_render t h)
    rw [render, String.toList_append, String.toList_append]
    exact hcall
  | set t, h => by
    have hcall := spells_call "set" (isWord_of_isIdentifier (by decide +kernel))
      (spells_render t h)
    rw [render, String.toList_append, String.toList_append]
    exact hcall
  | map t, h => by
    have hcall := spells_call "map" (isWord_of_isIdentifier (by decide +kernel))
      (spells_render t h)
    rw [render, String.toList_append, String.toList_append]
    exact hcall
  | tuple ts, h => by
    have hcall := spells_call "tuple" (isWord_of_isIdentifier (by decide +kernel))
      (Value.spells_brackets (spells_elements ts h))
    rw [render, kinds, String.toList_append, String.toList_append, toList_intercalate]
    simpa using hcall
  | object ts, h => by
    have hcall := spells_call "object" (isWord_of_isIdentifier (by decide +kernel))
      (Value.spells_enclosed (c := '{') (d := '}') rfl rfl (by decide +kernel) (by decide)
        (spells_attributes ts h))
    rw [render, kinds, String.toList_append, String.toList_append, toList_intercalate]
    simpa using hcall

theorem spells_elements : ∀ ts : List ValueType, (∀ name ∈ names.elementNames ts, IsWord name) →
    List.Forall₂ Spells ((render.renderElements ts).map String.toList) (kinds.elementKinds ts)
  | [], _ => .nil
  | t :: ts, h => by
    rcases List.forall_mem_append.1 h with ⟨hfirst, hmore⟩
    exact .cons (spells_render t hfirst) (spells_elements ts hmore)

theorem spells_attributes : ∀ ts : List (String × ValueType),
    (∀ name ∈ names.attributeNames ts, IsWord name) →
      List.Forall₂ Spells ((render.renderAttributes ts).map String.toList) (kinds.attributeKinds ts)
  | [], _ => .nil
  | (name, t) :: ts, h => by
    rcases List.forall_mem_append.1 h with ⟨hfirst, hmore⟩
    rcases List.forall_mem_cons.1 hfirst with ⟨hname, ht⟩
    refine .cons ?_ (spells_attributes ts hmore)
    rw [String.toList_append, String.toList_append, List.append_assoc]
    exact Value.spells_assigned (Value.spells_word hname) (spells_render t ht)

end

/-! ## The type of the tokens -/

section Tokens

variable {ts : List Token}

/-- A keyword. -/
theorem exists_keyword {name : String} {t : ValueType} (hname : Hcl.NotLiteral name)
    (h : ts.map Token.kind = [.ident name]) (ht : ofKeyword? name = some t) :
    ∃ e, IsExpr ts e ∧ ofExpr e = .ok t := by
  rcases List.map_eq_singleton_iff.1 h with ⟨u, rfl, hu⟩
  refine ⟨_, .traversal (.mk hu .none) hname, ?_⟩
  rw [ofExpr]
  simp only [Hcl.Traversal.isBare, Hcl.Traversal.steps, Hcl.Traversal.root, ht]
  rfl

/-- A call with one argument. -/
theorem isExpr_call {name : String} {argument : List TokenKind} {P : Expr → Prop}
    (hname : Hcl.NotLiteral name) (h : ts.map Token.kind = callKinds name argument)
    (hargument : ∀ us : List Token, us.map Token.kind = argument → ∃ x, IsExpr us x ∧ P x) :
    ∃ x span, IsExpr ts (.call name [x] span) ∧ P x := by
  rw [callKinds] at h
  rcases Value.exists_between h with ⟨t, vs, c, rfl, ht, hvs, hc⟩
  rcases List.map_eq_cons_iff.1 hvs with ⟨o, us, rfl, ho, hus⟩
  rcases hargument us hus with ⟨x, hx, hP⟩
  have hlist : IsList us [x] := by
    simpa using IsList.mk lineEnds_nil (.last hx) lineEnds_nil
  exact ⟨x, _, .call ht hname ho hlist hc, hP⟩

/-- An attribute of an object type. -/
theorem isEntry_attribute {name : String} {value : List TokenKind} {P : Expr → Prop}
    (h : ts.map Token.kind = .ident name :: .mark .equals :: value)
    (hvalue : ∀ us : List Token, us.map Token.kind = value → ∃ x, IsExpr us x ∧ P x) :
    ∃ key x, IsEntry ts (.mk key x) ∧ attributeName? key = some name ∧ P x := by
  rcases List.map_eq_cons_iff.1 h with ⟨t, vs, rfl, ht, hvs⟩
  rcases List.map_eq_cons_iff.1 hvs with ⟨q, us, rfl, hq, hus⟩
  rcases hvalue us hus with ⟨x, hx, hP⟩
  have hkey : IsKey [t] _ := .path (.mk ht .none)
  exact ⟨_, x, .mk hkey (.inl hq) hx, rfl, hP⟩

end Tokens

/-- The constructors whose argument is the type of the elements. -/
theorem ofExpr_collection {x : Expr} {span : Span} {t : ValueType} (hx : ofExpr x = .ok t) :
    ofExpr (.call "list" [x] span) = .ok (list t) ∧ ofExpr (.call "set" [x] span) = .ok (set t) ∧
      ofExpr (.call "map" [x] span) = .ok (map t) := by
  refine ⟨?_, ?_, ?_⟩
  all_goals
    unfold ofExpr
    dsimp only
    rw [hx]
    rfl

/-- An attribute behind those in front is put at the end. -/
theorem ofEntries_cons {key : Hcl.Key} {x : Expr} {name : String} {t : ValueType}
    {types us : Dict ValueType} {rest : List Entry} (hname : attributeName? key = some name)
    (hx : ofExpr x = .ok t) (hasc : Dict.Ascending (types ++ (name, t) :: us)) :
    ofExpr.ofEntries types (.mk key x :: rest) =
      ofExpr.ofEntries (types ++ [(name, t)]) rest := by
  rcases Dict.ascending_append.1 hasc with ⟨-, -, hpairs⟩
  have hinsert : types.insert name t = types ++ [(name, t)] :=
    Dict.insert_of_forall_lt (fun k hk => hpairs k hk name List.mem_cons_self) t
  rw [ofExpr.ofEntries, hname]
  dsimp only
  rw [hx, ← hinsert]
  rfl

mutual

/-- Tokens of the kinds that a type is written with are an expression that writes the type. -/
theorem exists_expr : ∀ (t : ValueType), t.Ordered → ∀ {ts : List Token},
    ts.map Token.kind = t.kinds → ∃ e, IsExpr ts e ∧ ofExpr e = .ok t
  | any, _, _, h => exists_keyword (by decide) h rfl
  | string, _, _, h => exists_keyword (by decide) h rfl
  | number, _, _, h => exists_keyword (by decide) h rfl
  | bool, _, _, h => exists_keyword (by decide) h rfl
  | list t, ht, ts, h => by
    rcases isExpr_call (by decide) h fun us hus => exists_expr t ht hus with ⟨x, span, hcall, hx⟩
    exact ⟨_, hcall, (ofExpr_collection hx).1⟩
  | set t, ht, ts, h => by
    rcases isExpr_call (by decide) h fun us hus => exists_expr t ht hus with ⟨x, span, hcall, hx⟩
    exact ⟨_, hcall, (ofExpr_collection hx).2.1⟩
  | map t, ht, ts, h => by
    rcases isExpr_call (by decide) h fun us hus => exists_expr t ht hus with ⟨x, span, hcall, hx⟩
    exact ⟨_, hcall, (ofExpr_collection hx).2.2⟩
  | tuple us, ht, ts, h => by
    -- The argument is the list in brackets, and its items read back as the element types.
    have hargument : ∀ vs : List Token,
        vs.map Token.kind = .mark .openBracket :: commaKinds (kinds.elementKinds us) ++
          [.mark .closeBracket] →
        ∃ x, IsExpr vs x ∧ ∃ es span, x = .tuple es span ∧ ofExpr.ofItems es = .ok us := by
      intro vs hvs
      rcases Value.exists_between hvs with ⟨o, ws, c, rfl, ho, hws, hc⟩
      rcases exists_items ht hws with ⟨es, hes, hus⟩
      have hlist : IsList ws es := by
        simpa using IsList.mk lineEnds_nil hes lineEnds_nil
      exact ⟨_, .tuple ho hlist hc, es, _, rfl, hus⟩
    rcases isExpr_call (by decide) h hargument with ⟨x, span, hcall, es, inner, rfl, hus⟩
    refine ⟨_, hcall, ?_⟩
    rw [ofExpr, hus]
    rfl
  | object us, ht, ts, h => by
    have hargument : ∀ vs : List Token,
        vs.map Token.kind = .mark .openBrace :: commaKinds (kinds.attributeKinds us) ++
          [.mark .closeBrace] →
        ∃ x, IsExpr vs x ∧ ∃ es span, x = .object es span ∧ ofExpr.ofEntries [] es = .ok us := by
      intro vs hvs
      rcases Value.exists_between hvs with ⟨o, ws, c, rfl, ho, hws, hc⟩
      rcases exists_entries ht.2 hws with ⟨es, hes, hus⟩
      exact ⟨_, .object ho hes hc, es, _, rfl, hus [] ht.1⟩
    rcases isExpr_call (by decide) h hargument with ⟨x, span, hcall, es, inner, rfl, hus⟩
    refine ⟨_, hcall, ?_⟩
    rw [ofExpr, hus]
    rfl

theorem exists_items : ∀ {us : List ValueType}, Ordered.elementsOrdered us →
    ∀ {ts : List Token}, ts.map Token.kind = commaKinds (kinds.elementKinds us) →
      ∃ es, IsItems ts es ∧ ofExpr.ofItems es = .ok us
  | [], _, ts, h => by
    rw [List.map_eq_nil_iff.1 h]
    exact ⟨[], .none, rfl⟩
  | [u], hu, ts, h => by
    rcases exists_expr u hu.1 h with ⟨e, he, ht⟩
    refine ⟨[e], .last he, ?_⟩
    rw [ofExpr.ofItems, ht]
    rfl
  | u :: v :: us, hu, ts, h => by
    rcases List.map_eq_append_iff.1 h with ⟨xs, ys, rfl, hxs, hys⟩
    rcases List.map_eq_cons_iff.1 hys with ⟨c, zs, rfl, hc, hzs⟩
    rcases exists_expr u hu.1 hxs with ⟨e, he, ht⟩
    rcases exists_items hu.2 hzs with ⟨es, hes, hts⟩
    refine ⟨e :: es, ?_, ?_⟩
    · simpa using IsItems.cons he lineEnds_nil hc lineEnds_nil hes
    · rw [ofExpr.ofItems, ht, hts]
      rfl

theorem exists_entries : ∀ {us : List (String × ValueType)}, Ordered.attributesOrdered us →
    ∀ {ts : List Token}, ts.map Token.kind = commaKinds (kinds.attributeKinds us) →
      ∃ es, IsEntries ts es ∧ ∀ types : Dict ValueType, Dict.Ascending (types ++ us) →
        ofExpr.ofEntries types es = .ok (types ++ us)
  | [], _, ts, h => by
    rw [List.map_eq_nil_iff.1 h]
    refine ⟨[], .none lineEnds_nil, ?_⟩
    intro types _
    rw [ofExpr.ofEntries, List.append_nil]
  | [(name, u)], hu, ts, h => by
    rcases isEntry_attribute h fun vs hvs => exists_expr u hu.1 hvs with ⟨key, x, hentry, hname, hx⟩
    refine ⟨[.mk key x], by simpa using IsEntries.last lineEnds_nil hentry, ?_⟩
    intro types hasc
    rw [ofEntries_cons hname hx hasc, ofExpr.ofEntries]
  | (name, u) :: v :: us, hu, ts, h => by
    rcases List.map_eq_append_iff.1 h with ⟨xs, ys, rfl, hxs, hys⟩
    rcases List.map_eq_cons_iff.1 hys with ⟨c, zs, rfl, hc, hzs⟩
    rcases isEntry_attribute hxs fun vs hvs => exists_expr u hu.1 hvs with
      ⟨key, x, hentry, hname, hx⟩
    rcases exists_entries hu.2 hzs with ⟨es, hes, hts⟩
    refine ⟨.mk key x :: es, ?_, ?_⟩
    · simpa using IsEntries.cons lineEnds_nil hentry (.inl hc) hes
    · intro types hasc
      -- The names ascend, so each attribute is appended to those read before it.
      have hmore : Dict.Ascending ((types ++ [(name, u)]) ++ v :: us) := by simpa using hasc
      rw [ofEntries_cons hname hx hasc, hts _ hmore, List.append_assoc, List.singleton_append]

end

/-- The text of a type is read as the type if the names of all attributes are words. -/
theorem parse_render_of_words {t : ValueType} (ht : t.Ordered) (h : ∀ name ∈ t.names, IsWord name)
    (filename : String) : parse t.render filename = .ok t := by
  have hreads : Reads t.render.toList t.kinds := by
    have hspells := spells_render t h (fun _ _ heq => absurd heq (List.cons_ne_nil _ _).symm)
      Reads.nil
    rwa [List.append_nil, List.append_nil] at hspells
  rcases hreads.ofText with ⟨hfaults, hkinds⟩
  rcases exists_expr t ht hkinds with ⟨e, he, htype⟩
  unfold parse
  rw [Expr.parse_of_derivation hfaults he filename]
  simp only [htype]
  rfl

end Overlay.ValueType
