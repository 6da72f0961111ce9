import Mathlib.Algebra.Order.BigOperators.Group.List
import Overlay.Proofs.Hcl.Container
import Overlay.Proofs.Hcl.Weight
import Overlay.Proofs.Source.Addresses
import Overlay.Proofs.ValueType.Rendering

/-!
# Names of attributes

A rendered type is read as the type itself exactly if the names of all attributes are words.

* The name of an attribute is written without quotes. `nameCost` is what it takes to write it: what
  it weighs, and one character more if it is no word, since only strings hold such names.
* The names of a type that is read from a text cost no more than the strings in it
  (`namesCost_le`, `exprCost_le`), which cost no more than the text weighs.
* A rendered type weighs as much as its names (`weight_render`). So if it is read as itself, none of
  its names costs more than it weighs, and all of them are words.
-/

namespace Overlay

open Hcl (Expr Entry Key Token TokenKind IsExpr IsList IsItems IsEntries IsEntry IsKey IsLone
  HasWords weight cost)
open Value (IsWord commaSeparated)

/-! ## What a name costs -/

theorem weight_of_isWord {name : String} (h : IsWord name) : weight name.toList = 0 := by
  have hall : ∀ c, Hcl.weighs c = true →
      Hcl.Lexeme.startsWord c = false ∧ Hcl.Lexeme.continuesWord c = false := by
    intro c hc
    simp only [Hcl.weighs, Bool.or_eq_true, beq_iff_eq] at hc
    rcases hc with (rfl | rfl) | rfl <;> decide +kernel
  rcases h with ⟨c, cs, htext, hc, hcs⟩
  rw [htext]
  refine List.countP_eq_zero.2 (List.forall_mem_cons.2 ⟨?_, ?_⟩)
  · intro hweighs
    rw [(hall c hweighs).1] at hc
    cases hc
  · intro d hd hweighs
    have hword := hcs d hd
    rw [(hall d hweighs).2] at hword
    cases hword

namespace ValueType

/-- What it takes to write a name: what it weighs, and one more if it is no word. -/
def nameCost (name : String) : Nat := weight name.toList + if IsWord name then 0 else 1

/-- What it takes to write all names. -/
def namesCost (names : List String) : Nat := (names.map nameCost).sum

@[simp] theorem namesCost_nil : namesCost [] = 0 := rfl

@[simp] theorem namesCost_cons (name : String) (names : List String) :
    namesCost (name :: names) = nameCost name + namesCost names := rfl

@[simp] theorem namesCost_append (xs ys : List String) :
    namesCost (xs ++ ys) = namesCost xs + namesCost ys := by
  rw [namesCost, List.map_append, List.sum_append]
  rfl

theorem nameCost_of_isWord {name : String} (h : IsWord name) : nameCost name = 0 := by
  rw [nameCost, weight_of_isWord h, if_pos h]

theorem nameCost_le (name : String) : nameCost name ≤ weight name.toList + 1 := by
  unfold nameCost
  split <;> omega

/-- What names weigh. -/
def namesWeight (names : List String) : Nat := (names.map fun name => weight name.toList).sum

theorem namesWeight_le (names : List String) : namesWeight names ≤ namesCost names :=
  List.sum_le_sum fun name _ => Nat.le_add_right (weight name.toList) _

/-- Names that cost no more than they weigh are words. -/
theorem isWord_of_namesCost_le {names : List String} (h : namesCost names ≤ namesWeight names) :
    ∀ name ∈ names, IsWord name := by
  induction names with
  | nil => exact fun _ h => absurd h List.not_mem_nil
  | cons name names ih =>
    have hmore := namesWeight_le names
    have hsplit : namesWeight (name :: names) = weight name.toList + namesWeight names := rfl
    rw [namesCost_cons, hsplit, nameCost] at h
    by_cases hword : IsWord name
    · rw [if_pos hword] at h
      exact List.forall_mem_cons.2 ⟨hword, ih (by omega)⟩
    · -- A name that is no word costs more than it weighs, and no other name costs less.
      rw [if_neg hword] at h
      omega

/-! ## Names in expressions -/

/-- What the name that a key writes costs. -/
def keyCost (key : Key) : Nat := ((attributeName? key).map nameCost).getD 0

/-- What the names of all keys cost that stand where an attribute of a type can stand. -/
def exprCost : Expr → Nat
  | .parens inner _ => exprCost inner
  | .call _ arguments _ => itemsCost arguments
  | .tuple items _ => itemsCost items
  | .object entries _ => entriesCost entries
  | .null _ | .bool _ _ | .number _ _ | .string _ _ | .traversal _ | .negate _ _ => 0
where
  /-- What the names of the keys in the items cost. -/
  itemsCost : List Expr → Nat
  | [] => 0
  | e :: es => exprCost e + itemsCost es
  /-- What the names of the keys and of those in the values cost. -/
  entriesCost : List Entry → Nat
  | [] => 0
  | .mk key value :: rest => keyCost key + exprCost value + entriesCost rest

theorem names_of_ofKeyword? {name : String} {t : ValueType} (h : ofKeyword? name = some t) :
    t.names = [] := by
  unfold ofKeyword? at h
  split at h <;> cases h <;> rfl

/-- An attribute that is added costs its name and its type, and an attribute that it takes the place
of costs nothing any more. -/
theorem namesCost_insert_le (name : String) (t : ValueType) (types : Dict ValueType) :
    namesCost (names.attributeNames (types.insert name t)) ≤
      namesCost (names.attributeNames types) + (nameCost name + namesCost t.names) := by
  induction types with
  | nil =>
    simp only [Dict.insert, names.attributeNames, namesCost_append, namesCost_cons, namesCost_nil]
    omega
  | cons e rest ih =>
    rcases e with ⟨k, u⟩
    rw [Dict.insert]
    split_ifs
    all_goals
      simp only [names.attributeNames, namesCost_append, namesCost_cons]
      omega

mutual

/-- The names in a type cost no more than those of the keys in the expression that writes it. -/
theorem namesCost_le : ∀ (e : Expr) {t : ValueType}, ofExpr e = .ok t →
    namesCost t.names ≤ exprCost e
  | .parens inner _, t, h => by
    rw [ofExpr] at h
    exact namesCost_le inner h
  | .traversal path, t, h => by
    rw [names_of_ofKeyword? (ofExpr_traversal h)]
    exact Nat.zero_le _
  | .call name arguments span, t, h => by
    rcases ofExpr_call h with ⟨argument, rfl, ⟨element, helement, ht⟩ |
      ⟨items, s, ts, rfl, hts, rfl⟩ | ⟨entries, s, ts, rfl, hts, rfl⟩⟩
    · have hnames : t.names = element.names := by
        rcases ht with rfl | rfl | rfl <;> rfl
      rw [hnames, exprCost, exprCost.itemsCost, exprCost.itemsCost]
      exact namesCost_le argument helement
    · rw [exprCost, exprCost.itemsCost, exprCost.itemsCost, exprCost]
      exact namesCost_items_le items hts
    · rw [exprCost, exprCost.itemsCost, exprCost.itemsCost, exprCost]
      exact (namesCost_entries_le entries hts).trans (Nat.zero_add _).le
  | .null _, _, h | .bool _ _, _, h | .number _ _, _, h | .string _ _, _, h | .tuple _ _, _, h
  | .object _ _, _, h | .negate _ _, _, h => by
    rw [ofExpr] at h
    · cases h
    all_goals intros; contradiction

theorem namesCost_items_le : ∀ (items : List Expr) {ts : List ValueType},
    ofExpr.ofItems items = .ok ts → namesCost (names.elementNames ts) ≤ exprCost.itemsCost items
  | [], _, h => by
    cases h
    exact Nat.zero_le _
  | x :: xs, ts, h => by
    rcases ofItems_eq_ok h with ⟨u, us, hx, hxs, rfl⟩
    rw [names.elementNames, namesCost_append, exprCost.itemsCost]
    exact Nat.add_le_add (namesCost_le x hx) (namesCost_items_le xs hxs)

theorem namesCost_entries_le : ∀ (entries : List Entry) {types ts : Dict ValueType},
    ofExpr.ofEntries types entries = .ok ts →
      namesCost (names.attributeNames ts) ≤
        namesCost (names.attributeNames types) + exprCost.entriesCost entries
  | [], types, ts, h => by
    rw [ofExpr.ofEntries] at h
    cases h
    exact Nat.le_add_right _ _
  | .mk key value :: rest, types, ts, h => by
    rcases ofEntries_eq_ok h with ⟨name, u, hname, hvalue, hrest⟩
    have hkey : keyCost key = nameCost name := by
      rw [keyCost, hname]
      rfl
    have hfirst := namesCost_le value hvalue
    have hinsert := namesCost_insert_le name u types
    have hmore := namesCost_entries_le rest hrest
    rw [exprCost.entriesCost, hkey]
    omega

end

end ValueType

/-! ## Names in tokens -/

section Tokens

open ValueType (exprCost keyCost nameCost_le nameCost_of_isWord)

/-- A name that is written as a key without quotes is a word and costs nothing; one that is written
as a string costs no more than the string. -/
theorem Hcl.IsKey.keyCost_le {ts : List Token} {key : Key} (h : IsKey ts key) (hts : HasWords ts) :
    keyCost key ≤ cost ts := by
  cases h with
  | path hpath =>
    cases hpath with
    | @mk t us name steps ht hsteps =>
      have hword := hts t List.mem_cons_self name ht
      have hcost : keyCost (.path (.mk name t.span steps (spanOf (t :: us)))) = 0 := by
        rw [keyCost, ValueType.attributeName?]
        split
        · exact nameCost_of_isWord hword
        · rfl
      rw [hcost]
      exact Nat.zero_le _
  | @expr t us e ht he =>
    -- A string has a quote or a sign in front, which pays for a name that is no word.
    have hstring : ∀ (u : Token) text, u.kind.cost = weight text.toList + 1 →
        keyCost (.expr (.string text u.span)) ≤ cost [u] := by
      intro u text hu
      rw [Hcl.cost_cons, hu]
      exact nameCost_le text
    cases he with
    | string hu => exact hstring _ _ (by rw [hu]; rfl)
    | heredoc hu => exact hstring _ _ (by rw [hu]; rfl)
    | _ => exact Nat.zero_le _

mutual

/-- The names of the keys in an expression cost no more than its tokens. -/
theorem Hcl.IsExpr.exprCost_le {ts : List Token} {e : Expr} (h : IsExpr ts e) (hts : HasWords ts) :
    exprCost e ≤ cost ts := by
  match h with
  | .number _ | .string _ | .heredoc _ | .trueLit _ | .falseLit _ | .nullLit _ | .negate _ _
  | .traversal _ _ => exact Nat.zero_le _
  | .call _ _ _ hes _ =>
    have hinner := hes.itemsCost_le fun t ht => hts t (by simp [ht])
    simp only [exprCost, List.cons_append, Hcl.cost_cons, Hcl.cost_append]
    omega
  | .tuple _ hes _ =>
    have hinner := hes.itemsCost_le fun t ht => hts t (by simp [ht])
    simp only [exprCost, List.cons_append, Hcl.cost_cons, Hcl.cost_append]
    omega
  | .object _ hes _ =>
    have hinner := hes.entriesCost_le fun t ht => hts t (by simp [ht])
    simp only [exprCost, List.cons_append, Hcl.cost_cons, Hcl.cost_append]
    omega
  | .parens _ _ he _ _ =>
    have hinner := he.exprCost_le fun t ht => hts t (by simp [ht])
    simp only [exprCost, List.cons_append, Hcl.cost_cons, Hcl.cost_append]
    omega

theorem Hcl.IsList.itemsCost_le {ts : List Token} {es : List Expr} (h : IsList ts es)
    (hts : HasWords ts) : exprCost.itemsCost es ≤ cost ts := by
  match h with
  | .mk _ hes _ =>
    have hinner := hes.itemsCost_le fun t ht => hts t (by simp [ht])
    simp only [Hcl.cost_append]
    omega

theorem Hcl.IsItems.itemsCost_le {ts : List Token} {es : List Expr} (h : IsItems ts es)
    (hts : HasWords ts) : exprCost.itemsCost es ≤ cost ts := by
  match h with
  | .none => exact le_refl 0
  | .last he => exact he.exprCost_le hts
  | .cons he _ _ _ hes =>
    have hfirst := he.exprCost_le fun t ht => hts t (by simp [ht])
    have hmore := hes.itemsCost_le fun t ht => hts t (by simp [ht])
    simp only [exprCost.itemsCost, List.append_assoc, List.cons_append, Hcl.cost_cons,
      Hcl.cost_append]
    omega

theorem Hcl.IsEntries.entriesCost_le {ts : List Token} {es : List Entry} (h : IsEntries ts es)
    (hts : HasWords ts) : exprCost.entriesCost es ≤ cost ts := by
  match h with
  | .none _ => exact Nat.zero_le _
  | .last _ he =>
    have hfirst := he.entriesCost_le [] fun t ht => hts t (by simp [ht])
    have hnone : exprCost.entriesCost [] = 0 := rfl
    simp only [Hcl.cost_append]
    omega
  | @IsEntries.cons as us vs t e es _ he _ hes =>
    have hfirst := he.entriesCost_le es fun t ht => hts t (by simp [ht])
    have hmore := hes.entriesCost_le fun t ht => hts t (by simp [ht])
    simp only [List.append_assoc, Hcl.cost_cons, Hcl.cost_append]
    omega

/-- An entry in front of others. -/
theorem Hcl.IsEntry.entriesCost_le {ts : List Token} {e : Entry} (h : IsEntry ts e)
    (rest : List Entry) (hts : HasWords ts) :
    exprCost.entriesCost (e :: rest) ≤ cost ts + exprCost.entriesCost rest := by
  match h with
  | .mk hkey _ hvalue =>
    have hname := hkey.keyCost_le fun t ht => hts t (by simp [ht])
    have hvalue := hvalue.exprCost_le fun t ht => hts t (by simp [ht])
    simp only [exprCost.entriesCost, Hcl.cost_cons, Hcl.cost_append]
    omega

end

end Tokens

namespace ValueType

/-! ## What a rendered type weighs -/

theorem weight_commaSeparated (texts : List (List Char)) :
    weight (commaSeparated texts) = (texts.map weight).sum := by
  match texts with
  | [] => rfl
  | [x] => rfl
  | x :: y :: rest =>
    have hmore := weight_commaSeparated (y :: rest)
    rw [commaSeparated, Hcl.weight_append, Hcl.weight_cons ',', Hcl.weight_cons ' ', hmore,
      List.map_cons, List.sum_cons]
    exact congrArg (weight x + ·) ((Nat.zero_add _).trans (Nat.zero_add _))

theorem namesWeight_append (xs ys : List String) :
    namesWeight (xs ++ ys) = namesWeight xs + namesWeight ys := by
  rw [namesWeight, List.map_append, List.sum_append]
  rfl

/-- What stands around a text may weigh nothing. -/
theorem weight_between {front inner back : String} (hfront : weight front.toList = 0)
    (hback : weight back.toList = 0) :
    weight (front ++ inner ++ back).toList = weight inner.toList := by
  rw [String.toList_append, String.toList_append, Hcl.weight_append, Hcl.weight_append, hfront,
    hback, Nat.zero_add, Nat.add_zero]

mutual

/-- Only the names of the attributes weigh something. -/
theorem weight_render : ∀ t : ValueType, weight t.render.toList = namesWeight t.names
  | any | string | number | bool => by decide +kernel
  | list t | set t | map t => by
    rw [render, weight_between (by decide +kernel) (by decide +kernel), weight_render t, names]
  | tuple ts => by
    rw [render, weight_between (by decide +kernel) (by decide +kernel), toList_intercalate,
      weight_commaSeparated, weight_renderElements ts, names]
  | object ts => by
    rw [render, weight_between (by decide +kernel) (by decide +kernel), toList_intercalate,
      weight_commaSeparated, weight_renderAttributes ts, names]

theorem weight_renderElements : ∀ ts : List ValueType,
    (((render.renderElements ts).map String.toList).map weight).sum =
      namesWeight (names.elementNames ts)
  | [] => rfl
  | t :: ts => by
    rw [render.renderElements, List.map_cons, List.map_cons, List.sum_cons, weight_render t,
      weight_renderElements ts, names.elementNames, namesWeight_append]

theorem weight_renderAttributes : ∀ ts : List (String × ValueType),
    (((render.renderAttributes ts).map String.toList).map weight).sum =
      namesWeight (names.attributeNames ts)
  | [] => rfl
  | (name, t) :: ts => by
    have hname : weight (name ++ " = " ++ t.render).toList =
        weight name.toList + weight t.render.toList := by
      rw [String.toList_append, String.toList_append, Hcl.weight_append, Hcl.weight_append]
      rfl
    rw [render.renderAttributes, List.map_cons, List.map_cons, List.sum_cons, hname,
      weight_render t, weight_renderAttributes ts, names.attributeNames, namesWeight_append]
    rfl

end

/-! ## Types that are read -/

variable {text filename : String} {t : ValueType}

/-- Every diagnostic of an expression is an error, so without errors there is none. -/
theorem parse_diagnostics_eq_nil
    (h : ¬(Expr.parse text filename).diagnostics.hasErrors = true) :
    (Expr.parse text filename).diagnostics = [] := by
  refine List.eq_nil_iff_forall_not_mem.2 ?_
  intro d hd
  have herror : d.isError = true := by
    rw [Expr.parse_diagnostics] at hd
    exact Hcl.isError_of_mem hd
  exact h (List.any_eq_true.2 ⟨d, hd, herror⟩)

/-- A type that is read from a text is written by the expression that the text is. -/
theorem isLone_of_parse (h : parse text filename = .ok t) :
    ∃ e, IsLone (Hcl.Tokens.ofText text).tokens e ∧ ofExpr e = .ok t := by
  unfold parse at h
  dsimp only at h
  split at h
  · cases h
  · next herrors =>
    have hdiagnostics := parse_diagnostics_eq_nil herrors
    -- A clean reading leaves no fault of the tokens either.
    have hclean : (Hcl.Tokens.ofText text).diagnostics filename = [] := by
      rw [Expr.parse_diagnostics] at hdiagnostics
      exact (List.append_eq_nil_iff.1 hdiagnostics).1
    rcases Hcl.Parser.readText_derivation filename hclean
      (fun _ => Hcl.Parser.loneExpression_leaves) Hcl.Parser.loneExpression_complete with
      ⟨hderived, htree⟩
    rcases hderived.1 hdiagnostics with ⟨e, he⟩
    have htype : ofExpr (Expr.parse text filename).tree = .ok t := by
      split at h
      · next hok =>
        cases h
        exact hok
      · cases h
    refine ⟨e, he, ?_⟩
    rw [← htree e he]
    exact htype

/-- The names of a type that is read from a text cost no more than the text weighs. -/
theorem namesCost_le_of_parse (h : parse text filename = .ok t) :
    namesCost t.names ≤ weight text.toList := by
  rcases isLone_of_parse h with ⟨e, hlone, htype⟩
  have hwords := Hcl.Tokens.hasWords_ofText text
  have htokens := Hcl.Tokens.cost_ofText_le text
  generalize (Hcl.Tokens.ofText text).tokens = tokens at hlone hwords htokens
  cases hlone with
  | mk _ he _ =>
    have hexpr := he.exprCost_le fun t ht => hwords t (by simp [ht])
    have hnames := namesCost_le e htype
    simp only [Hcl.cost_append] at htokens
    omega

/-- A type that was read from a text is read from its own text again exactly if the names of all its
attributes, at any depth, are words. -/
theorem parse_render_iff (h : parse text filename = .ok t) (other : String) :
    parse t.render other = .ok t ↔ ∀ name ∈ t.names, IsWord name := by
  constructor
  · -- The text that is read is the rendered one, which weighs as much as the names in it.
    intro hread
    have hcost := namesCost_le_of_parse hread
    rw [weight_render] at hcost
    exact isWord_of_namesCost_le hcost
  · intro hwords
    rcases isLone_of_parse h with ⟨e, -, htype⟩
    exact parse_render_of_words (ofExpr_ordered e htype) hwords other

/-- The names of literals and of constructors are words, whether they are written as strings or
not. -/
theorem parse_render_iff_nested :
    let text :=
      "object(\x7b \"port\" = number, null = tuple([map, object(\x7blist = any\x7d)]) \x7d)"
    let t : ValueType := .object [("null", .tuple [.map .any, .object [("list", .any)]]),
      ("port", .number)]
    parse text "type" = .ok t ∧
      t.render =
        "object(\x7bnull = tuple([map(any), object(\x7blist = any\x7d)]), port = number\x7d)" ∧
      parse t.render "type" = .ok t := by
  intro text t
  have hread : parse text "type" = .ok t := by decide +kernel
  have hwords : ∀ name ∈ t.names, IsWord name := by decide +kernel
  exact ⟨hread, by decide +kernel, (parse_render_iff hread "type").2 hwords⟩

/-- A name with a blank is rendered without quotes, and what is rendered is no type. Another name is
rendered as two attributes, and what is rendered is another type. -/
theorem spacedName_not_read_back :
    let spaced : ValueType := .object [("a b", .string)]
    let doubled : ValueType := .object [("a = any, b", .string)]
    parse "object(\x7b\"a b\" = string\x7d)" "type" = .ok spaced ∧
      spaced.render = "object(\x7ba b = string\x7d)" ∧
      (∀ t, parse spaced.render "type" ≠ .ok t) ∧
      parse "object(\x7b\"a = any, b\" = string\x7d)" "type" = .ok doubled ∧
      parse doubled.render "type" = .ok (.object [("a", .any), ("b", .string)]) := by
  intro spaced doubled
  have hnone : (parse spaced.render "type").toOption = none := by decide +kernel
  refine ⟨by decide +kernel, by decide +kernel, ?_, by decide +kernel, by decide +kernel⟩
  intro t h
  rw [h] at hnone
  cases hnone

end ValueType

end Overlay
