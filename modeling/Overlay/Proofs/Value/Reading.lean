import Overlay.Proofs.Dict
import Overlay.Proofs.Hcl.Parser
import Overlay.Proofs.Numeric.Rendering
import Overlay.Proofs.Value.Evaluation
import Overlay.Proofs.Value.Literal

/-!
# Reading literals

* `Parsed.Yields` says of a reading that nothing was wrong, what is left, and what was read.
* `Value.readBack` is the value of a value's literal: what no literal stands for is `null`,
  sequences are tuples and dictionaries objects.
* `value_literal`: the tokens of a literal are read as an expression with that value.
-/

namespace Overlay

namespace Hcl

/-! ## Readings without faults -/

/-- Nothing was wrong, the tokens `rest` are left, and what was read is as `P` says. -/
structure Parsed.Yields (x : Parsed α) (rest : List Token) (P : α → Prop) : Prop where
  faults : x.faults = []
  next : x.next.rest = rest
  value : P x.value

theorem Parsed.Yields.imp {x : Parsed α} {rest : List Token} {P Q : α → Prop}
    (h : x.Yields rest P) (hPQ : ∀ a, P a → Q a) : x.Yields rest Q :=
  ⟨h.faults, h.next, hPQ _ h.value⟩

namespace Parser

variable {α β : Type} {F : Frame} {last : Pos} {t : Token} {ts mid rest : List Token} {span : Span}
  {depth : Nat}

theorem yields_pure {P : α → Prop} {a : α} (h : P a) :
    ((pure a : Parser α) F ⟨last, rest⟩).Yields rest P := ⟨rfl, rfl, h⟩

/-- One reading behind the other. -/
theorem yields_bind {p : Parser α} {f : α → Parser β} {P : α → Prop} {Q : β → Prop} {c : Cursor}
    (hp : (p F c).Yields mid P) (hf : ∀ a last, P a → (f a F ⟨last, mid⟩).Yields rest Q) :
    ((p >>= f) F c).Yields rest Q := by
  have hnext : (p F c).next = ⟨(p F c).next.last, mid⟩ := by rw [← hp.next]
  have hbehind := hf (p F c).value (p F c).next.last hp.value
  rw [← hnext] at hbehind
  rw [bind_run]
  refine ⟨?_, hbehind.next, hbehind.value⟩
  show (p F c).faults ++ (f (p F c).value F (p F c).next).faults = []
  rw [hp.faults, hbehind.faults]
  rfl

/-! ## Steps -/

theorem close_own {own : Mark} {fault : SyntaxFault} (h : t.kind = .mark own) :
    (close own fault F ⟨last, t :: rest⟩).Yields rest (· = .closed) := by
  rcases t with ⟨kind, span⟩
  cases h
  unfold close
  rw [peekKind_bind]
  simp only [Cursor.kind?, List.head?_cons, Option.map_some, if_true]
  exact ⟨rfl, rfl, rfl⟩

/-- What stands between an opener and its closer. -/
theorem delimited_yields {items : Parser α} {own : Mark} {fault : SyntaxFault} {P : α → Prop}
    (hitems : ∀ last, (items F ⟨last, ts⟩).Yields (t :: rest) P) (ht : t.kind = .mark own)
    (hfirst : ∀ u us, ts = u :: us → u.kind.isNewline = false) (hown : own ≠ .newline) :
    (delimited items own fault F ⟨last, ts⟩).Yields rest fun x => P x.1 ∧ x.2 = .closed := by
  have hskip : Cursor.skipNewlines ⟨last, ts⟩ = ⟨last, ts⟩ := by
    cases ts with
    | nil => rfl
    | cons u us => exact skipNewlines_of_ne (hfirst u us rfl)
  have hlast : t.kind.isNewline = false := by
    rw [ht]
    cases own <;> first | rfl | exact absurd rfl hown
  unfold delimited
  rw [newlines_bind, hskip]
  refine yields_bind (hitems last) fun a last ha => ?_
  rw [newlines_bind, skipNewlines_of_ne hlast]
  exact yields_bind (close_own ht) fun b last hb => yields_pure ⟨ha, hb⟩

/-- Items between brackets make a tuple. -/
theorem value_brackets {P : List Expr → Prop} (hopen : t.kind = .mark .openBracket)
    {closer : Token} (hclose : closer.kind = .mark .closeBracket)
    (hfirst : ∀ u us, ts = u :: us → u.kind.isNewline = false)
    (hitems : ∀ last, (elements depth F ⟨last, ts⟩).Yields (closer :: rest) P) :
    (value (depth + 1) F ⟨last, t :: ts⟩).Yields rest
      fun e => ∃ es span, P es ∧ e = .tuple es span := by
  rcases t with ⟨kind, span⟩
  cases hopen
  have hstep : value (depth + 1) F ⟨last, ⟨.mark .openBracket, span⟩ :: ts⟩ =
      tuple (elements depth) span F ⟨last, ⟨.mark .openBracket, span⟩ :: ts⟩ := by
    rw [value]
    rfl
  rw [hstep]
  unfold tuple
  rw [advance_bind]
  refine yields_bind (delimited_yields hitems hclose hfirst (by decide)) fun x last hx => ?_
  rcases x with ⟨es, closing⟩
  rcases hx with ⟨hes, rfl⟩
  exact ⟨rfl, rfl, _, _, hes, rfl⟩

/-- Entries between braces make an object. -/
theorem value_braces {P : List Entry → Prop} (hopen : t.kind = .mark .openBrace)
    (hentries : ∀ last, (objectEntries depth F ⟨last, ts⟩).Yields rest
      fun x => P x.1 ∧ x.2 = .closed) :
    (value (depth + 1) F ⟨last, t :: ts⟩).Yields rest
      fun e => ∃ es span, P es ∧ e = .object es span := by
  rcases t with ⟨kind, span⟩
  cases hopen
  have hstep : value (depth + 1) F ⟨last, ⟨.mark .openBrace, span⟩ :: ts⟩ =
      object (objectEntries depth) span F ⟨last, ⟨.mark .openBrace, span⟩ :: ts⟩ := by
    rw [value]
    rfl
  rw [hstep]
  unfold object
  rw [advance_bind]
  refine yields_bind (hentries _) fun x last hx => ?_
  rcases x with ⟨es, closing⟩
  rcases hx with ⟨hes, rfl⟩
  exact ⟨rfl, rfl, _, _, hes, rfl⟩

/-! ## Items -/

/-- Whether tokens start like an item: with neither a closer nor the end of a line. -/
def StartsItem (ts : List Token) : Prop :=
  ∃ u us, ts = u :: us ∧ u.kind.isCloser = false ∧ u.kind.isNewline = false

theorem elements_none (ht : t.kind.isCloser = true) :
    (elements (depth + 1) F ⟨last, t :: rest⟩).Yields (t :: rest) (· = []) := by
  rw [elements, peekKind_bind]
  simp only [Cursor.kind?, List.head?_cons, Option.map_some, ht, if_true]
  exact yields_pure rfl

theorem elements_last {P : Expr → Prop} (hstart : StartsItem ts)
    (hitem : ∀ last, (value depth F ⟨last, ts⟩).Yields (t :: rest) P)
    (ht : t.kind.isCloser = true) :
    (elements (depth + 1) F ⟨last, ts⟩).Yields (t :: rest) fun es => ∃ e, P e ∧ es = [e] := by
  rcases hstart with ⟨u, us, rfl, hcloser, -⟩
  rw [elements, peekKind_bind]
  simp only [Cursor.kind?, List.head?_cons, Option.map_some, hcloser]
  refine yields_bind (hitem last) fun e last he => ?_
  have hnewline : t.kind.isNewline = false := by
    rcases t with ⟨kind, span⟩
    cases kind with
    | mark m => cases m <;> first | rfl | cases ht
    | _ => rfl
  have hcomma : ¬t.kind = .mark .comma := by
    intro h
    rw [h] at ht
    cases ht
  rw [comma_bind, skipNewlines_of_ne hnewline]
  simp only [Cursor.kind?, List.head?_cons, Option.map_some, Option.some.injEq, hcomma, if_false]
  exact yields_pure ⟨e, he, rfl⟩

theorem elements_cons {P : Expr → Prop} {Q : List Expr → Prop} (hstart : StartsItem ts)
    (hitem : ∀ last, (value depth F ⟨last, ts⟩).Yields (t :: mid) P)
    (ht : t.kind = .mark .comma) (hmid : StartsItem mid)
    (hmore : ∀ last, (elements depth F ⟨last, mid⟩).Yields rest Q) :
    (elements (depth + 1) F ⟨last, ts⟩).Yields rest
      fun es => ∃ e more, P e ∧ Q more ∧ es = e :: more := by
  rcases hstart with ⟨u, us, rfl, hcloser, -⟩
  rcases hmid with ⟨v, vs, rfl, -, hnewline⟩
  rcases t with ⟨kind, span⟩
  cases ht
  rw [elements, peekKind_bind]
  simp only [Cursor.kind?, List.head?_cons, Option.map_some, hcloser]
  refine yields_bind (hitem last) fun e last he => ?_
  have hskip : (Cursor.skipNewlines ⟨last, ⟨.mark .comma, span⟩ :: v :: vs⟩).advance.skipNewlines =
      ⟨span.stop, v :: vs⟩ := by
    rw [skipNewlines_of_ne rfl]
    exact skipNewlines_of_ne hnewline
  rw [comma_bind, hskip, skipNewlines_of_ne rfl]
  simp only [Cursor.kind?, List.head?_cons, Option.map_some, if_true]
  exact yields_bind (hmore _) fun more last hm => yields_pure ⟨e, more, he, hm, rfl⟩

/-! ## Keys -/

theorem steps_none (hdot : t.kind ≠ .mark .dot) (hbracket : t.kind ≠ .mark .openBracket) :
    (steps (depth + 1) F ⟨last, t :: rest⟩).Yields (t :: rest) (· = []) := by
  rw [steps, peek_bind]
  rcases t with ⟨kind, span⟩
  cases kind with
  | mark m =>
    cases m <;> first
      | exact yields_pure rfl
      | exact absurd rfl hdot
      | exact absurd rfl hbracket
  | _ => exact yields_pure rfl

/-- A key that starts with a name. -/
theorem keyOf_path {inner : Parser Expr} {more : Parser (List Step)} {P : List Step → Prop}
    {root : String} (hsteps : ∀ last, (more F ⟨last, ts⟩).Yields (t :: rest) P)
    (ht : t.kind ≠ .mark .dot) :
    (keyOf inner more F ⟨last, ⟨.ident root, span⟩ :: ts⟩).Yields (t :: rest)
      fun key => ∃ ss whole, P ss ∧ key = .path (.mk root span ss whole) := by
  have hpath : (traversal more root span F ⟨last, ⟨.ident root, span⟩ :: ts⟩).Yields (t :: rest)
      fun path => ∃ ss whole, P ss ∧ path = .mk root span ss whole := by
    unfold traversal
    rw [advance_bind]
    refine yields_bind (hsteps _) fun ss last hss => ?_
    have hnot : ¬(⟨last, t :: rest⟩ : Cursor).kind? = some (.mark .dot) := by
      intro h
      exact ht (Option.some.inj h)
    rw [mark_bind, if_neg hnot]
    exact ⟨rfl, rfl, ss, _, hss, rfl⟩
  unfold keyOf
  rw [peek_bind]
  refine yields_bind hpath ?_
  rintro path last ⟨ss, whole, hss, rfl⟩
  exact yields_pure ⟨ss, whole, hss, rfl⟩

/-- A key that is given by an expression. -/
theorem keyOf_expr {inner : Parser Expr} {more : Parser (List Step)} {P : Expr → Prop}
    (ht : ∀ root, t.kind ≠ .ident root)
    (hinner : ∀ last, (inner F ⟨last, t :: ts⟩).Yields rest P) :
    (keyOf inner more F ⟨last, t :: ts⟩).Yields rest fun key => ∃ e, P e ∧ key = .expr e := by
  unfold keyOf
  rw [peek_bind]
  have hread := yields_bind (f := fun e => (pure (Key.expr e) : Parser Key)) (hinner last)
    fun e last he => yields_pure (P := fun key => ∃ e, P e ∧ key = Key.expr e) ⟨e, he, rfl⟩
  rcases t with ⟨kind, span⟩
  cases kind with
  | ident root => exact absurd rfl (ht root)
  | _ => exact hread

/-! ## Entries -/

theorem objectEntries_none (ht : t.kind = .mark .closeBrace) :
    (objectEntries (depth + 1) F ⟨last, t :: rest⟩).Yields rest
      fun x => x.1 = [] ∧ x.2 = .closed := by
  rcases t with ⟨kind, span⟩
  cases ht
  rw [objectEntries_succ, newlines_bind, skipNewlines_of_ne rfl, peekKind_bind]
  simp only [Cursor.kind?, List.head?_cons, Option.map_some, startsKey, Bool.false_eq_true]
  exact yields_bind (close_own rfl) fun c last hc => yields_pure ⟨rfl, hc⟩

/-- An entry, and what comes behind its value. -/
theorem objectEntries_entry {P : Key → Prop} {Q : Expr → Prop} {R : List Entry × Closing → Prop}
    {u : Token} {us behind : List Token} (hstart : startsKey u.kind = true)
    (hkey : ∀ last, (keyOf (value depth) (steps depth) F ⟨last, u :: us⟩).Yields (t :: mid) P)
    (ht : t.kind = .mark .equals)
    (hvalue : ∀ last, (value depth F ⟨last, mid⟩).Yields behind Q)
    (hbehind : ∀ key e last, P key → Q e →
      (behindValue depth (.mk key e) F ⟨last, behind⟩).Yields rest R) :
    (objectEntries (depth + 1) F ⟨last, u :: us⟩).Yields rest R := by
  have hnewline : u.kind.isNewline = false := by
    rcases u with ⟨kind, span⟩
    cases kind with
    | mark m => cases m <;> first | rfl | cases hstart
    | _ => rfl
  rw [objectEntries_succ, newlines_bind, skipNewlines_of_ne hnewline, peekKind_bind]
  simp only [Cursor.kind?, List.head?_cons, Option.map_some, hstart, if_true]
  refine yields_bind (hkey last) fun key last hp => ?_
  rcases t with ⟨kind, span⟩
  cases ht
  unfold behindKey entryValue
  rw [peekKind_bind]
  simp only [Cursor.kind?, List.head?_cons, Option.map_some, advance_bind]
  exact yields_bind (hvalue _) fun e last he => hbehind key e last hp he

theorem behindValue_close {entry : Entry} (ht : t.kind = .mark .closeBrace) :
    (behindValue depth entry F ⟨last, t :: rest⟩).Yields rest
      fun x => x.1 = [entry] ∧ x.2 = .closed := by
  rcases t with ⟨kind, span⟩
  cases ht
  unfold behindValue lastEntry
  rw [peekKind_bind]
  simp only [Cursor.kind?, List.head?_cons, Option.map_some]
  exact yields_bind (close_own rfl) fun c last hc => yields_pure ⟨rfl, hc⟩

theorem behindValue_comma {entry : Entry} {P : List Entry → Prop} (ht : t.kind = .mark .comma)
    (hmore : ∀ last, (objectEntries depth F ⟨last, ts⟩).Yields rest
      fun x => P x.1 ∧ x.2 = .closed) :
    (behindValue depth entry F ⟨last, t :: ts⟩).Yields rest
      fun x => (∃ more, P more ∧ x.1 = entry :: more) ∧ x.2 = .closed := by
  rcases t with ⟨kind, span⟩
  cases ht
  unfold behindValue entryBefore
  rw [peekKind_bind]
  simp only [Cursor.kind?, List.head?_cons, Option.map_some, advance_bind]
  exact yields_bind (hmore _) fun x last hx => yields_pure ⟨⟨x.1, hx.1, rfl⟩, hx.2⟩

end Parser

/-! ## Evaluation of entries -/

/-- Whether the entries have the keys and the values given, in this order. -/
def Denotes (entries : List (String × Value)) (es : List Entry) : Prop :=
  List.Forall₂ (fun e kv => e.key.evaluate = .pure (some kv.1) ∧ e.value.evaluate = .pure kv.2)
    es entries

/-- Entries with ascending keys make up a dictionary. -/
theorem evaluateEntries_of_denotes {es : List Entry} {entries : Dict Value}
    (h : Denotes entries es) :
    ∀ {seen : Dict Span} {values : Dict Value}, (∀ k ∈ Dict.keys entries, seen.find? k = none) →
      Dict.Ascending (values ++ entries) →
        evaluateEntries seen values es = .pure (values ++ entries) := by
  induction h with
  | nil =>
    intro seen values _ _
    rw [evaluateEntries, List.append_nil]
  | @cons e kv es entries hkv hrest ih =>
    intro seen values hseen hasc
    rcases e with ⟨key, value⟩
    rcases kv with ⟨k, v⟩
    rcases hkv with ⟨hkey, hvalue⟩
    simp only [Entry.key, Entry.value] at hkey hvalue
    have hfresh : seen.find? k = none := hseen k List.mem_cons_self
    rcases Dict.ascending_append.1 hasc with ⟨-, hrest, hpairs⟩
    have hlt : ∀ l ∈ Dict.keys values, l < k := fun l hl => hpairs l hl k List.mem_cons_self
    -- The keys ascend, so the entry goes behind those that are there.
    have hinsert : values.insert k v = values ++ [(k, v)] := Dict.insert_of_forall_lt hlt v
    have hnext : ∀ l ∈ Dict.keys entries, (seen.insert k key.span).find? l = none := by
      intro l hl
      have hne : l ≠ k := ((Dict.ascending_cons.1 hrest).1 l hl).ne'
      rw [Dict.find?_insert_of_ne hne]
      exact hseen l (List.mem_cons_of_mem _ hl)
    have hnextAsc : Dict.Ascending ((values ++ [(k, v)]) ++ entries) := by simpa using hasc
    have hmore := ih hnext hnextAsc
    rw [evaluateEntries, hkey, hvalue]
    simp only [Evaluated.pure, hfresh, hinsert, hmore, List.append_assoc, List.singleton_append,
      List.append_nil]

end Hcl

namespace Value

open Hcl (Expr Entry Key Token TokenKind Frame Parsed)
open Numeric (Number Decimal)

/-! ## Values of literals -/

/-- The value of a value's literal. -/
def readBack : Value → Value
  | null | unknown | capsule _ | number (.infinite _) => null
  | bool b => bool b
  | number (.finite d) => number (.finite d)
  | string s => string s
  | list items | set items | tuple items => tuple (readItems items)
  | map entries | object entries => object (readEntries entries)
where
  /-- The values of the items' literals. -/
  readItems : List Value → List Value
  | [] => []
  | v :: vs => v.readBack :: readItems vs
  /-- The values of the entries' literals, under their keys. -/
  readEntries : List (String × Value) → List (String × Value)
  | [] => []
  | (key, v) :: rest => (key, v.readBack) :: readEntries rest

/-- Whether the keys of all dictionaries in a value ascend. -/
def Ordered : Value → Prop
  | null | unknown | bool _ | number _ | string _ | capsule _ => True
  | list items | set items | tuple items => itemsOrdered items
  | map entries | object entries => Dict.Ascending entries ∧ entriesOrdered entries
where
  /-- Whether it is so in all items. -/
  itemsOrdered : List Value → Prop
  | [] => True
  | v :: vs => v.Ordered ∧ itemsOrdered vs
  /-- Whether it is so in the values of all entries. -/
  entriesOrdered : List (String × Value) → Prop
  | [] => True
  | (_, v) :: rest => v.Ordered ∧ entriesOrdered rest

theorem keys_readEntries (entries : List (String × Value)) :
    Dict.keys (readBack.readEntries entries) = Dict.keys entries := by
  induction entries with
  | nil => rfl
  | cons kv rest ih =>
    rcases kv with ⟨k, v⟩
    exact congrArg (k :: ·) ih

/-- A literal starts like an item. -/
theorem literalKinds_eq_cons (v : Value) :
    ∃ k ks, v.literalKinds = k :: ks ∧ k.isCloser = false ∧ k.isNewline = false := by
  cases v with
  | number n =>
    cases n with
    | infinite negative => exact ⟨_, _, rfl, rfl, rfl⟩
    | finite d =>
      rcases d with ⟨negative, coefficient, exponent⟩
      cases negative <;> exact ⟨_, _, rfl, rfl, rfl⟩
  | _ => exact ⟨_, _, rfl, rfl, rfl⟩

section Tokens

variable {F : Frame} {last : Pos} {ts rest : List Token} {depth : Nat}

theorem startsItem_of_literal {v : Value} (h : ts.map Token.kind = v.literalKinds)
    (more : List Token) : Hcl.Parser.StartsItem (ts ++ more) := by
  rcases literalKinds_eq_cons v with ⟨k, ks, hkinds, hcloser, hnewline⟩
  rw [hkinds] at h
  rcases List.map_eq_cons_iff.1 h with ⟨u, us, rfl, rfl, -⟩
  exact ⟨u, us ++ more, rfl, hcloser, hnewline⟩

theorem startsItem_of_items {v : Value} {vs : List Value}
    (h : ts.map Token.kind = commaKinds (literalKinds.itemKinds (v :: vs))) (more : List Token) :
    Hcl.Parser.StartsItem (ts ++ more) := by
  cases vs with
  | nil => exact startsItem_of_literal h more
  | cons w vs =>
    rcases List.map_eq_append_iff.1 h with ⟨front, others, rfl, hfront, -⟩
    rw [List.append_assoc]
    exact startsItem_of_literal hfront _

/-- A name that is a literal. -/
theorem value_name {name : String} {w : Value}
    (hliteral : ∀ span, ∃ e, Hcl.Parser.literalName? name span = some e ∧ e.evaluate = .pure w)
    (hts : ts.map Token.kind = [.ident name]) (hdepth : ts.length ≤ depth) :
    (Hcl.Parser.value depth F ⟨last, ts ++ rest⟩).Yields rest fun e => e.evaluate = .pure w := by
  rcases List.map_eq_singleton_iff.1 hts with ⟨t, rfl, ht⟩
  rcases t with ⟨kind, span⟩
  cases ht
  cases depth with
  | zero => cases hdepth
  | succ depth =>
    rcases hliteral span with ⟨e, he, hvalue⟩
    rw [Hcl.Parser.value, Hcl.Parser.peek_bind]
    simp only [List.singleton_append, List.head?_cons, he]
    exact ⟨rfl, rfl, hvalue⟩

theorem value_string {s : String} (hts : ts.map Token.kind = [.str s])
    (hdepth : ts.length ≤ depth) :
    (Hcl.Parser.value depth F ⟨last, ts ++ rest⟩).Yields rest
      fun e => e.evaluate = .pure (string s) := by
  rcases List.map_eq_singleton_iff.1 hts with ⟨t, rfl, ht⟩
  rcases t with ⟨kind, span⟩
  cases ht
  cases depth with
  | zero => cases hdepth
  | succ depth =>
    rw [Hcl.Parser.value, Hcl.Parser.peek_bind]
    exact ⟨rfl, rfl, rfl⟩

theorem value_finite {text : String} {n : Number} (hn : Number.parse? text = some n)
    (hts : ts.map Token.kind = [.number text]) (hdepth : ts.length ≤ depth) :
    (Hcl.Parser.value depth F ⟨last, ts ++ rest⟩).Yields rest
      fun e => e.evaluate = .pure (number n) := by
  rcases List.map_eq_singleton_iff.1 hts with ⟨t, rfl, ht⟩
  rcases t with ⟨kind, span⟩
  cases ht
  cases depth with
  | zero => cases hdepth
  | succ depth =>
    rw [Hcl.Parser.value, Hcl.Parser.peek_bind]
    refine ⟨rfl, rfl, ?_⟩
    show (Expr.number text span).evaluate = _
    rw [Expr.evaluate, hn]

theorem value_number (n : Number) (hts : ts.map Token.kind = numberKinds n)
    (hdepth : ts.length ≤ depth) :
    (Hcl.Parser.value depth F ⟨last, ts ++ rest⟩).Yields rest
      fun e => e.evaluate = .pure (number n).readBack := by
  cases n with
  | infinite negative =>
    -- An infinite number is written as `null`, and reads back as that.
    have hnull : ∀ span, ∃ e, Hcl.Parser.literalName? "null" span = some e ∧
        e.evaluate = .pure null := fun span => ⟨_, rfl, rfl⟩
    exact value_name hnull hts hdepth
  | finite d =>
    have hparse := Decimal.parse?_numeral d
    cases hsign : d.negative with
    | false =>
      simp only [numberKinds, hsign] at hts
      have hvalue : (Hcl.Parser.value depth F ⟨last, ts ++ rest⟩).Yields rest
          fun e => e.evaluate = .pure (number (.finite d.magnitude)) :=
        value_finite hparse hts hdepth
      rwa [Decimal.magnitude_of_not_negative hsign] at hvalue
    -- A negative number is its magnitude behind a minus sign.
    | true =>
      simp only [numberKinds, hsign, if_true] at hts
      rcases List.map_eq_cons_iff.1 hts with ⟨t, us, rfl, ht, hus⟩
      rcases t with ⟨kind, span⟩
      cases ht
      cases depth with
      | zero => cases hdepth
      | succ depth =>
        rw [Hcl.Parser.value, Hcl.Parser.peek_bind]
        simp only [List.cons_append, List.head?_cons, Hcl.Parser.advance_bind]
        refine Hcl.Parser.yields_bind
          (value_finite hparse hus (Nat.le_of_succ_le_succ hdepth)) fun e last he => ?_
        refine ⟨rfl, rfl, ?_⟩
        show (Expr.negate e _).evaluate = _
        rw [Expr.evaluate, he]
        show Evaluated.pure (number (.finite d.magnitude.negate)) = _
        rw [Decimal.negate_magnitude hsign]
        rfl

/-- A key in front of its equals sign. -/
theorem keyOf_literal {key : String} {t u : Token} (ht : t.kind = keyKind key)
    (hu : u.kind = .mark .equals) :
    (Hcl.Parser.keyOf (Hcl.Parser.value (depth + 1)) (Hcl.Parser.steps (depth + 1)) F
      ⟨last, t :: u :: rest⟩).Yields (u :: rest) fun k => k.evaluate = .pure (some key) := by
  unfold keyKind at ht
  rcases t with ⟨kind, span⟩
  split_ifs at ht with hbare
  · cases ht
    have hsteps : ∀ last, (Hcl.Parser.steps (depth + 1) F ⟨last, u :: rest⟩).Yields (u :: rest)
        (· = []) := fun last => Hcl.Parser.steps_none (by simp [hu]) (by simp [hu])
    refine (Hcl.Parser.keyOf_path hsteps (by simp [hu])).imp ?_
    rintro k ⟨ss, whole, rfl, rfl⟩
    rfl
  · cases ht
    have hstring : ∀ last, (Hcl.Parser.value (depth + 1) F
        ⟨last, ⟨.str key, span⟩ :: u :: rest⟩).Yields (u :: rest)
          fun e => e.evaluate = .pure (string key) :=
      fun last => @value_string F last [⟨.str key, span⟩] (u :: rest) (depth + 1) key rfl (by simp)
    refine (Hcl.Parser.keyOf_expr (by simp) hstring).imp ?_
    rintro k ⟨e, he, rfl⟩
    rw [Key.evaluate, he]
    rfl

/-- An entry of an object, and what comes behind it. -/
theorem objectEntries_literal {key : String} {w : Value} {t u : Token} {us behind : List Token}
    {R : List Entry × Hcl.Parser.Closing → Prop} (ht : t.kind = keyKind key)
    (hu : u.kind = .mark .equals)
    (hvalue : ∀ last, (Hcl.Parser.value (depth + 1) F ⟨last, us⟩).Yields behind
      fun e => e.evaluate = .pure w)
    (hbehind : ∀ k e last, k.evaluate = .pure (some key) → e.evaluate = .pure w →
      (Hcl.Parser.behindValue (depth + 1) (.mk k e) F ⟨last, behind⟩).Yields rest R) :
    (Hcl.Parser.objectEntries (depth + 2) F ⟨last, t :: u :: us⟩).Yields rest R := by
  have hstart : Hcl.Parser.startsKey t.kind = true := by
    rw [ht]
    unfold keyKind
    split_ifs <;> rfl
  exact Hcl.Parser.objectEntries_entry hstart (fun last => keyOf_literal ht hu) hu hvalue hbehind

/-- A sequence is read if what stands between its brackets is. -/
theorem value_sequence {items : List Value}
    (hts : ts.map Token.kind =
      .mark .openBracket :: commaKinds (literalKinds.itemKinds items) ++ [.mark .closeBracket])
    (hdepth : ts.length ≤ depth)
    (hitems : ∀ {us : List Token} {closer : Token} {d : Nat},
      us.map Token.kind = commaKinds (literalKinds.itemKinds items) →
        closer.kind = .mark .closeBracket → us.length + 1 ≤ d → ∀ last,
          (Hcl.Parser.elements d F ⟨last, us ++ closer :: rest⟩).Yields (closer :: rest)
            fun es => Hcl.evaluateItems es = .pure (readBack.readItems items)) :
    (Hcl.Parser.value depth F ⟨last, ts ++ rest⟩).Yields rest
      fun e => e.evaluate = .pure (tuple (readBack.readItems items)) := by
  rcases exists_between hts with ⟨t, inner, closer, rfl, ht, hinner, hcloser⟩
  cases depth with
  | zero => cases hdepth
  | succ depth =>
    have hread := @hitems inner closer depth hinner hcloser (by simpa using hdepth)
    -- No line end comes behind the bracket: an item starts there, or the closer stands there.
    have hfirst : ∀ u us, inner ++ closer :: rest = u :: us → u.kind.isNewline = false := by
      intro u us heq
      cases items with
      | nil =>
        cases List.map_eq_nil_iff.1 hinner
        cases heq
        rw [hcloser]
        rfl
      | cons v vs =>
        rcases startsItem_of_items hinner (closer :: rest) with ⟨u', us', heq', -, hnewline⟩
        cases heq.symm.trans heq'
        exact hnewline
    rw [List.append_assoc, List.cons_append]
    refine (Hcl.Parser.value_brackets ht hcloser hfirst hread).imp ?_
    rintro e ⟨es, span, hes, rfl⟩
    rw [Expr.evaluate, hes]
    rfl

/-- A dictionary is read if what stands between its braces is. -/
theorem value_dictionary {entries : List (String × Value)} (hasc : Dict.Ascending entries)
    (hts : ts.map Token.kind =
      .mark .openBrace :: commaKinds (literalKinds.entryKinds entries) ++ [.mark .closeBrace])
    (hdepth : ts.length ≤ depth)
    (hentries : ∀ {us : List Token} {closer : Token} {d : Nat},
      us.map Token.kind = commaKinds (literalKinds.entryKinds entries) →
        closer.kind = .mark .closeBrace → us.length + 1 ≤ d → ∀ last,
          (Hcl.Parser.objectEntries d F ⟨last, us ++ closer :: rest⟩).Yields rest fun x =>
            Hcl.Denotes (readBack.readEntries entries) x.1 ∧ x.2 = .closed) :
    (Hcl.Parser.value depth F ⟨last, ts ++ rest⟩).Yields rest
      fun e => e.evaluate = .pure (object (readBack.readEntries entries)) := by
  rcases exists_between hts with ⟨t, inner, closer, rfl, ht, hinner, hcloser⟩
  cases depth with
  | zero => cases hdepth
  | succ depth =>
    have hread := @hentries inner closer depth hinner hcloser (by simpa using hdepth)
    rw [List.append_assoc, List.cons_append]
    refine (Hcl.Parser.value_braces ht hread).imp ?_
    rintro e ⟨es, span, hes, rfl⟩
    -- No key is there twice, so the evaluation gathers the entries as they are.
    have hall : Dict.Ascending ([] ++ readBack.readEntries entries) := by
      unfold Dict.Ascending
      rw [List.nil_append, keys_readEntries]
      exact hasc
    rw [Expr.evaluate, Hcl.evaluateEntries_of_denotes hes (fun _ _ => rfl) hall]
    rfl

end Tokens

/-! ## Reading -/

mutual

/-- The tokens of a literal are read as an expression with the value of the literal. -/
theorem value_literal : ∀ (v : Value) {ts : List Token} {depth : Nat}, v.Ordered →
    ts.map Token.kind = v.literalKinds → ts.length ≤ depth →
      ∀ (F : Frame) (last : Pos) (rest : List Token),
        (Hcl.Parser.value depth F ⟨last, ts ++ rest⟩).Yields rest
          fun e => e.evaluate = .pure v.readBack
  | null, _, _, _, hts, hdepth, _, _, _ | unknown, _, _, _, hts, hdepth, _, _, _
  | capsule _, _, _, _, hts, hdepth, _, _, _ =>
    value_name (fun _ => ⟨_, rfl, rfl⟩) hts hdepth
  | bool true, _, _, _, hts, hdepth, _, _, _ => value_name (fun _ => ⟨_, rfl, rfl⟩) hts hdepth
  | bool false, _, _, _, hts, hdepth, _, _, _ => value_name (fun _ => ⟨_, rfl, rfl⟩) hts hdepth
  | number n, _, _, _, hts, hdepth, _, _, _ => value_number n hts hdepth
  | string _, _, _, _, hts, hdepth, _, _, _ => value_string hts hdepth
  | list items, _, _, hv, hts, hdepth, F, _, rest | set items, _, _, hv, hts, hdepth, F, _, rest
  | tuple items, _, _, hv, hts, hdepth, F, _, rest =>
    value_sequence hts hdepth fun hinner hcloser hshort last =>
      elements_literals items hv hinner hcloser hshort F last rest
  | map entries, _, _, hv, hts, hdepth, F, _, rest
  | object entries, _, _, hv, hts, hdepth, F, _, rest =>
    value_dictionary hv.1 hts hdepth fun hinner hcloser hshort last =>
      entries_literals entries hv.2 hinner hcloser hshort F last rest

theorem elements_literals : ∀ (items : List Value) {ts : List Token} {closer : Token} {depth : Nat},
    Ordered.itemsOrdered items → ts.map Token.kind = commaKinds (literalKinds.itemKinds items) →
      closer.kind = .mark .closeBracket → ts.length + 1 ≤ depth →
        ∀ (F : Frame) (last : Pos) (rest : List Token),
          (Hcl.Parser.elements depth F ⟨last, ts ++ closer :: rest⟩).Yields (closer :: rest)
            fun es => Hcl.evaluateItems es = .pure (readBack.readItems items)
  | [], ts, closer, depth, _, hts, hcloser, hdepth, F, last, rest => by
    have hcloser : closer.kind.isCloser = true := by rw [hcloser]; rfl
    cases List.map_eq_nil_iff.1 hts
    cases depth with
    | zero => cases hdepth
    | succ depth =>
      refine (Hcl.Parser.elements_none hcloser).imp ?_
      rintro es rfl
      rfl
  | [v], ts, closer, depth, hitems, hts, hcloser, hdepth, F, last, rest => by
    have hcloser : closer.kind.isCloser = true := by rw [hcloser]; rfl
    have hts : ts.map Token.kind = v.literalKinds := hts
    cases depth with
    | zero => cases hdepth
    | succ depth =>
      have hitem := fun last =>
        value_literal v hitems.1 hts (Nat.le_of_succ_le_succ hdepth) F last (closer :: rest)
      have hstart : Hcl.Parser.StartsItem (ts ++ closer :: rest) :=
        startsItem_of_literal hts (closer :: rest)
      refine (Hcl.Parser.elements_last hstart hitem hcloser).imp ?_
      rintro es ⟨e, he, rfl⟩
      rw [Hcl.evaluateItems, he]
      rfl
  | v :: w :: vs, ts, closer, depth, hitems, hts, hcloser, hdepth, F, last, rest => by
    rcases List.map_eq_append_iff.1 hts with ⟨front, others, rfl, hfront, hothers⟩
    rcases List.map_eq_cons_iff.1 hothers with ⟨separator, back, rfl, hseparator, hback⟩
    cases depth with
    | zero => cases hdepth
    | succ depth =>
      simp only [List.length_append, List.length_cons] at hdepth
      -- The depth covers the tokens left, of the first item as well as of the others.
      have hfits : front.length ≤ depth := by omega
      have hfitsMore : back.length + 1 ≤ depth := by omega
      have hitem := fun last =>
        value_literal v hitems.1 hfront hfits F last (separator :: (back ++ closer :: rest))
      have hmore := fun last =>
        elements_literals (w :: vs) hitems.2 hback hcloser hfitsMore F last rest
      have hstart : Hcl.Parser.StartsItem (front ++ separator :: (back ++ closer :: rest)) :=
        startsItem_of_literal hfront _
      have hnext : Hcl.Parser.StartsItem (back ++ closer :: rest) :=
        startsItem_of_items hback (closer :: rest)
      rw [List.append_assoc, List.cons_append]
      refine (Hcl.Parser.elements_cons hstart hitem hseparator hnext hmore).imp ?_
      rintro es ⟨e, more, he, hmore, rfl⟩
      rw [Hcl.evaluateItems, he, hmore]
      rfl

theorem entries_literals : ∀ (entries : List (String × Value)) {ts : List Token} {closer : Token}
    {depth : Nat}, Ordered.entriesOrdered entries →
      ts.map Token.kind = commaKinds (literalKinds.entryKinds entries) →
        closer.kind = .mark .closeBrace → ts.length + 1 ≤ depth →
          ∀ (F : Frame) (last : Pos) (rest : List Token),
            (Hcl.Parser.objectEntries depth F ⟨last, ts ++ closer :: rest⟩).Yields rest fun x =>
              Hcl.Denotes (readBack.readEntries entries) x.1 ∧ x.2 = .closed
  | [], ts, closer, depth, _, hts, hcloser, hdepth, F, last, rest => by
    cases List.map_eq_nil_iff.1 hts
    cases depth with
    | zero => cases hdepth
    | succ depth =>
      refine (Hcl.Parser.objectEntries_none hcloser).imp ?_
      rintro ⟨es, closing⟩ ⟨rfl, rfl⟩
      exact ⟨.nil, rfl⟩
  | [(key, v)], ts, closer, depth, hentries, hts, hcloser, hdepth, F, last, rest => by
    rcases List.map_eq_cons_iff.1 hts with ⟨t, more, rfl, ht, hmore⟩
    rcases List.map_eq_cons_iff.1 hmore with ⟨u, us, rfl, hu, hus⟩
    simp only [List.length_cons] at hdepth
    -- One level of depth for the entry, one for its value.
    rcases Nat.exists_eq_add_of_le' (show 2 ≤ depth by omega) with ⟨depth, rfl⟩
    have hfits : us.length ≤ depth + 1 := by omega
    refine objectEntries_literal ht hu (fun last => value_literal v hentries.1 hus hfits F last _)
      fun k e last hk he => ?_
    refine (Hcl.Parser.behindValue_close hcloser).imp ?_
    rintro ⟨es, closing⟩ ⟨rfl, rfl⟩
    exact ⟨.cons ⟨hk, he⟩ .nil, rfl⟩
  | (key, v) :: kv :: entries, ts, closer, depth, hentries, hts, hcloser, hdepth, F, last, rest => by
    rcases List.map_eq_cons_iff.1 hts with ⟨t, more, rfl, ht, hmore⟩
    rcases List.map_eq_cons_iff.1 hmore with ⟨u, us, rfl, hu, hus⟩
    rcases List.map_eq_append_iff.1 hus with ⟨front, others, rfl, hfront, hothers⟩
    rcases List.map_eq_cons_iff.1 hothers with ⟨separator, back, rfl, hseparator, hback⟩
    simp only [List.length_cons, List.length_append] at hdepth
    rcases Nat.exists_eq_add_of_le' (show 2 ≤ depth by omega) with ⟨depth, rfl⟩
    have hfits : front.length ≤ depth + 1 := by omega
    have hfitsMore : back.length + 1 ≤ depth + 1 := by omega
    have hothers := fun last =>
      entries_literals (kv :: entries) hentries.2 hback hcloser hfitsMore F last rest
    rw [List.cons_append, List.cons_append, List.append_assoc, List.cons_append]
    refine objectEntries_literal ht hu (fun last => value_literal v hentries.1 hfront hfits F last _)
      fun k e last hk he => ?_
    refine (Hcl.Parser.behindValue_comma hseparator hothers).imp ?_
    rintro ⟨es, closing⟩ ⟨⟨more, hmore, rfl⟩, rfl⟩
    exact ⟨.cons ⟨hk, he⟩ hmore, rfl⟩

end

/-- An expression that is a literal. -/
theorem expression_literal {F : Frame} {last : Pos} {ts rest : List Token} (v : Value)
    (hv : v.Ordered) (hts : ts.map Token.kind = v.literalKinds) :
    (Hcl.Parser.expression F ⟨last, ts ++ rest⟩).Yields rest
      fun e => e.evaluate = .pure v.readBack := by
  have hdepth : ts.length ≤ 2 * (ts ++ rest).length + 2 := by
    rw [List.length_append]
    omega
  exact value_literal v hv hts hdepth F last rest

end Value

end Overlay
