import Overlay.Proofs.Hcl.Container
import Overlay.Proofs.Value.Reading
import Overlay.Source.Decoding

/-!
# Texts that assign literals

* `Assigns` says which variables and values the tokens of some lines assign. Keys are dotted names,
  values are literals.
* `Writes` says it of a piece of text, wherever it stands.
* `native_of_writes`: such a text is decoded without diagnostics, to one override for each line, in
  order. Each has the value of its literal.
-/

namespace Overlay.Decoding

open Hcl (Token TokenKind Frame Entry Key Parsed Reads Cursor)
open Hcl.Parser (StartsItem)

variable {addressing : Addressing} {kinds more : List TokenKind} {ps qs : List (Target × Value)}

/-! ## Tokens that assign values -/

/-- The tokens of a name behind a dot. -/
def dotKinds (name : String) : List TokenKind := [.mark .dot, .ident name]

/-- The tokens of an assignment with the end of its line. -/
def assignmentKinds (root : String) (names : List String) (v : Value) : List TokenKind :=
  .ident root :: (names.flatMap dotKinds ++ .mark .equals :: (v.literalKinds ++ [.mark .newline]))

/-- The kinds of tokens that make lines, and the variables and values that these lines assign. -/
inductive Assigns (addressing : Addressing) : List TokenKind → List (Target × Value) → Prop
  | nil : Assigns addressing [] []
  | newline {kinds : List TokenKind} {ps : List (Target × Value)}
    (h : Assigns addressing kinds ps) :
    Assigns addressing (.mark .newline :: kinds) ps
  | assignment {kinds : List TokenKind} {ps : List (Target × Value)} {root : String}
    {names : List String} {target : Target} (v : Value)
    (hkey : addressing.scheme.resolveKey addressing.root (root :: names) = .ok target)
    (h : Assigns addressing kinds ps) :
    Assigns addressing (assignmentKinds root names v ++ kinds) ((target, v) :: ps)

namespace Assigns

theorem append (h : Assigns addressing kinds ps) (hmore : Assigns addressing more qs) :
    Assigns addressing (kinds ++ more) (ps ++ qs) := by
  induction h with
  | nil => exact hmore
  | newline _ ih => exact .newline ih
  | assignment v hkey _ ih =>
    rw [List.append_assoc]
    exact .assignment v hkey ih

/-- Every assignment has tokens. -/
theorem length_le (h : Assigns addressing kinds ps) : ps.length ≤ kinds.length := by
  induction h with
  | nil => exact Nat.le_refl _
  | newline _ ih => exact Nat.le_succ_of_le ih
  | assignment v _ _ ih =>
    simp only [assignmentKinds, List.length_cons, List.length_append]
    omega

end Assigns

/-! ## Reading assignments -/

/-- Whether an entry assigns a value's literal to a variable. -/
def Sets (addressing : Addressing) (e : Entry) (p : Target × Value) : Prop :=
  ∃ segments, keySegments e.key = .ok segments ∧
    addressing.scheme.resolveKey addressing.root segments = .ok p.1 ∧
      e.value.evaluate = .pure p.2.readBack

section Tokens

variable {F : Frame} {last : Pos} {t : Token} {ts rest : List Token} {depth : Nat}

/-- Names behind dots are the steps of a key. -/
theorem steps_names : ∀ (names : List String) {ts : List Token} {depth : Nat},
    ts.map Token.kind = names.flatMap dotKinds → t.kind = .mark .equals → names.length < depth →
      ∀ (last : Pos), (Hcl.Parser.steps depth F ⟨last, ts ++ t :: rest⟩).Yields (t :: rest)
        fun ss => stepNames ss = .ok names
  | [], ts, depth, hts, ht, hdepth, last => by
    cases List.map_eq_nil_iff.1 hts
    cases depth with
    | zero => cases hdepth
    | succ depth =>
      refine (Hcl.Parser.steps_none (by simp [ht]) (by simp [ht])).imp ?_
      rintro ss rfl
      rfl
  | name :: names, ts, depth, hts, ht, hdepth, last => by
    rcases List.map_eq_cons_iff.1 hts with ⟨dot, us, rfl, hdot, hus⟩
    rcases List.map_eq_cons_iff.1 hus with ⟨word, vs, rfl, hword, hvs⟩
    rcases dot with ⟨kind, dotSpan⟩
    rcases word with ⟨kind, wordSpan⟩
    cases hdot
    cases hword
    cases depth with
    | zero => cases hdepth
    | succ depth =>
      have hmore := steps_names names hvs ht (Nat.lt_of_succ_lt_succ hdepth)
      have hstep : (Hcl.Parser.dotStep? dotSpan.start F ⟨last, ⟨.mark .dot, dotSpan⟩ ::
          ⟨.ident name, wordSpan⟩ :: (vs ++ t :: rest)⟩).Yields (vs ++ t :: rest)
            fun s => ∃ span, s = some (.attr name span) := ⟨rfl, rfl, _, rfl⟩
      rw [Hcl.Parser.steps, Hcl.Parser.peek_bind]
      refine Hcl.Parser.yields_bind hstep ?_
      rintro s last ⟨span, rfl⟩
      refine Hcl.Parser.yields_bind (hmore last) fun ss last hss => Hcl.Parser.yields_pure ?_
      rw [stepNames, hss]
      rfl

/-- The depth that a key is read with. -/
theorem entryKey_run (c : Cursor) : Hcl.Parser.entryKey F c =
    Hcl.Parser.keyOf (Hcl.Parser.value (2 * c.rest.length + 2))
      (Hcl.Parser.steps (2 * c.rest.length + 2)) F c := rfl

/-- The key of an assignment. -/
theorem entryKey_names {root : String} {names : List String} (ht : t.kind = .ident root)
    {u : Token} (hu : u.kind = .mark .equals) (hts : ts.map Token.kind = names.flatMap dotKinds) :
    (Hcl.Parser.entryKey F ⟨last, t :: (ts ++ u :: rest)⟩).Yields (u :: rest)
      fun key => keySegments key = .ok (root :: names) := by
  rcases t with ⟨kind, span⟩
  cases ht
  have hlength : ts.length = 2 * names.length := by
    rw [← List.length_map Token.kind, hts]
    simp [dotKinds, List.length_flatMap, Nat.mul_comm]
  have hdepth : names.length < 2 * (⟨.ident root, span⟩ :: (ts ++ u :: rest)).length + 2 := by
    rw [List.length_cons, List.length_append]
    omega
  rw [entryKey_run]
  refine (Hcl.Parser.keyOf_path (steps_names names hts hu hdepth) (by simp [hu])).imp ?_
  rintro key ⟨ss, whole, hss, rfl⟩
  simp only [keySegments, Hcl.Traversal.steps, Hcl.Traversal.root, hss]
  rfl

theorem endOfItem_newline (ht : t.kind = .mark .newline) :
    (Hcl.Parser.endOfItem F ⟨last, t :: rest⟩).Yields rest fun _ => True := by
  rcases t with ⟨kind, span⟩
  cases ht
  exact ⟨rfl, rfl, trivial⟩

/-- An assignment in front of others. -/
theorem assignments_cons {root : String} {names : List String} {v : Value} {R : List Entry → Prop}
    (hv : v.Ordered) (hts : ts.map Token.kind = assignmentKinds root names v)
    (hmore : ∀ last, (Hcl.Parser.assignments depth F ⟨last, rest⟩).Yields [] R) :
    (Hcl.Parser.assignments (depth + 1) F ⟨last, ts ++ rest⟩).Yields []
      fun es => ∃ e others, keySegments e.key = .ok (root :: names) ∧
        e.value.evaluate = .pure v.readBack ∧ R others ∧ es = e :: others := by
  -- The tokens of the line, one after another: the name, its path, `=`, the literal, the line end.
  rcases List.map_eq_cons_iff.1 hts with ⟨t, us, rfl, ht, hus⟩
  rcases List.map_eq_append_iff.1 hus with ⟨path, vs, rfl, hpath, hvs⟩
  rcases List.map_eq_cons_iff.1 hvs with ⟨equals, ws, rfl, hequals, hws⟩
  rcases List.map_eq_append_iff.1 hws with ⟨literal, ends, rfl, hliteral, hends⟩
  rcases List.map_eq_singleton_iff.1 hends with ⟨newline, rfl, hnewline⟩
  simp only [List.cons_append, List.append_assoc, List.nil_append]
  have hname : t.kind.isNewline = false := by rw [ht]; rfl
  have hstart : Hcl.Parser.startsKey t.kind = true := by rw [ht]; rfl
  rw [Hcl.Parser.assignments, Hcl.Parser.newlines_bind, Hcl.Parser.skipNewlines_of_ne hname,
    Hcl.Parser.peekKind_bind]
  simp only [Cursor.kind?, List.head?_cons, Option.map_some, hstart, if_true]
  refine Hcl.Parser.yields_bind (entryKey_names ht hequals hpath) fun key last hsegments => ?_
  rw [Hcl.Parser.mark_bind]
  simp only [Cursor.kind?, List.head?_cons, Option.map_some, hequals, if_true]
  refine Hcl.Parser.yields_bind (Value.expression_literal v hv hliteral) fun e last he => ?_
  refine Hcl.Parser.yields_bind (endOfItem_newline hnewline) fun _ last _ => ?_
  refine Hcl.Parser.yields_bind (hmore last) fun others last hothers => Hcl.Parser.yields_pure ?_
  exact ⟨.mk key e, others, hsegments, he, hothers, rfl⟩

theorem skipNewlines_cons (ht : t.kind = .mark .newline) :
    Cursor.skipNewlines ⟨last, t :: ts⟩ = Cursor.skipNewlines ⟨t.span.stop, ts⟩ := by
  simp [Cursor.skipNewlines, Cursor.skipWhile, ht, TokenKind.isNewline]

/-- The assignments of lines, with one line end behind them. -/
theorem assignments_assigns (h : Assigns addressing kinds ps) :
    ∀ {ts : List Token} {depth : Nat} (last : Pos), ts.map Token.kind = kinds →
      (∀ p ∈ ps, p.2.Ordered) → t.kind = .mark .newline → ps.length < depth →
        (Hcl.Parser.assignments depth F ⟨last, ts ++ [t]⟩).Yields []
          fun es => List.Forall₂ (Sets addressing) es ps := by
  -- Along the lines that are written; an empty line costs no depth.
  induction h with
  | nil =>
    intro ts depth last hts hps ht hdepth
    cases List.map_eq_nil_iff.1 hts
    cases depth with
    | zero => cases hdepth
    | succ depth =>
      rw [Hcl.Parser.assignments, Hcl.Parser.newlines_bind, List.nil_append, skipNewlines_cons ht]
      exact ⟨rfl, rfl, .nil⟩
  | newline _ ih =>
    intro ts depth last hts hps ht hdepth
    rcases List.map_eq_cons_iff.1 hts with ⟨newline, us, rfl, hnewline, hus⟩
    have hread := ih newline.span.stop hus hps ht hdepth
    cases depth with
    | zero => cases hdepth
    | succ depth =>
      rw [List.cons_append, Hcl.Parser.assignments_congr (skipNewlines_cons hnewline)]
      exact hread
  | assignment v hkey _ ih =>
    intro ts depth last hts hps ht hdepth
    rcases List.map_eq_append_iff.1 hts with ⟨line, others, rfl, hline, hothers⟩
    rw [List.forall_mem_cons] at hps
    cases depth with
    | zero => cases hdepth
    | succ depth =>
      rw [List.append_assoc]
      have hmore := fun last => ih last hothers hps.2 ht (Nat.lt_of_succ_lt_succ hdepth)
      refine (assignments_cons hps.1 hline hmore).imp ?_
      rintro es ⟨e, others, hsegments, he, hothers, rfl⟩
      exact .cons ⟨_, hsegments, hkey, he⟩ hothers

end Tokens

/-! ## Texts that assign values -/

/-- A piece of text that makes lines with these assignments. -/
def Writes (addressing : Addressing) (text : List Char) (ps : List (Target × Value)) : Prop :=
  ∃ kinds, Assigns addressing kinds ps ∧
    ∀ {rest ks}, Reads rest ks → Reads (text ++ rest) (kinds ++ ks)

namespace Writes

variable {text others : List Char}

theorem nil : Writes addressing [] [] := ⟨[], .nil, fun h => h⟩

theorem append (h : Writes addressing text ps) (hmore : Writes addressing others qs) :
    Writes addressing (text ++ others) (ps ++ qs) := by
  rcases h with ⟨kinds, hassigns, hreads⟩
  rcases hmore with ⟨more, hassignsMore, hreadsMore⟩
  refine ⟨kinds ++ more, hassigns.append hassignsMore, fun h => ?_⟩
  rw [List.append_assoc, List.append_assoc]
  exact hreads (hreadsMore h)

theorem newline : Writes addressing ['\n'] [] :=
  ⟨[.mark .newline], .newline .nil, fun h => Reads.mark rfl h⟩

/-- A line with a comment. -/
theorem comment {line : List Char} (h : '\n' ∉ line) :
    Writes addressing ('#' :: (line ++ ['\n'])) [] := by
  refine ⟨[.mark .newline], .newline .nil, fun {rest ks} hreads => ?_⟩
  have htext : '#' :: (line ++ ['\n']) ++ rest = '#' :: (line ++ '\n' :: rest) := by simp
  rw [htext]
  exact Reads.comment h hreads

end Writes

/-! ## Containers -/

/-- The tokens of a wrapped text. -/
theorem reads_wrapped {content : String}
    (h : ∀ {rest ks}, Reads rest ks → Reads (content.toList ++ rest) (kinds ++ ks)) :
    Reads (Hcl.Wrapped.text ⟨content⟩).toList
      (.ident Hcl.wrapperName :: .mark .equals :: .mark .openBrace :: .mark .newline ::
        (kinds ++ [.mark .newline, .mark .closeBrace, .mark .newline])) := by
  have hback : Reads Hcl.wrapperBack.toList [.mark .newline, .mark .closeBrace, .mark .newline] :=
    Reads.mark rfl (Reads.mark rfl (Reads.mark rfl Reads.nil))
  have hopen : Reads ('{' :: '\n' :: (content.toList ++ Hcl.wrapperBack.toList))
      (.mark .openBrace :: .mark .newline ::
        (kinds ++ [.mark .newline, .mark .closeBrace, .mark .newline])) :=
    Reads.mark rfl (Reads.mark rfl (h hback))
  have hequals := Reads.mark (c := '=') rfl (Reads.space hopen)
  have hspace := Reads.space hequals
  have htext : (Hcl.Wrapped.text ⟨content⟩).toList =
      Hcl.wrapperName.toList ++ (' ' :: '=' :: ' ' :: '{' :: '\n' ::
        (content.toList ++ Hcl.wrapperBack.toList)) := by
    rw [Hcl.Wrapped.text, String.toList_append, String.toList_append, List.append_assoc]
    rfl
  have hword : Value.IsWord Hcl.wrapperName := Value.isWord_of_isIdentifier (by decide +kernel)
  rw [htext]
  exact Value.spells_word hword (Hcl.apart_cons (by decide +kernel) (by decide) _) hspace

theorem splitContainer_brace {front : List Token} {brace newline : Token}
    (hbrace : brace.kind = .mark .closeBrace) (hnewline : newline.kind = .mark .newline) :
    Hcl.splitContainer (front ++ [brace, newline]) = (front, [brace, newline]) := by
  unfold Hcl.splitContainer
  simp [hbrace, hnewline, TokenKind.isNewline]

theorem containerHeader_yields {F : Frame} {last : Pos} {name equals opener : Token}
    {rest : List Token} (hname : name.kind = .ident Hcl.wrapperName)
    (hequals : equals.kind = .mark .equals) (hopener : opener.kind = .mark .openBrace) :
    (Hcl.Parser.containerHeader F ⟨last, name :: equals :: opener :: rest⟩).Yields rest
      fun x => ∃ span start, x = some (span, start) := by
  rcases name with ⟨kind, span⟩
  rcases equals with ⟨kind, equalsSpan⟩
  rcases opener with ⟨kind, openerSpan⟩
  cases hname
  cases hequals
  cases hopener
  exact ⟨rfl, rfl, _, _, rfl⟩

/-- The container of lines that assign values. -/
theorem container_assigns (text : String) {tokens : List Token} (h : Assigns addressing kinds ps)
    (hps : ∀ p ∈ ps, p.2.Ordered) (htokens : tokens.map Token.kind =
      .ident Hcl.wrapperName :: .mark .equals :: .mark .openBrace :: .mark .newline ::
        (kinds ++ [.mark .newline, .mark .closeBrace, .mark .newline])) :
    ∃ c, Hcl.Container.ofTokens text tokens = (some c, []) ∧
      List.Forall₂ (Sets addressing) c.entries ps := by
  rcases List.map_eq_cons_iff.1 htokens with ⟨name, us, rfl, hname, hus⟩
  rcases List.map_eq_cons_iff.1 hus with ⟨equals, vs, rfl, hequals, hvs⟩
  rcases List.map_eq_cons_iff.1 hvs with ⟨opener, ws, rfl, hopener, hws⟩
  rw [← List.cons_append] at hws
  rcases List.map_eq_append_iff.1 hws with ⟨lines, ends, rfl, hlines, hends⟩
  rcases List.map_eq_cons_iff.1 hends with ⟨lineEnd, braces, rfl, hlineEnd, hbraces⟩
  rcases List.map_eq_cons_iff.1 hbraces with ⟨brace, finals, rfl, hbrace, hfinals⟩
  rcases List.map_eq_singleton_iff.1 hfinals with ⟨final, rfl, hfinal⟩
  -- The brace and the line end behind it are cut off, and the last line keeps its own.
  have hsplit : Hcl.splitContainer
      (name :: equals :: opener :: (lines ++ [lineEnd, brace, final])) =
        (name :: equals :: opener :: (lines ++ [lineEnd]), [brace, final]) := by
    have hfront := @splitContainer_brace (name :: equals :: opener :: (lines ++ [lineEnd]))
      brace final hbrace hfinal
    simpa using hfront
  rcases @containerHeader_yields
    (.ofContainer text (name :: equals :: opener :: (lines ++ [lineEnd])) [brace, final]) .start
    name equals opener (lines ++ [lineEnd]) hname hequals hopener with
    ⟨-, hnext, span, start, hvalue⟩
  have hdepth : ps.length < (lines ++ [lineEnd]).length + 1 := by
    have hlength := h.newline.length_le
    rw [← hlines, List.length_map] at hlength
    rw [List.length_append]
    omega
  have hread := fun F last => assignments_assigns (F := F) h.newline last hlines hps hlineEnd hdepth
  unfold Hcl.Container.ofTokens
  rw [hsplit]
  simp only [Cursor.ofTokens, hvalue]
  generalize (Hcl.Parser.containerHeader _ _).next = next at hnext ⊢
  rcases next with ⟨last, rest⟩
  cases hnext
  refine ⟨_, Prod.ext rfl (hread _ last).faults, (hread _ last).value⟩

/-! ## Decoding -/

/-- Whether an assignment gives a variable a value: its key addresses the variable, and its expression
has the value. -/
structure Gives (addressing : Addressing) (e : Entry) (target : Target) (value : Value) : Prop where
  key : ∃ segments, keySegments e.key = .ok segments ∧
    addressing.scheme.resolveKey addressing.root segments = .ok target
  value : e.value.evaluate = .pure value

theorem Sets.gives {e : Entry} {p : Target × Value} (h : Sets addressing e p) :
    Gives addressing e p.1 p.2.readBack := by
  rcases h with ⟨segments, hsegments, hkey, hvalue⟩
  exact ⟨⟨segments, hsegments, hkey⟩, hvalue⟩

/-- Whether an override sets a variable to the value of a value's literal, and names no type. -/
def SetsLiteral (o : Override) (p : Target × Value) : Prop :=
  o.target = p.1 ∧ o.value = p.2.readBack ∧ o.type = none

/-- The record with one more override. -/
def Record.put (r : Record) (o : Override) : Record :=
  { r with overrides := ⟨r.overrides.entries ++ [o]⟩ }

section Records

variable (filename : String) (w : Hcl.Wrapped) {r : Record} {e : Entry} {p : Target × Value}

/-- An assignment of a variable that has no override yet is recorded, and nothing is reported. -/
theorem recordEntry_gives {target : Target} {value : Value} (he : Gives addressing e target value)
    (hfresh : r.overrides.get? target = none) :
    recordEntry addressing filename w r e = r.put ⟨target, value, none,
      w.unwrapRange ((e.key.span.upTo e.value.span).within filename), .file filename⟩ := by
  rcases he with ⟨⟨segments, hsegments, hkey⟩, hvalue⟩
  have hsilent : r.report
      (w.unwrapDiagnostics ((Evaluated.pure value).diagnostics filename)) = r := by
    show (⟨r.overrides, r.diagnostics ++ []⟩ : Record) = r
    rw [List.append_nil]
  have hnone : (w.unwrapDiagnostics ((Evaluated.pure value).diagnostics filename)).hasErrors =
      false := rfl
  unfold recordEntry
  simp only [hsegments, hvalue]
  rw [hnone, if_neg Bool.false_ne_true, Record.assign]
  simp only [Evaluated.pure] at hsilent ⊢
  rw [hsilent]
  simp only [hkey, OverrideSet.insert, hfresh]
  rfl

theorem recordEntry_sets (he : Sets addressing e p) (hr : r.diagnostics = [])
    (hfresh : r.overrides.get? p.1 = none) :
    ∃ o, SetsLiteral o p ∧
      recordEntry addressing filename w r e = ⟨⟨r.overrides.entries ++ [o]⟩, []⟩ := by
  have hput := recordEntry_gives filename w he.gives hfresh
  rw [Record.put, hr] at hput
  exact ⟨_, ⟨rfl, rfl, rfl⟩, hput⟩

/-- Assignments of different variables are all recorded, in order. -/
theorem foldl_recordEntry {es : List Entry} (h : List.Forall₂ (Sets addressing) es ps) :
    ∀ {r : Record}, r.diagnostics = [] → (ps.map Prod.fst).Nodup →
      (∀ p ∈ ps, r.overrides.get? p.1 = none) →
        ∃ os, List.Forall₂ SetsLiteral os ps ∧
          es.foldl (recordEntry addressing filename w) r = ⟨⟨r.overrides.entries ++ os⟩, []⟩ := by
  induction h with
  | nil =>
    rintro ⟨overrides, diagnostics⟩ rfl _ _
    refine ⟨[], .nil, ?_⟩
    simp
  | @cons e p es ps he _ ih =>
    intro r hr hnodup hfresh
    rw [List.forall_mem_cons] at hfresh
    rw [List.map_cons, List.nodup_cons] at hnodup
    rcases recordEntry_sets filename w he hr hfresh.1 with ⟨o, ho, hstep⟩
    -- The targets differ, so the override just put does not stand in the way of the later ones.
    have hnext : ∀ q ∈ ps, (OverrideSet.mk (r.overrides.entries ++ [o])).get? q.1 = none := by
      intro q hq
      have hne : ¬o.target = q.1 := by
        intro heq
        exact hnodup.1 (List.mem_map.2 ⟨q, hq, heq.symm.trans ho.1⟩)
      have hold : r.overrides.entries.find? (fun o => o.target = q.1) = none := hfresh.2 q hq
      rw [OverrideSet.get?, List.find?_append, hold]
      simp [hne]
    have hmore := @ih ⟨⟨r.overrides.entries ++ [o]⟩, []⟩ rfl hnodup.2 hnext
    rcases hmore with ⟨os, hos, hfold⟩
    refine ⟨o :: os, .cons ho hos, ?_⟩
    rw [List.foldl_cons, hstep, hfold]
    simp

end Records

/-- A text that assigns literals to different variables is decoded without diagnostics, to one
override for each assignment. -/
theorem native_of_writes {content filename : String}
    (h : Writes addressing content.toList ps) (hps : ∀ p ∈ ps, p.2.Ordered)
    (hnodup : (ps.map Prod.fst).Nodup) :
    ∃ os, List.Forall₂ SetsLiteral os ps ∧ native addressing filename content = ⟨⟨os⟩, []⟩ := by
  rcases h with ⟨kinds, hassigns, hreads⟩
  rcases (reads_wrapped hreads).ofText with ⟨hfaults, htokens⟩
  rcases container_assigns (Hcl.Wrapped.text ⟨content⟩) hassigns hps htokens with
    ⟨c, hcontainer, hentries⟩
  have hcontainer : Hcl.Container.ofTokens (Hcl.Wrapped.text ⟨content⟩)
      (Hcl.Tokens.ofText (Hcl.Wrapped.text ⟨content⟩)).tokens = (some c, []) := hcontainer
  have hparse : Hcl.Container.parse (Hcl.Wrapped.text ⟨content⟩) filename = ⟨some c, []⟩ := by
    simp only [Hcl.Container.parse, Hcl.Tokens.diagnostics, hfaults, hcontainer, List.map_nil,
      List.append_nil]
  rcases foldl_recordEntry filename ⟨content⟩ hentries (r := {}) rfl hnodup (fun _ _ => rfl) with
    ⟨os, hos, hfold⟩
  refine ⟨os, hos, ?_⟩
  simp only [native, hparse]
  exact hfold

end Overlay.Decoding
