import Overlay.Proofs.Hcl.FlatLine
import Overlay.Proofs.Hcl.Recovery
import Overlay.Proofs.Hcl.WholeLines

/-!
# Bodies behind bodies

A text of whole lines in front of another one is read as it is read alone, and the other text behind it
as it is read alone, too.

* `Piece` says of tokens that they are read as one item, or as none, in front of any tokens. The lines
  of an item that is derived are a piece, and so is every line without groups.
* A text of pieces is read piece by piece (`Pieces.run`), and then what is behind it.
* So reading starts anew behind the text: at other places only, which `Parser.moves_topItems` tells,
  and with the lexemes of the other text (`Tokens.ofText_append`).
-/

namespace Overlay.Hcl

variable {k d : Nat} {F : Frame} {last : Pos} {t : Token} {ts us ws as : List Token}
  {its : List Item} {fs : List (Located SyntaxFault)}

namespace Parser

/-! ## Where reading starts -/

/-- Where the text in front ends does not matter for an item. -/
theorem itemOf_last {items : Parser (List Item)} (ht : t.kind.isNewline = false) (last' : Pos) :
    itemOf items F ⟨last, t :: ts⟩ = itemOf items F ⟨last', t :: ts⟩ := by
  have hskip : ∀ fault, skipItem fault F ⟨last, t :: ts⟩ = skipItem fault F ⟨last', t :: ts⟩ := by
    intro fault
    unfold skipItem
    rw [report_bind, report_bind, move_bind, move_bind]
    simp only [Cursor.recoverLine, Cursor.skipWhile, ht, Bool.not_false, if_true]
    rfl
  rcases t with ⟨kind, span⟩
  unfold itemOf
  rw [peek_bind, peek_bind]
  cases kind with
  | ident name => rfl
  | _ => exact hskip .definitionRequired

/-- Where the text in front ends does not matter for the items of a whole text. -/
theorem topItems_last (d : Nat) (last last' : Pos) :
    (topItems d F ⟨last, ts⟩).value = (topItems d F ⟨last', ts⟩).value ∧
      (topItems d F ⟨last, ts⟩).faults = (topItems d F ⟨last', ts⟩).faults := by
  cases d with
  | zero => exact ⟨rfl, rfl⟩
  | succ d =>
    unfold topItems
    rw [newlines_bind, newlines_bind]
    rcases ts with - | ⟨t, ts⟩
    · exact ⟨rfl, rfl⟩
    cases hline : t.kind.isNewline with
    | true =>
      -- Behind a line end both go on at the same place.
      have hskip : ∀ last, Cursor.skipNewlines ⟨last, t :: ts⟩ =
          Cursor.skipNewlines ⟨t.span.stop, ts⟩ := by
        intro last
        simp only [Cursor.skipNewlines, Cursor.skipWhile, hline, if_true]
      rw [hskip last, hskip last']
      exact ⟨rfl, rfl⟩
    | false =>
      have hitem : ∀ more : Option Item → Parser (List Item),
          (itemOf (items d) >>= more) F ⟨last, t :: ts⟩ =
            (itemOf (items d) >>= more) F ⟨last', t :: ts⟩ := by
        intro more
        rw [bind_run, bind_run, itemOf_last hline last']
      rw [skipNewlines_of_ne hline, skipNewlines_of_ne hline, peekKind_bind, peekKind_bind]
      rcases t with ⟨kind, span⟩
      cases kind with
      | mark mk =>
        cases mk with
        | closeBrace => exact ⟨rfl, rfl⟩
        | _ => exact ⟨congrArg Parsed.value (hitem _), congrArg Parsed.faults (hitem _)⟩
      | _ => exact ⟨congrArg Parsed.value (hitem _), congrArg Parsed.faults (hitem _)⟩

end Parser

/-! ## Pieces -/

/-- The tokens are the lines of one item, or of none: that is what is read of them, with these faults,
in front of any tokens and in any frame that ends behind the byte `k`. -/
structure Piece (k : Nat) (ts : List Token) (item : Option Item) (fs : List (Located SyntaxFault)) :
    Prop where
  opens : ∃ t us, ts = t :: us ∧ t.kind ≠ .mark .newline ∧ t.kind ≠ .mark .closeBrace
  run : ∃ stop, ∀ F : Frame, k ≤ F.fileEnd → ∀ d, ts.length ≤ d → ∀ last ws,
    Parser.itemOf (Parser.items d) F ⟨last, ts ++ ws⟩ = ⟨item, ⟨stop, ws⟩, fs⟩

/-- The tokens are pieces with line ends between them. -/
inductive Pieces (k : Nat) :
    List Token → List Item → List (Located SyntaxFault) → Prop
  | none {as : List Token} (has : LineEnds as) : Pieces k as [] []
  | cons {as us ts : List Token} {item : Option Item} {its : List Item}
      {fs more : List (Located SyntaxFault)} (has : LineEnds as) (hpiece : Piece k us item fs)
      (hmore : Pieces k ts its more) : Pieces k (as ++ us ++ ts) (item.toList ++ its) (fs ++ more)

/-- Pieces are read one by one, and then what is behind them. -/
theorem Pieces.run (h : Pieces k ts its fs) (hF : k ≤ F.fileEnd) (hd : ts.length + ws.length < d)
    (last : Pos) :
    ∃ e stop, ws.length < e ∧
      (Parser.topItems d F ⟨last, ts ++ ws⟩).value =
        its ++ (Parser.topItems e F ⟨stop, ws⟩).value ∧
      (Parser.topItems d F ⟨last, ts ++ ws⟩).faults =
        fs ++ (Parser.topItems e F ⟨stop, ws⟩).faults := by
  -- Along the pieces; each one leaves its own items and faults and hands on what stands behind it.
  induction h generalizing d last with
  | @none as has =>
    rcases Nat.exists_eq_add_of_le' (Nat.one_le_of_lt hd) with ⟨e, rfl⟩
    refine ⟨e + 1, stopAfter last as, (Nat.le_add_left _ _).trans_lt hd, ?_⟩
    unfold Parser.topItems
    rw [Parser.newlines_bind, Parser.newlines_bind, has.skip]
    exact ⟨rfl, rfl⟩
  | @cons as us ts item its fs more has hpiece hmore ih =>
    rcases Nat.exists_eq_add_of_le' (Nat.one_le_of_lt hd) with ⟨d, rfl⟩
    rcases hpiece.opens with ⟨t, vs, rfl, hnewline, hbrace⟩
    rcases hpiece.run with ⟨stop, hrun⟩
    simp only [List.length_append, List.length_cons] at hd
    -- The piece opens with no line break, so only the blank lines in front of it are skipped.
    have hskip : Cursor.skipNewlines ⟨last, as ++ t :: vs ++ ts ++ ws⟩ =
        ⟨stopAfter last as, t :: vs ++ (ts ++ ws)⟩ := by
      have htest : t.kind.isNewline = false := by simpa [TokenKind.isNewline] using hnewline
      rw [List.append_assoc, List.append_assoc, has.skip, List.cons_append,
        Parser.skipNewlines_of_ne htest]
    have hkind : (Cursor.skipNewlines ⟨last, as ++ t :: vs ++ ts ++ ws⟩).kind? = some t.kind := by
      rw [hskip]
      rfl
    have hitem := hrun F hF d (by simp only [List.length_cons]; omega) (stopAfter last as) (ts ++ ws)
    rcases @ih d (by omega) stop with ⟨e, final, he, hvalue, hfaults⟩
    refine ⟨e, final, he, ?_⟩
    rw [Parser.topItems_item hkind hbrace, hskip, Parser.bind_run, hitem]
    constructor
    · show item.toList ++ (Parser.topItems d F ⟨stop, ts ++ ws⟩).value = _
      rw [hvalue, List.append_assoc]
    · show fs ++ ((Parser.topItems d F ⟨stop, ts ++ ws⟩).faults ++ []) = _
      rw [List.append_nil, hfaults, List.append_assoc]

/-! ## Texts of pieces -/

/-- The tokens are of whole lines: the last one is a line end. -/
def EndsLines (ts : List Token) : Prop := ∀ t ∈ ts.getLast?, t.kind = .mark .newline

theorem EndsLines.right (h : EndsLines (ts ++ us)) : EndsLines us := by
  intro t ht
  refine h t ?_
  rw [List.getLast?_append, Option.mem_def.1 ht]
  rfl

theorem Pieces.newline (ht : t.kind = .mark .newline) (h : Pieces k ts its fs) :
    Pieces k (t :: ts) its fs := by
  cases h with
  | none has => exact .none (List.forall_mem_cons.2 ⟨ht, has⟩)
  | cons has hpiece hmore => exact .cons (List.forall_mem_cons.2 ⟨ht, has⟩) hpiece hmore

/-- The lines of a derived item are a piece. -/
theorem piece_of_isItem {item : Item} (hitem : IsItem us item) (ht : t.kind = .mark .newline) :
    Piece k (us ++ [t]) (some item) [] := by
  constructor
  · rcases opens_isItem _ _ hitem with ⟨u, vs, rfl, hnewline, hbrace⟩
    exact ⟨u, vs ++ [t], rfl, hnewline, hbrace⟩
  · refine ⟨t.span.stop, fun F _ d hd last ws => ?_⟩
    rw [List.length_append] at hd
    have hread : Parser.itemOf (Parser.items d) F ⟨last, us ++ ([t] ++ ws)⟩ =
        ⟨some item, ⟨stopAfter (stopAfter last us) [t], ws⟩, []⟩ :=
      Parser.itemOf_complete hitem (.inl ⟨t, rfl, ht⟩) last fun vs its hits hlt =>
        Parser.items_complete d hits (hlt.trans_le (Nat.le_of_add_right_le hd))
    rw [List.append_assoc]
    exact hread

/-- A body of whole lines is made of pieces. -/
theorem pieces_of_isBody (h : IsBody ts its) (hend : EndsLines ts) : Pieces k ts its [] := by
  induction h with
  | none has => exact .none has
  | last has ha =>
    -- The last line of an item is not ended by the item.
    rcases ha.exists_concat with ⟨front, t, rfl, ht⟩
    exact absurd (hend.right t (by simp)) ht
  | @cons as us vs t item more has ha ht hmore ih =>
    have hbehind : EndsLines (as ++ us ++ [t] ++ vs) := by
      rwa [List.append_assoc, List.singleton_append]
    have hpieces := Pieces.cons has (piece_of_isItem ha ht) (ih hbehind.right)
    simpa using hpieces

/-- A line without groups is a piece. -/
theorem piece_of_flatLine (hline : FlatLine k (t :: ts)) (ht : t.kind ≠ .mark .newline) :
    ∃ item fs, Piece k (t :: ts) item fs := by
  have hnewline : t.kind.isNewline = false := by simpa [TokenKind.isNewline] using ht
  have hbrace : t.kind ≠ .mark .closeBrace := by
    intro hbrace
    have hflat := hline.not_closer
    rw [hbrace] at hflat
    cases hflat
  rcases Parser.exists_item hline .start with ⟨item, stop, fs, hitem⟩
  refine ⟨item, fs, ⟨t, ts, rfl, ht, hbrace⟩, stop, fun F hF d _ last ws => ?_⟩
  rw [List.cons_append, Parser.itemOf_last hnewline .start]
  exact hitem F hF (Parser.items d) ws

/-- Tokens of whole lines without groups start with a line. -/
theorem exists_line (hne : ts ≠ [])
    (hflat : ∀ t ∈ ts, t.kind.isOpener = false ∧ t.kind.isCloser = false)
    (hbytes : ∀ t ∈ ts, t.span.start.byte < k) (hend : EndsLines ts) :
    ∃ line rest, ts = line ++ rest ∧ FlatLine k line := by
  induction ts with
  | nil => exact absurd rfl hne
  | cons t ts ih =>
    rcases List.forall_mem_cons.1 hflat with ⟨⟨hopener, hcloser⟩, hflat⟩
    rcases List.forall_mem_cons.1 hbytes with ⟨hbyte, hbytes⟩
    by_cases ht : t.kind = .mark .newline
    · exact ⟨[t], ts, rfl, .ending ht hbyte⟩
    · have hts : ts ≠ [] := by
        rintro rfl
        exact ht (hend t rfl)
      have hbehind : EndsLines ([t] ++ ts) := hend
      rcases ih hts hflat hbytes hbehind.right with ⟨line, rest, rfl, hline⟩
      have hkind : t.kind.isFlat = true := by
        simp [TokenKind.isFlat, TokenKind.isNewline, ht, hopener, hcloser]
      exact ⟨t :: line, rest, rfl, .cons hkind hbyte hline⟩

/-- Whole lines without groups are made of pieces. -/
theorem pieces_of_flat (hflat : ∀ t ∈ ts, t.kind.isOpener = false ∧ t.kind.isCloser = false)
    (hbytes : ∀ t ∈ ts, t.span.start.byte < k) (hend : EndsLines ts) :
    ∃ its fs, Pieces k ts its fs := by
  induction hlength : ts.length using Nat.strong_induction_on generalizing ts with
  | h n ih =>
    by_cases hne : ts = []
    · rw [hne]
      exact ⟨[], [], .none fun _ h => absurd h List.not_mem_nil⟩
    rcases exists_line hne hflat hbytes hend with ⟨line, rest, rfl, hline⟩
    rcases line with - | ⟨t, vs⟩
    · cases hline
    have hshort : rest.length < n := by
      rw [← hlength, List.length_append, List.length_cons]
      omega
    rcases ih _ hshort (fun u hu => hflat u (List.mem_append_right _ hu))
      (fun u hu => hbytes u (List.mem_append_right _ hu)) hend.right rfl with ⟨its, fs, hpieces⟩
    by_cases ht : t.kind = .mark .newline
    · -- An empty line stands in front of the next piece.
      have hnil := hline.eq_nil ht
      subst hnil
      exact ⟨its, fs, hpieces.newline ht⟩
    · rcases piece_of_flatLine hline ht with ⟨item, more, hpiece⟩
      exact ⟨_, _, .cons (fun _ h => absurd h List.not_mem_nil) hpiece hpieces⟩

/-! ## Whole texts -/

section

variable {text : String}

/-- The frame of a text behind a text of whole lines is its own, further on. -/
theorem Frame.ofText_moves (hend : text.toList.getLast? = some '\n') (more : String) :
    (Frame.ofText more).Moves (Pos.behind text) (Frame.ofText (text ++ more)) := by
  have hplace := Pos.endOf_append hend more
  constructor
  · unfold Frame.ofText
    rw [hplace]
    rfl
  · intro p
    unfold Frame.ofText
    rw [hplace]
    exact Nat.add_le_add_iff_right

/-- A text of pieces is read as these. -/
theorem Pieces.whole (h : Pieces k ts its fs) (hF : k ≤ F.fileEnd) (last : Pos) :
    (Parser.topItems (ts.length + 1) F ⟨last, ts⟩).value = its ∧
      (Parser.topItems (ts.length + 1) F ⟨last, ts⟩).faults = fs := by
  have hlt : ts.length + ([] : List Token).length < ts.length + 1 := Nat.lt_succ_self _
  rcases h.run hF hlt last with ⟨e, stop, he, hvalue, hfaults⟩
  rcases e with - | e
  · cases he
  · -- Nothing is behind the pieces, so nothing more is read.
    have hnone : Parser.topItems (e + 1) F ⟨stop, []⟩ = ⟨[], ⟨stop, []⟩, []⟩ :=
      Parser.topItems_nil rfl
    rw [hnone, List.append_nil, List.append_nil] at hvalue hfaults
    exact ⟨hvalue, hfaults⟩

/-- Behind pieces another text is read as it is read alone. -/
theorem Pieces.append (hend : text.toList.getLast? = some '\n')
    (h : Pieces text.utf8ByteSize ts its fs) (more : String) (us : List Token) :
    let moved := us.map (Token.mapSpan (Span.map (Pos.behind text)))
    let front := Parser.topItems ((ts ++ moved).length + 1) (.ofText (text ++ more))
      ⟨.start, ts ++ moved⟩
    let back := Parser.topItems (us.length + 1) (.ofText more) ⟨.start, us⟩
    front.value = its ++ back.value.map (Item.mapSpans (Span.map (Pos.behind text))) ∧
      front.faults = fs ++ back.faults.map (Located.mapSpan (Span.map (Pos.behind text))) := by
  intro moved front back
  have hF : text.utf8ByteSize ≤ (Frame.ofText (text ++ more)).fileEnd := by
    unfold Frame.ofText
    rw [Pos.endOf_byte, String.utf8ByteSize_append]
    exact Nat.le_add_right _ _
  have hlt : ts.length + moved.length < (ts ++ moved).length + 1 := by
    rw [List.length_append]
    exact Nat.lt_succ_self _
  -- The first text is over where the second begins, with depth enough left to read it.
  rcases h.run hF hlt .start with ⟨e, stop, he, hvalue, hfaults⟩
  have hdepth : us.length + 1 ≤ e := by
    rwa [List.length_map] at he
  have hread := Parser.moves_topItems (Frame.ofText_moves hend more) (Nat.le_refl _) hdepth
    ⟨.start, us⟩ (Nat.le_refl _)
  -- Where the first text stopped does not show in what is read behind it.
  rcases @Parser.topItems_last (.ofText (text ++ more)) moved e stop (Pos.behind text .start) with
    ⟨hsame, hsameFaults⟩
  have hmoved : Parser.topItems e (.ofText (text ++ more)) ⟨Pos.behind text .start, moved⟩ =
      ⟨back.value.map (Item.mapSpans (Span.map (Pos.behind text))),
        back.next.map (Pos.behind text),
        back.faults.map (Located.mapSpan (Span.map (Pos.behind text)))⟩ := hread.run
  rw [hsame, hmoved] at hvalue
  rw [hsameFaults, hmoved] at hfaults
  exact ⟨hvalue, hfaults⟩

/-- A text of whole lines whose comments and heredocs are closed, and which has either no diagnostics or
no groups, is read alike in front of any other text. -/
theorem exists_pieces (filename : String) (hend : text.toList.getLast? = some '\n')
    (hcloses : (Tokens.ofText text).Closes)
    (h : (Body.parse text filename).diagnostics = [] ∨ ∀ t ∈ (Tokens.ofText text).tokens,
      t.kind.isOpener = false ∧ t.kind.isCloser = false) :
    ∃ its fs, Pieces text.utf8ByteSize (Tokens.ofText text).tokens its fs := by
  have hlast : EndsLines (Tokens.ofText text).tokens := by
    rcases Tokens.exists_newline hend hcloses with ⟨ts, start, hts⟩
    intro t ht
    rw [hts, List.getLast?_concat] at ht
    cases ht
    rfl
  rcases h with hclean | hflat
  · rw [Body.parse_diagnostics, List.append_eq_nil_iff, List.map_eq_nil_iff,
      List.map_eq_nil_iff] at hclean
    rcases Parser.body_leaves hclean.2 with ⟨ts, hts, -, hnil, items, hitems, -⟩
    rw [hnil, List.append_nil] at hts
    rw [← hts] at hitems
    exact ⟨items, [], pieces_of_isBody hitems hlast⟩
  · exact pieces_of_flat hflat (Wrapped.start_lt_of_mem ⟨text⟩) hlast

/-- Faults that stand behind a text are diagnostics behind it. -/
theorem map_diagnostics_behind (text : String) {α : Type} {d : Located α → Diagnostic}
    (hd : ∀ f : Located α, d (f.mapSpan (Span.map (Pos.behind text))) =
      (d f).mapRanges (SourceRange.behind text)) (fs : List (Located α)) :
    (fs.map (Located.mapSpan (Span.map (Pos.behind text)))).map d =
      (fs.map d).map (Diagnostic.mapRanges (SourceRange.behind text)) := by
  rw [List.map_map, List.map_map]
  exact List.map_congr_left fun f _ => hd f

/-- A text of whole lines whose comments and heredocs are closed, and which has either no diagnostics or
no groups, and any other text behind it: the items are those of both texts, and so are the
diagnostics, up to their order. What is of the other text stands as many lines and bytes further on. -/
theorem Body.parse_append {filename : String} (hend : text.toList.getLast? = some '\n')
    (hcloses : (Tokens.ofText text).Closes)
    (h : (Body.parse text filename).diagnostics = [] ∨ ∀ t ∈ (Tokens.ofText text).tokens,
      t.kind.isOpener = false ∧ t.kind.isCloser = false) (more : String) :
    (Body.parse (text ++ more) filename).tree.items = (Body.parse text filename).tree.items ++
        (Body.parse more filename).tree.items.map (Item.mapSpans (Span.map (Pos.behind text))) ∧
      (Body.parse (text ++ more) filename).diagnostics.Perm
        ((Body.parse text filename).diagnostics ++
          (Body.parse more filename).diagnostics.mapRanges (SourceRange.behind text)) := by
  rcases exists_pieces filename hend hcloses h with ⟨its, fs, hpieces⟩
  have hF : text.utf8ByteSize ≤ (Frame.ofText text).fileEnd := (Pos.endOf_byte text).ge
  rcases hpieces.whole hF .start with ⟨hvalue, hfaults⟩
  rcases hpieces.append hend more (Tokens.ofText more).tokens with ⟨hvalues, hallFaults⟩
  have htokens := Tokens.ofText_append hend hcloses more
  have hall : (Tokens.ofText (text ++ more)).tokens = (Tokens.ofText text).tokens ++
      (Tokens.ofText more).tokens.map (Token.mapSpan (Span.map (Pos.behind text))) :=
    congrArg Tokens.tokens htokens
  have hlexical : (Tokens.ofText (text ++ more)).faults = (Tokens.ofText text).faults ++
      (Tokens.ofText more).faults.map (Located.mapSpan (Span.map (Pos.behind text))) :=
    congrArg Tokens.faults htokens
  constructor
  · rw [Body.parse_items, Body.parse_items, Body.parse_items, hvalue, hall]
    exact hvalues
  · rw [Body.parse_diagnostics, Body.parse_diagnostics, Body.parse_diagnostics, Parser.body_run.2,
      Parser.body_run.2, Parser.body_run.2, hfaults, hall, hallFaults, hlexical]
    have hlexicals := map_diagnostics_behind text (d := Located.lexicalDiagnostic filename)
      (fun _ => rfl) (Tokens.ofText more).faults
    have hsyntactic := map_diagnostics_behind text (d := Located.syntaxDiagnostic filename)
      (fun _ => rfl)
    -- Both texts report what is lexical first, so the reports differ in their order.
    rw [List.map_append, List.map_append, hlexicals, hsyntactic, Diagnostics.mapRanges,
      List.map_append, List.append_assoc, List.append_assoc]
    exact (List.perm_append_comm_assoc _ _ _).append_left _

/-- Lines that are malformed, in front of a block that is never closed. -/
theorem Body.parse_append_malformed :
    let text := "a = - # none\nb c\nd = e. 1\n"
    let more := "f \x7b\n  g = [1\n"
    (Tokens.ofText text).Closes ∧ (Body.parse text "v.hcl").diagnostics ≠ [] ∧
      (Body.parse (text ++ more) "v.hcl").tree.items = (Body.parse text "v.hcl").tree.items ++
        (Body.parse more "v.hcl").tree.items.map (Item.mapSpans (Span.map (Pos.behind text))) ∧
      (Body.parse (text ++ more) "v.hcl").diagnostics.Perm
        ((Body.parse text "v.hcl").diagnostics ++
          (Body.parse more "v.hcl").diagnostics.mapRanges (SourceRange.behind text)) := by
  intro text more
  have hcloses : (Tokens.ofText text).Closes := by
    have hfaults : (Tokens.ofText text).faults = [] := by decide +kernel
    intro f hf
    rw [hfaults] at hf
    cases hf
  have hflat : ∀ t ∈ (Tokens.ofText text).tokens,
      t.kind.isOpener = false ∧ t.kind.isCloser = false := by decide +kernel
  exact ⟨hcloses, by decide +kernel,
    Body.parse_append (by decide) hcloses (.inr hflat) more⟩

end

end Overlay.Hcl
