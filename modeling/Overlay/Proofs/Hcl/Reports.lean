import Overlay.Proofs.Hcl.Container
import Overlay.Proofs.Hcl.Lines

/-!
# Reports of wrapped texts

What is reported about a text made of items, as a body and as the content of a container.

* Where the container's end stands apart, the reports are the same after unwrapping.
* A comment at the end of the content swallows the container's end, and the last closing brace of
  the content is taken for it (`cutDiagnostics`).
* An introducer at the end of the content gets the end of its line from the container, and is
  reported as another fault.
-/

namespace Overlay.Hcl

open Wrapped (frontTokens backTokens shift shiftSpan)

/-! ## Faults -/

namespace Wrapped

variable {w : Wrapped}

theorem unwrapDiagnostics_append (w : Wrapped) (a b : Diagnostics) :
    w.unwrapDiagnostics (a ++ b) = w.unwrapDiagnostics a ++ w.unwrapDiagnostics b :=
  List.map_append

/-- Faults that stand for each other are the same diagnostics after unwrapping. -/
theorem unwrapDiagnostics_map {fs fs' : List (Located α)} {d : α → Diagnostic}
    (hd : ∀ x, (d x).context = none) (h : List.Forall₂ w.WrapsItem fs fs') (filename : String) :
    w.unwrapDiagnostics (fs'.map fun f => (d f.item).about (f.span.within filename)) =
      fs.map fun f => (d f.item).about (f.span.within filename) := by
  induction h with
  | nil => rfl
  | @cons f f' fs fs' hf _ ih =>
    have hrange := w.unwrapRange_within f'.span filename
    rw [unwraps_unwrapSpan hf.2] at hrange
    refine congrArg₂ List.cons ?_ ih
    simp [Diagnostic.mapRanges, Diagnostic.about, hf.1, hrange, hd]

theorem unwrapDiagnostics_faults {lexical lexical' : List (Located LexicalFault)}
    {syntactic syntactic' : List (Located SyntaxFault)}
    (hlexical : List.Forall₂ w.WrapsItem lexical lexical')
    (hsyntactic : List.Forall₂ w.WrapsItem syntactic syntactic') (filename : String) :
    w.unwrapDiagnostics (lexical'.map (Located.lexicalDiagnostic filename) ++
        syntactic'.map (Located.syntaxDiagnostic filename)) =
      lexical.map (Located.lexicalDiagnostic filename) ++
        syntactic.map (Located.syntaxDiagnostic filename) := by
  rw [unwrapDiagnostics_append]
  exact congrArg₂ List.append
    (unwrapDiagnostics_map (d := fun x : LexicalFault => .error x.category x.summary x.detail)
      (fun _ => rfl) hlexical filename)
    (unwrapDiagnostics_map (d := fun x : SyntaxFault => .error .malformed x.summary x.detail)
      (fun _ => rfl) hsyntactic filename)

end Wrapped

/-! ## Texts made of items -/

/-- The content is made of lines that are empty, a closing brace, or a name and an equals sign in
front of any tokens, none of which is a closing brace. -/
def MadeOfItems (content : String) : Prop :=
  StartsItem (Tokens.ofText content).tokens ∧ Itemized (Tokens.ofText content).tokens

/-- The items of a text whose last closing brace is taken for the end of a container; all of them if
its last token is none. -/
def cutItems (content : String) : Parsed (List Item) :=
  let (front, back) := splitContainer (Tokens.ofText content).tokens
  Parser.topItems (front.length + 1) (Frame.ofContainer content front back) ⟨.start, front⟩

/-- The diagnostics of a text whose last closing brace is taken for the end of a container. -/
def cutDiagnostics (content filename : String) : Diagnostics :=
  (Tokens.ofText content).diagnostics filename ++
    (cutItems content).faults.map (Located.syntaxDiagnostic filename)

section

variable {front back : List Token} {brace : Token}

/-- In front of a closing brace an item starts without it too. -/
theorem StartsItem.left (hbrace : brace.kind = .mark .closeBrace)
    (h : StartsItem (front ++ brace :: back)) : StartsItem front := by
  cases front with
  | nil => trivial
  | cons t ts =>
    rcases h with hline | hclose | ⟨name, hname, hequals⟩
    · exact .inl hline
    · exact .inr (.inl hclose)
    · cases ts with
      | nil =>
        have hkind : brace.kind = .mark .equals := Option.some.inj hequals
        rw [hbrace] at hkind
        cases hkind
      | cons u us => exact .inr (.inr ⟨name, hname, hequals⟩)

theorem Itemized.left (hbrace : brace.kind = .mark .closeBrace)
    (h : Itemized (front ++ brace :: back)) : Itemized front := by
  rintro t rest ⟨ts, rfl⟩ ht
  refine StartsItem.left hbrace (h t (rest ++ brace :: back) ⟨ts, ?_⟩ ht)
  rw [List.append_assoc, List.cons_append]

end

namespace Wrapped

variable {w : Wrapped}

theorem forall₂_dropNewlines {ts ts' : List Token} (h : List.Forall₂ w.WrapsToken ts ts') :
    List.Forall₂ w.WrapsToken (ts.dropWhile fun t => t.kind.isNewline)
      (ts'.dropWhile fun t => t.kind.isNewline) := by
  induction h with
  | nil => exact .nil
  | cons htoken hrest ih =>
    rw [List.dropWhile_cons, List.dropWhile_cons, ← htoken.kind.isNewline_eq]
    split
    · exact ih
    · exact .cons htoken hrest

/-- The content and the wrapped text are cut at the same token. -/
theorem splitContainer_wrapped {ts ts' : List Token} (h : List.Forall₂ w.WrapsToken ts ts') :
    (splitContainer ts = (ts, []) ∧
        splitContainer (frontTokens ++ ts') = (frontTokens ++ ts', [])) ∨
      ∃ rest rest' brace brace' ends ends', splitContainer ts = (rest.reverse, brace :: ends) ∧
        splitContainer (frontTokens ++ ts') = (frontTokens ++ rest'.reverse, brace' :: ends') ∧
        List.Forall₂ w.WrapsToken rest rest' ∧ w.WrapsToken brace brace' ∧
        brace.kind = .mark .closeBrace ∧ ts = rest.reverse ++ brace :: ends := by
  have hdrop := forall₂_dropNewlines (List.forall₂_reverse_iff.2 h)
  have hts : ts.reverse = ts.reverse.takeWhile (fun t => t.kind.isNewline) ++
      ts.reverse.dropWhile fun t => t.kind.isNewline := List.takeWhile_append_dropWhile.symm
  unfold splitContainer
  dsimp only
  rw [List.reverse_append, List.dropWhile_append]
  generalize ts.reverse.dropWhile (fun t => t.kind.isNewline) = dropped at hdrop hts ⊢
  generalize ts'.reverse.dropWhile (fun t => t.kind.isNewline) = dropped' at hdrop ⊢
  -- The last token that is no line break decides alone, and wrapping keeps its kind.
  cases hdrop with
  | nil => exact .inl ⟨rfl, rfl⟩
  | @cons brace brace' rest rest' htoken hrest =>
    have hkind := htoken.kind.mark_iff .closeBrace
    simp only [List.isEmpty_cons, Bool.false_eq_true, if_false, List.cons_append]
    by_cases hbrace : brace.kind = .mark .closeBrace
    · have hfront : (rest' ++ frontTokens.reverse).reverse = frontTokens ++ rest'.reverse := by
        rw [List.reverse_append, List.reverse_reverse]
      have hall := congrArg List.reverse hts
      rw [List.reverse_reverse, List.reverse_append, List.reverse_cons, List.append_assoc] at hall
      rw [if_pos hbrace, if_pos (hkind.1 hbrace), hfront]
      exact .inr ⟨rest, rest', brace, brace', _, _, rfl, rfl, hrest, htoken, hbrace, hall⟩
    · exact .inl ⟨if_neg hbrace, if_neg fun hbrace' => hbrace (hkind.2 hbrace')⟩

theorem ofContainer_ending (text : String) (front back : List Token) (brace : Token) :
    (Frame.ofContainer text front (brace :: back)).ending = brace.span := by
  unfold Frame.ofContainer
  cases front.getLast? <;> rfl

theorem ofContainer_concat (text : String) (front back : List Token) (t brace : Token) :
    (Frame.ofContainer text (front ++ [t]) (brace :: back)).fileEnd =
      if t.kind.isNewline then t.span.start.byte else brace.span.start.byte := by
  unfold Frame.ofContainer
  rw [List.getLast?_concat]

theorem byte_of_wrapsToken {t t' : Token} (h : w.WrapsToken t t')
    (ht : t ∈ (Tokens.ofText w.content).tokens) :
    t'.span.start.byte = t.span.start.byte + frontLength :=
  h.span.start.byte_eq (w.start_lt_of_mem t ht)

/-- The end of the wrapped text stands for the end of the content. -/
theorem wraps_ending (w : Wrapped) :
    w.WrapsSpan (Frame.ofText w.content).ending (Frame.ofText w.text).ending := by
  rw [Frame.ofText, Frame.ofText, w.endOf_text]
  exact ⟨w.wraps_endOf _, w.wraps_endOf _, Pos.le_refl _⟩

/-- Where nothing is cut, both sides end with their texts. -/
theorem fileEnd_whole (w : Wrapped) (ts' : List Token) {t : Token}
    (ht : t ∈ (Tokens.ofText w.content).tokens) :
    (Frame.ofContainer w.content (Tokens.ofText w.content).tokens []).fileEnd ≤ t.span.start.byte ↔
      (Frame.ofContainer w.text (frontTokens ++ ts') []).fileEnd ≤
        t.span.start.byte + frontLength := by
  have hbyte := w.start_lt_of_mem t ht
  have hend : (Pos.endOf w.text).byte = w.content.utf8ByteSize + frontLength + 3 := by
    rw [w.endOf_text, Pos.advanceAll_byte]
    simp only [shift, Pos.endOf_byte]
    rfl
  show (Pos.endOf w.content).byte ≤ _ ↔ (Pos.endOf w.text).byte ≤ _
  rw [hend, Pos.endOf_byte]
  omega

/-- Where a brace cuts the content, both sides end at the brace, or at the line end in front of it. -/
theorem fileEnd_cut {rest rest' ends ends' : List Token} {brace brace' t : Token}
    (hrest : List.Forall₂ w.WrapsToken rest rest') (htoken : w.WrapsToken brace brace')
    (hall : (Tokens.ofText w.content).tokens = rest.reverse ++ brace :: ends)
    (ht : t ∈ rest.reverse) :
    (Frame.ofContainer w.content rest.reverse (brace :: ends)).fileEnd ≤ t.span.start.byte ↔
      (Frame.ofContainer w.text (frontTokens ++ rest'.reverse) (brace' :: ends')).fileEnd ≤
        t.span.start.byte + frontLength := by
  have hbyte : brace'.span.start.byte = brace.span.start.byte + frontLength :=
    byte_of_wrapsToken htoken (by rw [hall]; simp)
  cases hrest with
  | nil => exact absurd ht List.not_mem_nil
  | @cons u u' us us' hlast _ =>
    have hshift := byte_of_wrapsToken hlast (by rw [hall]; simp)
    rw [List.reverse_cons, List.reverse_cons, ← List.append_assoc, ofContainer_concat,
      ofContainer_concat, ← hlast.kind.isNewline_eq, hshift, hbyte]
    split
    · exact (Nat.add_le_add_iff_right).symm
    · exact (Nat.add_le_add_iff_right).symm

/-- What the container of a text without its end reports. -/
theorem cutItems_faults {ts' : List Token} (hitems : MadeOfItems w.content)
    (htokens : (Tokens.ofText w.text).tokens = frontTokens ++ ts')
    (h : List.Forall₂ w.WrapsToken (Tokens.ofText w.content).tokens ts') :
    List.Forall₂ w.WrapsItem (cutItems w.content).faults
      (Container.ofTokens w.text (Tokens.ofText w.text).tokens).2 := by
  rcases hitems with ⟨hstart, hitemized⟩
  rw [htokens]
  rcases splitContainer_wrapped h with ⟨hplain, hwrapped⟩ |
    ⟨rest, rest', brace, brace', ends, ends', hplain, hwrapped, hrest, htoken, hbrace, hall⟩
  · -- No brace ends the content: both sides read all of it.
    rcases Container.ofTokens_front w.text hwrapped with ⟨c, hc, -⟩
    have hending : w.WrapsSpan
        (Frame.ofContainer w.content (Tokens.ofText w.content).tokens []).ending
        (Frame.ofContainer w.text (frontTokens ++ ts') []).ending := w.wraps_ending
    have halign := Sides.cut_aligned hending h (List.append_nil _).symm
      fun t ht => fileEnd_whole w ts' ht
    rw [cutItems, hplain, hc]
    exact Sides.items_agree (S := .cut w _ hending) hitemized (Nat.le_refl _)
      (by rw [h.length_eq]; omega) halign hstart
  · -- A last brace is cut off on both sides, and only the items in front of it are read.
    rcases Container.ofTokens_front w.text hwrapped with ⟨c, hc, -⟩
    rw [hall] at hstart hitemized
    have hending : w.WrapsSpan (Frame.ofContainer w.content rest.reverse (brace :: ends)).ending
        (Frame.ofContainer w.text (frontTokens ++ rest'.reverse) (brace' :: ends')).ending := by
      rw [ofContainer_ending, ofContainer_ending]
      exact htoken.span
    have hfront := List.forall₂_reverse_iff.2 hrest
    have halign := Sides.cut_aligned hending hfront hall
      fun t ht => fileEnd_cut hrest htoken hall ht
    rw [cutItems, hplain, hc]
    exact Sides.items_agree (S := .cut w _ hending) (hitemized.left hbrace) (Nat.le_refl _)
      (by rw [hfront.length_eq]; omega) halign (hstart.left hbrace)

/-! ## Ends of contents -/

/-- The content ends inside a block comment. -/
def EndsInComment (content : String) : Prop :=
  ∃ text, (Lexeme.split content.toList).getLast? = some ⟨.blockComment false, text⟩

/-- A comment that is never closed is the last lexeme. -/
theorem last_of_open {cs : List Char} {xs ys : List Lexeme} {x : Lexeme}
    (h : Lexeme.split cs = xs ++ x :: ys) (hx : x.shape = .blockComment false) : ys = [] := by
  induction cs using Lexeme.split_induction generalizing xs with
  | nil =>
    cases xs <;> cases h
  | cons c cs ih =>
    rw [Lexeme.split_cons] at h
    cases xs with
    | nil =>
      rcases List.cons.inj h with ⟨rfl, rfl⟩
      rw [rest_of_open hx]
      rfl
    | cons y xs => exact ih (List.cons.inj h).2

/-- A comment at the end of the content swallows the container's end. -/
theorem not_endsInComment_of_apart
    (h : Lexeme.split (w.content.toList ++ Lexeme.back) =
      Lexeme.split w.content.toList ++ Lexeme.split Lexeme.back) : ¬EndsInComment w.content := by
  rintro ⟨text, hlast⟩
  rcases List.getLast?_eq_some_iff.1 hlast with ⟨xs, hxs⟩
  rw [hxs, List.append_assoc] at h
  have hback := last_of_open h rfl
  exact absurd hback (by decide)

/-- Behind a heredoc there is no closing brace to cut at. -/
theorem cutItems_of_heredoc {content : String} {ts : List Token} {text : String} {span : Span}
    (h : (Tokens.ofText content).tokens = ts ++ [⟨.heredoc text, span⟩]) :
    cutItems content =
      Parser.topItems ((Tokens.ofText content).tokens.length + 1) (.ofText content)
        ⟨.start, (Tokens.ofText content).tokens⟩ := by
  have hsplit : splitContainer (Tokens.ofText content).tokens =
      ((Tokens.ofText content).tokens, []) := by
    rw [h]
    simp [splitContainer, TokenKind.isNewline]
  rw [cutItems, hsplit]
  rfl

/-- What is reported about a text made of items as the content of a container: the same as about a
body, but what stands in front of a comment at the end is cut at its last closing brace. -/
theorem unwrapDiagnostics_eq (hitems : MadeOfItems w.content)
    (hintro : ¬EndsInIntroducer w.content) (filename : String) :
    (¬EndsInComment w.content →
        w.unwrapDiagnostics (Container.parse w.text filename).diagnostics =
          (Body.parse w.content filename).diagnostics) ∧
      (EndsInComment w.content →
        w.unwrapDiagnostics (Container.parse w.text filename).diagnostics =
          cutDiagnostics w.content filename) := by
  rw [Container.parse_diagnostics, Body.parse_diagnostics, Parser.body_run.2]
  rcases Lexeme.split_append_back w.content.toList with hapart | ⟨xs, x, y, hx, hy, hextended⟩
  · refine ⟨fun _ => ?_, fun hcomment => absurd hcomment (not_endsInComment_of_apart hapart)⟩
    rcases container_apart hapart with ⟨c, d, hd, hc, -⟩
    rw [hc, ofText_apart w hapart]
    refine unwrapDiagnostics_faults (wrapsItem_map (Tokens.ofText_isStretch w.content).2) ?_ filename
    exact Sides.items_agree (S := .apart w unwraps_unwrapSpan) hitems.2 (Nat.le_refl _) hd
      (Sides.apart_aligned w _) hitems.1
  · have hlast : (Lexeme.split w.content.toList).getLast? = some x := by
      rw [hx, List.getLast?_concat]
    have hshape : x.shape ≠ .brokenHeredoc := by
      intro hshape
      cases hextended with
      | comment => cases hshape
      | heredoc => cases hshape
      | introducer indented marker text hword => exact hintro ⟨_, hlast, rfl, hword⟩
    rcases ofText_swallowed hx hy hextended hshape with ⟨⟨ts, hts, htokens⟩, hlexical⟩
    have hsyntax := cutItems_faults hitems hts htokens
    have hcut := unwrapDiagnostics_faults hlexical hsyntax filename
    cases hextended with
    | comment text => exact ⟨fun hno => absurd ⟨text, hlast⟩ hno, fun _ => hcut⟩
    | introducer => exact absurd rfl hshape
    | heredoc doc more text =>
      -- The last token is the heredoc, so nothing is cut.
      constructor
      · intro _
        rw [cutItems_of_heredoc (congrArg Tokens.tokens (ofText_concat hx))] at hcut
        exact hcut
      · rintro ⟨text, hcomment⟩
        rw [hlast] at hcomment
        cases hcomment

/-- A text made of items reports the same as a body and, after unwrapping, as the content of a
container, if and only if it does not end in an introducer, and the closing brace in front of a
comment at its end makes no difference. -/
theorem unwrapDiagnostics_items (hitems : MadeOfItems w.content) (filename : String) :
    w.unwrapDiagnostics (Container.parse w.text filename).diagnostics =
        (Body.parse w.content filename).diagnostics ↔
      ¬EndsInIntroducer w.content ∧
        (EndsInComment w.content → cutDiagnostics w.content filename =
          (Body.parse w.content filename).diagnostics) := by
  by_cases hintro : EndsInIntroducer w.content
  · -- The last lexical fault has another summary.
    have hne : w.unwrapDiagnostics (Container.parse w.text filename).diagnostics ≠
        (Body.parse w.content filename).diagnostics := by
      intro heq
      rcases ofText_introducer hintro with ⟨fs, span, fs', marker, span', hlength, hplain, hwrapped⟩
      rw [Container.parse_diagnostics, Body.parse_diagnostics, hplain, hwrapped] at heq
      have hsummary := congrArg (fun ds : Diagnostics => ds[fs.length]?.map Diagnostic.summary) heq
      simp [unwrapDiagnostics, Diagnostics.mapRanges, hlength] at hsummary
      have hsame : "Unterminated heredoc" = "Invalid heredoc introducer" := hsummary
      exact absurd hsame (by decide)
    exact ⟨fun heq => absurd heq hne, fun h => absurd hintro h.1⟩
  · rcases unwrapDiagnostics_eq hitems hintro filename with ⟨hplain, hcut⟩
    by_cases hcomment : EndsInComment w.content
    · rw [hcut hcomment]
      exact ⟨fun h => ⟨hintro, fun _ => h⟩, fun h => h.2 hcomment⟩
    · rw [hplain hcomment]
      exact ⟨fun _ => ⟨hintro, fun h => absurd h hcomment⟩, fun _ => rfl⟩

/-- A text made of lines that are blank, a comment, a closing brace, or a name and an equals sign in
front of a text without a closing brace reports the same as a body and, after unwrapping, as the
content of a container, if and only if it does not end in an introducer, and the closing brace in
front of a comment at its end makes no difference. The last line of a comment that goes over a line
end is such a line without the comment. -/
theorem unwrapDiagnostics_lines (w : Wrapped) (filename : String)
    (hlines : ∀ line ∈ Text.splitAtChar '\n' w.content.toList, ItemLine line)
    (hcomments : CommentsContinue true (Lexeme.split w.content.toList)) :
    w.unwrapDiagnostics (Container.parse w.text filename).diagnostics =
        (Body.parse w.content filename).diagnostics ↔
      ¬EndsInIntroducer w.content ∧
        (EndsInComment w.content → cutDiagnostics w.content filename =
          (Body.parse w.content filename).diagnostics) :=
  unwrapDiagnostics_items (makesItems_of_lines hlines hcomments .start) filename

/-- A text with an unclosed tuple, a closing brace too many and a missing line end. -/
theorem unwrapDiagnostics_lines_recovered :
    let content := "a = [1, # x\n\t\x7d \n\nb = 2 3\n"
    (Wrapped.mk content).unwrapDiagnostics
        (Container.parse (Wrapped.mk content).text "o.hcl").diagnostics =
      (Body.parse content "o.hcl").diagnostics := by
  intro content
  have hlast : (Lexeme.split content.toList).getLast? = some ⟨.mark .newline, ['\n']⟩ := by
    decide +kernel
  have hlines : ∀ line ∈ Text.splitAtChar '\n' content.toList, ItemLine line := by
    have hsplit : Text.splitAtChar '\n' content.toList =
        ["a = [1, # x".toList, "\t\x7d ".toList, [], "b = 2 3".toList, []] := by decide +kernel
    have hspace : ∀ c ∈ [' '], Lexeme.isSpace c = true := List.forall_mem_singleton.2 rfl
    rw [hsplit]
    simp only [List.forall_mem_cons]
    refine ⟨?_, ?_, .blank, ?_, .blank, nofun⟩
    · exact .definition 'a' [] [' '] " [1, # x".toList (by decide +kernel) nofun hspace (by decide)
    · exact .brace [' '] hspace
    · exact .definition 'b' [] [' '] " 2 3".toList (by decide +kernel) nofun hspace (by decide)
  have hcomments : CommentsContinue true (Lexeme.split content.toList) :=
    .of_forall (by decide +kernel)
  refine (unwrapDiagnostics_lines ⟨content⟩ "o.hcl" hlines hcomments).2 ⟨?_, ?_⟩
  · rintro ⟨x, hx, hshape, -⟩
    rw [hlast] at hx
    cases hx
    cases hshape
  · rintro ⟨text, hcomment⟩
    rw [hlast] at hcomment
    cases hcomment

/-- Without its comment the last line of this text starts a block, which a container does not
have. -/
example : (Wrapped.mk "/*\na = */ b \x7b").unwrapDiagnostics
      (Container.parse (Wrapped.mk "/*\na = */ b \x7b").text "o.hcl").diagnostics ≠
    (Body.parse "/*\na = */ b \x7b" "o.hcl").diagnostics := by
  decide +kernel

/-- A comment behind a closing brace takes the container's end away, and the brace is read as that;
an introducer at the end of a text gets the end of its line. -/
theorem container_end_changes_report :
    ((∀ line ∈ Text.splitAtChar '\n' "\x7d\n/*".toList, ItemLine line) ∧
      (Wrapped.mk "\x7d\n/*").unwrapDiagnostics
          (Container.parse (Wrapped.mk "\x7d\n/*").text "o.hcl").diagnostics ≠
        (Body.parse "\x7d\n/*" "o.hcl").diagnostics) ∧
    (∀ line ∈ Text.splitAtChar '\n' "a = <<EOT".toList, ItemLine line) ∧
      (Wrapped.mk "a = <<EOT").unwrapDiagnostics
          (Container.parse (Wrapped.mk "a = <<EOT").text "o.hcl").diagnostics ≠
        (Body.parse "a = <<EOT" "o.hcl").diagnostics := by
  refine ⟨⟨?_, by decide +kernel⟩, ?_, by decide +kernel⟩
  · have hsplit : Text.splitAtChar '\n' "\x7d\n/*".toList = [['}'], ['/', '*']] := by decide +kernel
    rw [hsplit]
    simp only [List.forall_mem_cons]
    exact ⟨.brace [] nofun, .opened [] rfl, nofun⟩
  · have hsplit : Text.splitAtChar '\n' "a = <<EOT".toList = ["a = <<EOT".toList] := by
      decide +kernel
    rw [hsplit, List.forall_mem_singleton]
    exact .definition 'a' [] [' '] " <<EOT".toList (by decide +kernel) nofun
      (List.forall_mem_singleton.2 rfl) (by decide)

end Wrapped

end Overlay.Hcl
