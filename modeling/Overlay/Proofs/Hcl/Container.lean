import Overlay.Proofs.Hcl.Assignments

/-!
# Reading wrapped texts

A wrapped text is read as a container, its content as a body.

* Both readings start at aligned places: where the container's end stands apart from the content
  (`Sides.apart`), and where the content is cut at its own last closing brace (`Sides.cut`).
-/

namespace Overlay.Hcl

open Wrapped (frontTokens backTokens shift shiftSpan)

/-! ## The body and the container -/

namespace Parser

variable {F : Frame} {p : Pos} {ts : List Token}

theorem body_run :
    (body F ⟨p, ts⟩).value.items = (topItems (ts.length + 1) F ⟨p, ts⟩).value ∧
      (body F ⟨p, ts⟩).faults = (topItems (ts.length + 1) F ⟨p, ts⟩).faults := by
  cases ts with
  | nil => exact ⟨rfl, rfl⟩
  | cons t ts =>
    constructor
    · rfl
    · show [] ++ (([] ++ ((topItems _ F _).faults ++ ([] ++ []))) ++ []) = _
      simp
      rfl

theorem containerHeader_front :
    containerHeader F ⟨p, frontTokens ++ ts⟩ =
      ⟨some (⟨⟨1, 1, 0⟩, ⟨1, 14, 13⟩⟩, ⟨1, 17, 16⟩),
        ⟨⟨1, 18, 17⟩, ⟨.mark .newline, ⟨1, 18, 17⟩, ⟨2, 1, 18⟩⟩ :: ts⟩, []⟩ := by
  rfl

/-- Line ends in front of the assignments do not matter. -/
theorem assignments_congr {c c' : Cursor} (h : c.skipNewlines = c'.skipNewlines) (depth : Nat) :
    assignments (depth + 1) F c = assignments (depth + 1) F c' := by
  rw [assignments]
  simp only [newlines_bind, h]

end Parser

theorem splitContainer_backTokens (ts : List Token) (p : Pos) :
    splitContainer (ts ++ backTokens p) =
      (ts ++ (backTokens p).take 1, (backTokens p).drop 1) := by
  unfold splitContainer
  simp [backTokens, TokenKind.isNewline]

namespace Container

variable {tokens ts back : List Token}

/-- What is read behind the front of a container. -/
theorem ofTokens_front (text : String) (h : splitContainer tokens = (frontTokens ++ ts, back)) :
    ∃ c, Container.ofTokens text tokens =
        (some c, (Parser.assignments (ts.length + 2)
          (Frame.ofContainer text (frontTokens ++ ts) back) ⟨shift .start, ts⟩).faults) ∧
      c.entries = (Parser.assignments (ts.length + 2)
        (Frame.ofContainer text (frontTokens ++ ts) back) ⟨shift .start, ts⟩).value := by
  have hcongr : ∀ F d, Parser.assignments (d + 1) F
      ⟨⟨1, 18, 17⟩, ⟨.mark .newline, ⟨1, 18, 17⟩, ⟨2, 1, 18⟩⟩ :: ts⟩ =
        Parser.assignments (d + 1) F ⟨shift .start, ts⟩ :=
    fun F d => Parser.assignments_congr rfl d
  unfold Container.ofTokens
  rw [h]
  simp only [Cursor.ofTokens, Parser.containerHeader_front, List.length_cons, hcongr]
  exact ⟨_, rfl, rfl⟩

end Container

/-- All that is reported about a text is an error. -/
theorem isError_of_mem {lexical : List (Located LexicalFault)}
    {faults : List (Located SyntaxFault)} {filename : String} {d : Diagnostic}
    (hd : d ∈ lexical.map (Located.lexicalDiagnostic filename) ++
      faults.map (Located.syntaxDiagnostic filename)) : d.isError = true := by
  rcases List.mem_append.1 hd with hlexical | hsyntactic
  · rcases List.mem_map.1 hlexical with ⟨f, -, rfl⟩
    rfl
  · rcases List.mem_map.1 hsyntactic with ⟨f, -, rfl⟩
    rfl

theorem Container.parse_diagnostics (text filename : String) :
    (Container.parse text filename).diagnostics =
      (Tokens.ofText text).faults.map (Located.lexicalDiagnostic filename) ++
        (Container.ofTokens text (Tokens.ofText text).tokens).2.map
          (Located.syntaxDiagnostic filename) := rfl

theorem Container.parse_tree (text filename : String) :
    (Container.parse text filename).tree =
      (Container.ofTokens text (Tokens.ofText text).tokens).1 := rfl

theorem Body.parse_items (text filename : String) :
    (Body.parse text filename).tree.items =
      (Parser.topItems ((Tokens.ofText text).tokens.length + 1) (.ofText text)
        ⟨.start, (Tokens.ofText text).tokens⟩).value :=
  Parser.body_run.1

theorem Expr.parse_diagnostics (text filename : String) :
    (Expr.parse text filename).diagnostics =
      (Tokens.ofText text).faults.map (Located.lexicalDiagnostic filename) ++
        (Parser.loneExpression (.ofText text) ⟨.start, (Tokens.ofText text).tokens⟩).faults.map
          (Located.syntaxDiagnostic filename) := rfl

theorem Body.parse_diagnostics (text filename : String) :
    (Body.parse text filename).diagnostics =
      (Tokens.ofText text).faults.map (Located.lexicalDiagnostic filename) ++
        (Parser.body (.ofText text) ⟨.start, (Tokens.ofText text).tokens⟩).faults.map
          (Located.syntaxDiagnostic filename) := rfl

/-! ## The sides -/

namespace Wrapped

variable {w : Wrapped}

theorem Wraps.byte_eq {p p' : Pos} (h : w.Wraps p p') (hp : p.byte < w.content.utf8ByteSize) :
    p'.byte = p.byte + frontLength := by
  have hbyte := h.byte
  have hline := h.one_lt
  have hunwrap := h.unwrap
  unfold unwrapPos at hunwrap
  rw [if_neg (by omega)] at hunwrap
  split at hunwrap
  · rw [← hunwrap, Pos.endOf_byte] at hp
    exact absurd hp (Nat.lt_irrefl _)
  · rw [← hunwrap]
    exact (Nat.sub_add_cancel hbyte).symm

/-- Every token of the content starts in front of its end. -/
theorem start_lt_of_mem (w : Wrapped) :
    ∀ t ∈ (Tokens.ofText w.content).tokens, t.span.start.byte < w.content.utf8ByteSize := by
  intro t ht
  have hnonempty := (Tokens.ofText_inOrder w.content).byte_lt t ht
  have hstop := ((Tokens.ofText_isStretch w.content).1 t ht).stop_byte_le
  have hsize : Text.byteLength w.content.toList = w.content.utf8ByteSize := by
    have hend := Pos.endOf_byte w.content
    rw [Pos.endOf, Pos.advanceAll_byte] at hend
    exact (Nat.zero_add _).symm.trans hend
  rw [hsize] at hstop
  exact Nat.lt_of_lt_of_le hnonempty (hstop.trans (Nat.zero_add _).le)

theorem endOf_text (w : Wrapped) :
    Pos.endOf w.text = (shift (.endOf w.content)).advanceAll Lexeme.back := by
  have htext : w.text.toList = wrapperFront.toList ++ (w.content.toList ++ Lexeme.back) := by
    simp [text, Lexeme.back]
  rw [Pos.endOf, htext, Pos.advanceAll_append, Pos.advanceAll_append, ← shift_start,
    ← shift_steady.advanceAll]
  rfl

/-- The frame of the content in its container, where the container's end stands apart. -/
def containerFrame (w : Wrapped) : Frame :=
  ⟨⟨(shift (.endOf w.content)).advanceAll ['\n'],
    (shift (.endOf w.content)).advanceAll ['\n', '}']⟩, (shift (.endOf w.content)).byte⟩

theorem ofContainer_backTokens (text : String) (ts : List Token) (p : Pos) :
    Frame.ofContainer text (ts ++ (backTokens p).take 1) ((backTokens p).drop 1) =
      ⟨⟨p.advanceAll ['\n'], p.advanceAll ['\n', '}']⟩, p.byte⟩ := by
  simp [backTokens, Frame.ofContainer, TokenKind.isNewline]

end Wrapped

namespace Sides

/-- The sides where the container's end stands apart from the content. -/
def apart (w : Wrapped) {f : Span → Span} (hf : w.Unwraps f) : Sides where
  wrapped := w
  tokens := (Tokens.ofText w.content).tokens
  plain := .ofText w.content
  container := w.containerFrame
  exact := True
  unwrap := f
  ending := ⟨w.wraps_endOf _, w.wraps_endOf _, Pos.le_refl _⟩
  unwraps := hf

/-- The sides where the container's end is not there: its last closing brace is one of the content,
or it has none. -/
def cut (w : Wrapped) (front : List Token) {plain container : Frame}
    (h : w.WrapsSpan plain.ending container.ending) : Sides where
  wrapped := w
  tokens := front
  plain := plain
  container := container
  exact := False
  unwrap := w.unwrapSpan
  ending := h
  unwraps := Wrapped.unwraps_unwrapSpan

variable {S : Sides}

/-- Tokens that stand for each other, with what is left over behind them. -/
theorem Parallel.of_forall₂ {ts ts' back : List Token}
    (h : List.Forall₂ S.wrapped.WrapsToken ts ts')
    (hsame : S.exact → ts.map Token.kind = ts'.map Token.kind)
    (hbytes : ∀ t ∈ ts, t.span.start.byte < S.wrapped.content.utf8ByteSize)
    (hlate : ∀ t ∈ ts, S.plain.fileEnd ≤ t.span.start.byte ↔
      S.container.fileEnd ≤ t.span.start.byte + Wrapped.frontLength)
    (hback : S.Parallel [] back) : S.Parallel ts (ts' ++ back) := by
  induction h with
  | nil => exact hback
  | @cons t t' ts ts' token _ ih =>
    rcases List.forall_mem_cons.1 hbytes with ⟨hbyte, hbytes⟩
    rcases List.forall_mem_cons.1 hlate with ⟨hfirst, hlate⟩
    have hshift := token.span.start.byte_eq hbyte
    refine .cons token (fun hexact => (List.cons.inj (hsame hexact)).1) (by rw [hshift, hfirst]) ?_
    exact ih (fun hexact => (List.cons.inj (hsame hexact)).2) hbytes hlate

/-- The tokens at the front of the content, in order behind its start. -/
theorem within_start {w : Wrapped} {front back : List Token}
    (h : (Tokens.ofText w.content).tokens = front ++ back) :
    Cursor.Within front front.length .start ⟨.start, front⟩ := by
  have horder := Tokens.ofText_inOrder w.content
  rw [h] at horder
  exact ⟨Pos.le_refl _, horder.left, Nat.le_refl _, List.suffix_rfl⟩

theorem apart_aligned (w : Wrapped) {f : Span → Span} (hf : w.Unwraps f) :
    (apart w hf).Aligned (Tokens.ofText w.content).tokens.length .start
      ⟨.start, (Tokens.ofText w.content).tokens⟩
      ⟨shift .start, (Tokens.ofText w.content).tokens.map (Token.mapSpan shiftSpan) ++
        (backTokens (shift (.endOf w.content))).take 1⟩ := by
  refine ⟨?_, within_start (List.append_nil _).symm⟩
  refine Parallel.of_forall₂ (Wrapped.wrapsToken_map (Tokens.ofText_isStretch w.content).1)
    (fun _ => ?_) w.start_lt_of_mem (fun t _ => ?_) ?_
  · rw [List.map_map]
    rfl
  · show (Pos.endOf w.content).byte ≤ _ ↔ (shift (.endOf w.content)).byte ≤ _
    exact (Nat.add_le_add_iff_right).symm
  · exact .lineEnd _ rfl ⟨w.wraps_endOf [], w.wraps_endOf ['\n'], Pos.le_refl _⟩ (Nat.le_refl _)

theorem cut_aligned {w : Wrapped} {front front' back : List Token} {plain container : Frame}
    (hending : w.WrapsSpan plain.ending container.ending)
    (h : List.Forall₂ w.WrapsToken front front')
    (hfront : (Tokens.ofText w.content).tokens = front ++ back)
    (hlate : ∀ t ∈ front, plain.fileEnd ≤ t.span.start.byte ↔
      container.fileEnd ≤ t.span.start.byte + Wrapped.frontLength) :
    (cut w front hending).Aligned front.length .start ⟨.start, front⟩ ⟨shift .start, front'⟩ := by
  refine ⟨?_, within_start hfront⟩
  have hbytes : ∀ t ∈ front, t.span.start.byte < w.content.utf8ByteSize := by
    intro t ht
    refine w.start_lt_of_mem t ?_
    rw [hfront]
    exact List.mem_append_left _ ht
  have hrest := Parallel.of_forall₂ (S := cut w front hending) h False.elim hbytes hlate .nil
  rwa [List.append_nil] at hrest

end Sides

namespace Wrapped

variable {w : Wrapped}

/-- The container of a wrapped text whose end stands apart. Its entries are read with more depth than
there are tokens. -/
theorem container_read
    (h : Lexeme.split (w.content.toList ++ Lexeme.back) =
      Lexeme.split w.content.toList ++ Lexeme.split Lexeme.back) :
    ∃ c, Container.ofTokens w.text (Tokens.ofText w.text).tokens =
        (some c, (Parser.assignments ((Tokens.ofText w.content).tokens.length + 3) w.containerFrame
          ⟨shift .start, (Tokens.ofText w.content).tokens.map (Token.mapSpan shiftSpan) ++
            (backTokens (shift (.endOf w.content))).take 1⟩).faults) ∧
      c.entries = (Parser.assignments ((Tokens.ofText w.content).tokens.length + 3) w.containerFrame
        ⟨shift .start, (Tokens.ofText w.content).tokens.map (Token.mapSpan shiftSpan) ++
          (backTokens (shift (.endOf w.content))).take 1⟩).value := by
  have hsplit := splitContainer_backTokens
    (frontTokens ++ (Tokens.ofText w.content).tokens.map (Token.mapSpan shiftSpan))
    (shift (.endOf w.content))
  rw [List.append_assoc, List.append_assoc] at hsplit
  rcases Container.ofTokens_front w.text hsplit with ⟨c, hc, hentries⟩
  have hframe : Frame.ofContainer w.text
      (frontTokens ++ ((Tokens.ofText w.content).tokens.map (Token.mapSpan shiftSpan) ++
        (backTokens (shift (.endOf w.content))).take 1))
      ((backTokens (shift (.endOf w.content))).drop 1) = w.containerFrame := by
    rw [← List.append_assoc, ofContainer_backTokens]
    rfl
  have hlength : ((Tokens.ofText w.content).tokens.map (Token.mapSpan shiftSpan) ++
      (backTokens (shift (.endOf w.content))).take 1).length =
        (Tokens.ofText w.content).tokens.length + 1 := by
    rw [List.length_append, List.length_map]
    rfl
  rw [hframe, hlength] at hc hentries
  -- Only now the text: its tokens are the front, the moved content and the closing brace.
  rw [ofText_apart w h]
  exact ⟨c, hc, hentries⟩

theorem container_apart
    (h : Lexeme.split (w.content.toList ++ Lexeme.back) =
      Lexeme.split w.content.toList ++ Lexeme.split Lexeme.back) :
    ∃ c, ∃ d, (Tokens.ofText w.content).tokens.length + 1 ≤ d ∧
      Container.ofTokens w.text (Tokens.ofText w.text).tokens =
        (some c, (Parser.assignments d w.containerFrame ⟨shift .start,
          (Tokens.ofText w.content).tokens.map (Token.mapSpan shiftSpan) ++
            (backTokens (shift (.endOf w.content))).take 1⟩).faults) ∧
      c.entries = (Parser.assignments d w.containerFrame ⟨shift .start,
        (Tokens.ofText w.content).tokens.map (Token.mapSpan shiftSpan) ++
          (backTokens (shift (.endOf w.content))).take 1⟩).value := by
  rcases container_read h with ⟨c, hc, hentries⟩
  exact ⟨c, _, by omega, hc, hentries⟩

end Wrapped

end Overlay.Hcl
