import Overlay.Hcl.Expression

/-!
# Stepping through a reader

What the steps of a reader do at a place, one equation each: a reader that starts with a step is
the rest of it, at the place behind the step.
-/

namespace Overlay.Hcl.Parser

variable {α β : Type} {F : Frame} {c : Cursor}

@[simp] theorem pure_run (a : α) : (pure a : Parser α) F c = ⟨a, c, []⟩ := rfl

theorem bind_run (p : Parser α) (f : α → Parser β) :
    (p >>= f) F c =
      ⟨(f (p F c).value F (p F c).next).value, (f (p F c).value F (p F c).next).next,
        (p F c).faults ++ (f (p F c).value F (p F c).next).faults⟩ := rfl

/-- Readers one behind the other are one reader, however they are grouped. -/
instance : LawfulMonad Parser :=
  LawfulMonad.mk' Parser
    (fun p => by
      funext F c
      show (⟨(p F c).value, (p F c).next, (p F c).faults ++ []⟩ : Parsed _) = p F c
      rw [List.append_nil])
    (fun _ _ => rfl)
    (fun p f g => by
      funext F c
      rw [bind_run, bind_run, bind_run]
      simp only [bind_run, List.append_assoc])

theorem ite_bind (P : Prop) [Decidable P] (p q : Parser α) (f : α → Parser β) :
    (if P then p else q) >>= f = if P then p >>= f else q >>= f :=
  apply_ite (fun r : Parser α => r >>= f) P p q

/-- A reader without faults, and another one behind it. -/
theorem bind_silent {p : Parser α} {f : α → Parser β} {d : Cursor} {a : α}
    (h : p F c = ⟨a, d, []⟩) : (p >>= f) F c = f a F d := by
  rw [bind_run, h]
  rfl

@[simp] theorem peek_bind (f : Option Token → Parser β) :
    (peek >>= f) F c = f c.rest.head? F c := rfl

@[simp] theorem peekKind_bind (f : Option TokenKind → Parser β) :
    (peekKind >>= f) F c = f c.kind? F c := rfl

@[simp] theorem peekSecond_bind (f : Option TokenKind → Parser β) :
    (peekSecond >>= f) F c = f c.advance.kind? F c := rfl

@[simp] theorem move_bind (f : Cursor → Cursor) (g : Unit → Parser β) :
    (move f >>= g) F c = g () F (f c) := rfl

@[simp] theorem advance_bind (f : Unit → Parser β) : (advance >>= f) F c = f () F c.advance := rfl

@[simp] theorem newlines_bind (f : Unit → Parser β) :
    (newlines >>= f) F c = f () F c.skipNewlines := rfl

@[simp] theorem spanFrom_bind (start : Pos) (f : Span → Parser β) :
    (spanFrom start >>= f) F c = f ⟨start, c.last⟩ F c := rfl

/-- The span of the next token, or of the end. -/
def ahead (F : Frame) (c : Cursor) : Span := (c.rest.head?.map Token.span).getD F.ending

/-- How messages call the next token. -/
def name (F : Frame) (c : Cursor) : String := (found F c).value

@[simp] theorem lookahead_bind (f : Span → Parser β) :
    (lookahead >>= f) F c = f (ahead F c) F c := rfl

@[simp] theorem found_bind (f : String → Parser β) : (found >>= f) F c = f (name F c) F c := rfl

theorem reportAt_bind (span : Span) (fault : SyntaxFault) (f : Unit → Parser β) :
    (reportAt span fault >>= f) F c =
      ⟨(f () F c).value, (f () F c).next, ⟨fault, span⟩ :: (f () F c).faults⟩ := rfl

theorem report_bind (fault : SyntaxFault) (f : Unit → Parser β) :
    (report fault >>= f) F c =
      ⟨(f () F c).value, (f () F c).next, ⟨fault, ahead F c⟩ :: (f () F c).faults⟩ := rfl

@[simp] theorem atMark_bind (m : Mark) (f : Bool → Parser β) :
    (atMark m >>= f) F c = f (c.kind? == some (.mark m)) F c := rfl

theorem mark_bind (m : Mark) (f : Bool → Parser β) :
    (mark m >>= f) F c =
      if c.kind? = some (.mark m) then f true F c.advance else f false F c := by
  have hstep : (mark m >>= f) F c =
      ((if c.kind? == some (.mark m) then (do advance; return true)
        else return false : Parser Bool) >>= f) F c := rfl
  rw [hstep]
  by_cases h : c.kind? = some (.mark m)
  · simp only [h, beq_self_eq_true, if_true]
    rfl
  · have hb : (c.kind? == some (.mark m)) = false := by simpa using h
    simp only [h, hb, if_false]
    rfl

theorem comma_bind (f : Bool → Parser β) :
    (comma >>= f) F c =
      if c.skipNewlines.kind? = some (.mark .comma) then
        f true F c.skipNewlines.advance.skipNewlines
      else f false F c := by
  have hcomma : comma F c =
      if c.skipNewlines.kind? = some (.mark .comma) then
        ⟨true, c.skipNewlines.advance.skipNewlines, []⟩
      else ⟨false, c, []⟩ := rfl
  rw [bind_run, hcomma]
  split <;> rfl

theorem skipNewlines_of_ne {last : Pos} {t : Token} {ts : List Token}
    (h : t.kind.isNewline = false) :
    Cursor.skipNewlines ⟨last, t :: ts⟩ = ⟨last, t :: ts⟩ := by
  simp [Cursor.skipNewlines, Cursor.skipWhile, h]

theorem close_none {own : Mark} {fault : SyntaxFault} (h : c.kind? = none) :
    close own fault F c = ⟨.unclosed, c, []⟩ := by
  unfold close
  rw [peekKind_bind, h]
  rfl

/-! ## The parts of an object -/

/-- The last entry of an object, and the end of the object. -/
def lastEntry (entry : Entry) : Parser (List Entry × Closing) := do
  return ([entry], ← close .closeBrace .missingAttributeSeparator)

/-- An entry in front of its separator and the other entries. -/
def entryBefore (depth : Nat) (entry : Entry) : Parser (List Entry × Closing) := do
  advance
  let (entries, closing) ← objectEntries depth
  return (entry :: entries, closing)

/-- What comes behind the value of an entry. -/
def behindValue (depth : Nat) (entry : Entry) : Parser (List Entry × Closing) := do
  match ← peekKind with
  | some (.mark .comma) | some (.mark .newline) => entryBefore depth entry
  | _ => lastEntry entry

/-- The value behind a key and its separator, which comes next, and what comes behind it. -/
def entryValue (depth : Nat) (key : Key) : Parser (List Entry × Closing) := do
  advance
  let value ← value depth
  behindValue depth (.mk key value)

/-- What an object without a separator behind a key comes to. -/
def noSeparator : Parser (List Entry × Closing) := do
  report .missingKeyValueSeparator
  move (Cursor.skipToClose .closeBrace)
  return ([], .broken)

/-- What comes behind the key of an entry. -/
def behindKey (depth : Nat) (key : Key) : Parser (List Entry × Closing) := do
  match ← peekKind with
  | some (.mark .equals) | some (.mark .colon) => entryValue depth key
  | _ => noSeparator

theorem objectEntries_succ (depth : Nat) :
    objectEntries (depth + 1) = do
      newlines
      match ← peekKind with
      | none => return ([], .unclosed)
      | some k =>
        if startsKey k then behindKey depth (← keyOf (value depth) (steps depth))
        else return ([], ← close .closeBrace .invalidObjectKey) := by
  rw [objectEntries]
  rfl

theorem objectEntries_nil {depth : Nat} (h : c.rest = []) :
    objectEntries (depth + 1) F c = ⟨([], .unclosed), c, []⟩ := by
  rcases c with ⟨last, rest⟩
  cases h
  rw [objectEntries_succ]
  rfl

end Overlay.Hcl.Parser
