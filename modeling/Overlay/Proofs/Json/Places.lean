import Overlay.Json.Reader
import Overlay.Proofs.Text.Columns
import Overlay.Proofs.Text.Lines

/-!
# Places of malformed JSON

A reader counts the line and the bytes of the line that it has read, so an error is on a line of the
text and not behind its end.

* `Scan.Of` says that a scan is what is left of a text, at the place that its front leads to. Every
  step keeps it (`Scan.Of.advance`).
* `Keeps` says of a result that what is left is of the text, and that an error has its place in the
  text (`Place.IsIn`). It goes through the steps of a reader (`Keeps.bind`), and there is one lemma
  for each part of a document.
* `isIn_of_parse?` is the run over a whole text.
-/

namespace Overlay.Json

open Text (WholeLines IsLine byteLength firstLine)

variable {α β : Type} {text : List Char} {s : Scan} {test : Char → Bool}

/-! ## Places in a text -/

/-- The place is on a line of the text, and not behind its last byte. -/
def Place.IsIn (text : List Char) (p : Place) : Prop :=
  ∃ before line after, text = before ++ line ++ after ∧ IsLine before line after ∧
    before.count '\n' + 1 = p.line ∧ p.column ≤ byteLength line

namespace Scan

/-- The scan is what is left of the text, at the place where that starts. -/
def Of (text : List Char) (s : Scan) : Prop :=
  ∃ lines last, text = lines ++ last ++ s.rest ∧ WholeLines lines ∧ '\n' ∉ last ∧
    s.place = ⟨lines.count '\n' + 1, byteLength last⟩

theorem of_ofText (text : String) : Of text.toList (ofText text) :=
  ⟨[], [], rfl, .inl rfl, List.not_mem_nil, rfl⟩

theorem Of.cons {p : Place} {c : Char} {cs : List Char} (h : Of text ⟨p, c :: cs⟩) :
    Of text ⟨p.advance c, cs⟩ := by
  rcases h with ⟨lines, last, htext, hlines, hlast, hplace⟩
  simp only at htext hplace
  by_cases hc : c = '\n'
  · subst hc
    refine ⟨lines ++ last ++ ['\n'], [], ?_, .inr ⟨_, rfl⟩, List.not_mem_nil, ?_⟩
    · rw [htext]
      simp
    · simp [Place.advance, hplace, List.count_eq_zero.2 hlast]
  · refine ⟨lines, last ++ [c], ?_, hlines, ?_, ?_⟩
    · rw [htext]
      simp
    · rw [List.mem_append, List.mem_singleton, not_or]
      exact ⟨hlast, Ne.symm hc⟩
    · simp [Place.advance, hplace, hc]

theorem Of.advance (h : s.Of text) : s.advance.Of text := by
  rcases s with ⟨p, rest⟩
  cases rest with
  | nil => exact h
  | cons c cs => exact h.cons

theorem Of.skipFrom {p : Place} {cs : List Char} (h : Of text ⟨p, cs⟩) :
    (skipFrom test p cs).Of text := by
  induction cs generalizing p with
  | nil => exact h
  | cons c cs ih =>
    rw [Scan.skipFrom]
    split
    · exact ih h.cons
    · exact h

theorem Of.skipBlanks (h : s.Of text) : s.skipBlanks.Of text := h.skipFrom

/-- The bytes of the line that are not read yet are places of the line too. -/
theorem Of.isIn_add (h : s.Of text) {bytes : Nat} (hbytes : bytes ≤ byteLength (firstLine s.rest)) :
    Place.IsIn text ⟨s.place.line, s.place.column + bytes⟩ := by
  rcases h with ⟨lines, last, htext, hlines, hlast, hplace⟩
  rcases Text.exists_rest s.rest with ⟨after, hrest, hafter⟩
  refine ⟨lines, last ++ firstLine s.rest, after, ?_, ⟨hlines, ?_, hafter⟩, ?_, ?_⟩
  · rw [htext, List.append_assoc, List.append_assoc, List.append_assoc, ← hrest]
  · rw [List.mem_append, not_or]
    exact ⟨hlast, Text.newline_not_mem_firstLine s.rest⟩
  · rw [hplace]
  · rw [hplace, Text.byteLength_append]
    exact Nat.add_le_add_left hbytes _

theorem Of.isIn_place (h : s.Of text) : s.place.IsIn text := h.isIn_add (Nat.zero_le _)

theorem Of.isIn_nextPlace (h : s.Of text) : s.nextPlace.IsIn text := by
  rcases s with ⟨p, rest⟩
  cases rest with
  | nil => exact h.isIn_place
  | cons c cs =>
    by_cases hc : c = '\n'
    · subst hc
      exact h.cons.isIn_place
    · have hpos := c.utf8Size_pos
      have hbyte : 1 ≤ byteLength (firstLine (c :: cs)) := by
        rw [Text.firstLine_cons hc, Text.byteLength_cons]
        omega
      have hplace : nextPlace ⟨p, c :: cs⟩ = ⟨p.line, p.column + 1⟩ := if_neg hc
      rw [hplace]
      exact h.isIn_add hbyte

theorem Of.isIn_placeAfterBytes {p : Place} {cs : List Char} (h : Of text ⟨p, cs⟩) (bytes : Nat) :
    (placeAfterBytes p bytes cs).1.IsIn text := by
  induction cs generalizing p bytes with
  | nil => exact h.isIn_place
  | cons c cs ih =>
    rw [placeAfterBytes]
    split_ifs with hzero hinside
    · exact h.isIn_place
    · -- The place is inside a character, which is no line end then.
      have hc : c ≠ '\n' := by
        rintro rfl
        have hsize : '\n'.utf8Size = 1 := rfl
        omega
      refine h.isIn_add ?_
      rw [Text.firstLine_cons hc, Text.byteLength_cons]
      omega
    · exact ih h.cons _

end Scan

/-! ## Results -/

/-- What is left behind a value is of the text, and so is the place of an error. -/
def Keeps (text : List Char) (left : α → Scan) : Except ReadError α → Prop
  | .ok x => (left x).Of text
  | .error e => e.place.IsIn text

theorem Keeps.bind {left : α → Scan} {left' : β → Scan} {r : Except ReadError α}
    {f : α → Except ReadError β} (h : Keeps text left r)
    (hf : ∀ x, (left x).Of text → Keeps text left' (f x)) : Keeps text left' (r >>= f) := by
  cases r with
  | error e => exact h
  | ok x => exact hf x h

theorem Keeps.map {left : α → Scan} {left' : β → Scan} {r : Except ReadError α} {f : α → β}
    (h : Keeps text left r) (hf : ∀ x, left' (f x) = left x) : Keeps text left' (r.map f) := by
  cases r with
  | error e => exact h
  | ok x =>
    show (left' (f x)).Of text
    rw [hf]
    exact h

/-! ## Digits of escapes -/

theorem mapM_eq_some {f : α → Option β} {xs : List α} {ys : List β} (h : xs.mapM f = some ys) :
    xs.length = ys.length ∧ ∀ x ∈ xs, ∃ y, f x = some y := by
  induction xs generalizing ys with
  | nil =>
    cases h
    exact ⟨rfl, fun _ hx => nomatch hx⟩
  | cons x xs ih =>
    rw [List.mapM_cons] at h
    rcases Option.bind_eq_some_iff.1 h with ⟨y, hy, h⟩
    rcases Option.bind_eq_some_iff.1 h with ⟨zs, hzs, h⟩
    cases h
    rcases ih hzs with ⟨hlength, heach⟩
    exact ⟨congrArg (· + 1) hlength, List.forall_mem_cons.2 ⟨⟨y, hy⟩, heach⟩⟩

theorem utf8Size_of_hexValue? {c : Char} {n : Nat} (h : hexValue? c = some n) :
    c.utf8Size = 1 := by
  have hle : c ≤ 'f' := by
    unfold hexValue? at h
    split_ifs at h with hdigit hlower hupper
    · exact Char.le_trans hdigit.2 (by decide)
    · exact hlower.2
    · exact Char.le_trans hupper.2 (by decide)
  rw [Char.utf8Size_eq_one_iff]
  exact UInt32.le_trans hle (by decide)

namespace Scan.Of

variable {left : α → Scan}

/-- Behind characters of one byte each there are as many bytes as characters. -/
theorem placeAfterDigits {p : Place} {cs ds rest : List Char} (h : Of text ⟨p, cs⟩)
    (hcs : cs = ds ++ rest) (hds : ∀ d ∈ ds, d.utf8Size = 1) :
    Of text ⟨(placeAfterBytes p ds.length cs).1, rest⟩ := by
  induction ds generalizing p cs with
  | nil =>
    rw [List.nil_append] at hcs
    subst hcs
    cases cs with
    | nil => exact h
    | cons c cs => exact h
  | cons d ds ih =>
    subst hcs
    rw [List.forall_mem_cons] at hds
    have hsize := hds.1
    rw [List.cons_append, List.length_cons, placeAfterBytes, if_neg (by omega), if_neg (by omega),
      hsize, Nat.add_sub_cancel]
    exact ih h.cons rfl hds.2

theorem fail (h : s.Of text) (fault : ReadFault) :
    Keeps text left (s.fail fault : Except ReadError α) := h.isIn_place

theorem failNext (h : s.Of text) (fault : ReadFault) :
    Keeps text left (s.failNext fault : Except ReadError α) := h.isIn_nextPlace

/-! ## Names and strings -/

theorem readName (h : s.Of text) (cs : List Char) : Keeps text id (readName s cs) := by
  induction cs generalizing s with
  | nil => exact h
  | cons c cs ih =>
    rw [Json.readName]
    split
    · exact h.fail _
    · split
      · exact ih h.advance
      · exact h.failNext _

theorem readHexEscape (h : s.Of text) : Keeps text Prod.snd (readHexEscape s) := by
  have hplace : (placeAfterBytes s.place 4 s.rest).1.IsIn text := isIn_placeAfterBytes h 4
  unfold Json.readHexEscape
  split
  next p missing hbytes =>
    rw [hbytes] at hplace
    split_ifs
    · exact hplace
    · split
      next a b c d hdigits =>
        -- Four digits are four bytes.
        rcases mapM_eq_some hdigits with ⟨hlength, heach⟩
        have hbehind := placeAfterDigits (h : Of text ⟨s.place, s.rest⟩)
          (List.take_append_drop 4 s.rest).symm fun c hc =>
            utf8Size_of_hexValue? (heach c hc).choose_spec
        rw [hlength] at hbehind
        simp only [List.length_cons, List.length_nil, hbytes] at hbehind
        exact hbehind
      next => exact hplace

theorem readPairMark (h : s.Of text) (mark : Char) : Keeps text id (readPairMark s mark) := by
  unfold Json.readPairMark
  split
  · exact h.fail _
  · split
    · exact h.advance
    · exact h.failNext _

theorem readCodeUnits (h : s.Of text) : Keeps text Prod.snd (readCodeUnits s) := by
  unfold Json.readCodeUnits
  refine h.readHexEscape.bind fun ⟨n, s⟩ h => ?_
  dsimp only at h ⊢
  split
  · exact h.fail _
  · split
    · exact h
    · refine (h.readPairMark _).bind fun s h => ?_
      refine (h.readPairMark _).bind fun s h => ?_
      refine h.readHexEscape.bind fun ⟨m, s⟩ h => ?_
      dsimp only at h ⊢
      split
      · exact h.fail _
      · exact h

theorem readEscape (h : s.Of text) : Keeps text Prod.snd (readEscape s) := by
  unfold Json.readEscape
  split
  · exact h.fail _
  · dsimp only
    split
    all_goals first
      | exact h.advance
      | exact h.advance.readCodeUnits
      | exact h.failNext _

theorem readString (h : s.Of text) (fuel : Nat) : Keeps text Prod.snd (readString fuel s) := by
  induction fuel generalizing s with
  | zero => exact h.fail _
  | succ fuel ih =>
    rw [Json.readString]
    split
    · exact h.fail _
    · split_ifs
      · exact h.advance
      · refine h.advance.readEscape.bind fun ⟨d, s⟩ h => ?_
        exact (ih h).bind fun _ h => h
      · exact h.failNext _
      · exact (ih h.advance).bind fun _ h => h

theorem readText (h : s.Of text) : Keeps text Prod.snd (readText s) :=
  (h.readString _).bind fun _ h => h

/-! ## Numbers -/

theorem readDigits {p : Place} {cs : List Char} (h : Of text ⟨p, cs⟩) (significand taken : Nat) :
    (readDigits significand taken p cs).2.2.2.Of text := by
  induction cs generalizing p significand taken with
  | nil => exact h
  | cons c cs ih =>
    rw [Json.readDigits]
    dsimp only
    split_ifs
    · exact h.skipFrom
    · exact ih h.cons _ _
    · exact h

theorem readExponentDigits {p : Place} {cs : List Char} (h : Of text ⟨p, cs⟩) (exponent : Nat) :
    (readExponentDigits exponent p cs).2.Of text := by
  induction cs generalizing p exponent with
  | nil => exact h
  | cons c cs ih =>
    rw [Json.readExponentDigits]
    dsimp only
    split_ifs
    · exact h.cons
    · exact ih h.cons _
    · exact h

theorem makeFloat (h : s.Of text) (negative : Bool) (significand : Nat) (exponent : Int) :
    Keeps text Prod.snd (makeFloat s negative significand exponent) := by
  unfold Json.makeFloat
  split
  · exact h
  · exact h.fail _

theorem readExponent (h : s.Of text) (negative : Bool) (significand : Nat) (before : Int) :
    Keeps text Prod.snd (readExponent s negative significand before) := by
  unfold Json.readExponent
  split
  next down s' hsign =>
    -- Whether or not a sign was read, the place is still one of the text.
    have hs' : s'.Of text := by
      split at hsign <;> cases hsign
      · exact h.advance
      · exact h.advance
      · exact h
    split
    · exact hs'.fail _
    · split
      · exact hs'.failNext _
      · have hdigits := @readExponentDigits text s'.place s'.rest hs' 0
        split
        next n s'' hread =>
          rw [hread] at hdigits
          exact makeFloat hdigits negative significand _
        next s'' hread =>
          rw [hread] at hdigits
          split
          · exact hdigits.fail _
          · exact skipFrom hdigits

theorem readScale (h : s.Of text) (negative : Bool) (significand : Nat) (exponent : Int) :
    Keeps text Prod.snd (readScale s negative significand exponent) := by
  unfold Json.readScale
  split
  · exact h.advance.readExponent _ _ _
  · exact h.advance.readExponent _ _ _
  · exact h.makeFloat _ _ _

theorem readFraction (h : s.Of text) (negative : Bool) (significand : Nat) (before : Int) :
    Keeps text Prod.snd (readFraction s negative significand before) := by
  unfold Json.readFraction
  split
  · exact h.failNext _
  · split
    · exact h.failNext _
    · exact (@readDigits text s.place s.rest h significand 0).readScale _ _ _

theorem readNumber (h : s.Of text) (negative : Bool) :
    Keeps text Prod.snd (readNumber s negative) := by
  unfold Json.readNumber
  split
  · exact h.fail _
  · split_ifs
    · exact h.failNext _
    · exact h.advance.failNext _
    · have hdigits := @readDigits text s.place s.rest h 0 0
      split
      next significand taken dropped s' hread =>
        rw [hread] at hdigits
        split
        · exact hdigits.advance.readFraction _ _ _
        · exact hdigits.advance.readExponent _ _ _
        · exact hdigits.advance.readExponent _ _ _
        · split
          · exact hdigits
          · exact hdigits.makeFloat _ _ _

/-! ## Documents -/

theorem nextItem (h : s.Of text) (first : Bool) : Keeps text Prod.fst (nextItem s first) := by
  have hs := h.skipBlanks
  unfold Json.nextItem
  dsimp only
  split
  · exact hs.failNext _
  · exact hs.advance
  · have hnext := hs.advance.skipBlanks
    split_ifs
    · exact hs
    · split
      · exact hnext.failNext _
      · exact hnext.failNext _
      · exact hnext
    · exact hs.failNext _

theorem nextMember (h : s.Of text) (first : Bool) : Keeps text Prod.fst (nextMember s first) := by
  have hs := h.skipBlanks
  unfold Json.nextMember
  dsimp only
  split
  · exact hs.failNext _
  · exact hs.advance
  · have hnext := hs.advance.skipBlanks
    split_ifs
    · exact hs.advance
    · exact hs.failNext _
    · split
      · exact hnext.failNext _
      · exact hnext.advance
      · exact hnext.failNext _
      · exact hnext.failNext _
    · exact hs.failNext _

theorem readColon (h : s.Of text) : Keeps text id (readColon s) := by
  have hs := h.skipBlanks
  unfold Json.readColon
  dsimp only
  split
  · exact hs.failNext _
  · exact hs.advance
  · exact hs.failNext _

/-- A document, the items of an array and the members of an object, each with one step less. -/
theorem readAll (fuel : Nat) :
    (∀ {s : Scan}, s.Of text → ∀ room, Keeps text Prod.snd (readValue fuel room s)) ∧
    (∀ {s : Scan}, s.Of text → ∀ room first,
      Keeps text Prod.snd (readItems fuel room first s)) ∧
    ∀ {s : Scan}, s.Of text → ∀ room first,
      Keeps text Prod.snd (readMembers fuel room first s) := by
  -- The three readers call each other, so the fuel counts down for all of them at once.
  induction fuel with
  | zero => exact ⟨fun h _ => h.fail _, fun h _ _ => h.fail _, fun h _ _ => h.fail _⟩
  | succ fuel ih =>
    rcases ih with ⟨hvalue, hitems, hmembers⟩
    refine ⟨fun {s} h room => ?value, fun {s} h room first => ?items,
      fun {s} h room first => ?members⟩
    case value =>
      have hs := h.skipBlanks
      rw [readValue]
      dsimp only
      split
      · exact hs.failNext _
      · split
        · exact (hs.advance.readName _).map fun _ => rfl
        · exact (hs.advance.readName _).map fun _ => rfl
        · exact (hs.advance.readName _).map fun _ => rfl
        · exact hs.advance.readNumber true
        · exact hs.advance.readText.map fun _ => rfl
        · split_ifs
          · exact hs.failNext _
          · exact (hitems hs.advance _ _).map fun _ => rfl
        · split_ifs
          · exact hs.failNext _
          · exact (hmembers hs.advance _ _).map fun _ => rfl
        · split_ifs
          · exact hs.readNumber false
          · exact hs.failNext _
    case items =>
      rw [readItems]
      refine (h.nextItem first).bind fun ⟨s, more⟩ hs => ?_
      dsimp only at hs ⊢
      split_ifs
      · refine (hvalue hs room).bind fun ⟨x, s⟩ hs => ?_
        exact (hitems hs room false).bind fun _ hs => hs
      · exact hs
    case members =>
      rw [readMembers]
      refine (h.nextMember first).bind fun ⟨s, more⟩ hs => ?_
      dsimp only at hs ⊢
      split_ifs
      · refine hs.readText.bind fun ⟨name, s⟩ hs => ?_
        refine hs.readColon.bind fun s hs => ?_
        refine (hvalue hs room).bind fun ⟨x, s⟩ hs => ?_
        exact (hmembers hs room false).bind fun _ hs => hs
      · exact hs

end Scan.Of

/-! ## Whole texts -/

theorem Scan.Of.readEnd (h : s.Of text) : Keeps text (fun _ => s) (readEnd s) := by
  unfold Json.readEnd
  dsimp only
  split_ifs
  · exact h
  · exact h.skipBlanks.failNext _

theorem keeps_parse? (content : String) :
    Keeps content.toList (fun _ => Scan.ofText content) (parse? content) := by
  have hstart := Scan.of_ofText content
  have hread : Keeps content.toList (fun _ => Scan.ofText content) (read content) := by
    unfold read
    refine ((Scan.Of.readAll _).1 hstart nestingLimit).bind fun ⟨x, s⟩ hs => ?_
    exact hs.readEnd.bind fun _ _ => hstart
  exact hread.map fun _ => rfl

/-- A text that is no document is refused at a place in it. -/
theorem isIn_of_parse? {content : String} {e : ReadError} (h : parse? content = .error e) :
    e.place.IsIn content.toList := by
  have hkeeps := keeps_parse? content
  rw [h] at hkeeps
  exact hkeeps

end Overlay.Json
