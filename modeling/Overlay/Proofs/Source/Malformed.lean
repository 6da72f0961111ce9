import Overlay.Source.Decoding
import Overlay.Proofs.Json.Places
import Overlay.Proofs.Text.Columns

/-!
# Malformed documents

The reader of a JSON file tells an error by its line and by the bytes that it has read of the line.
The readers of YAML and TOML files tell it by offsets, or without a place. What is reported is a
place in the file, or a range of it.

* `OnLine` says which line the error is on and where it starts, and every error is on a line
  (`exists_onLine`).
* `source_json_malformed` tells the place that is reported. The bytes are looked up as characters,
  so it is the place of the byte only if all characters of the line in front of it take one byte;
  behind a wider one it is too far to the right (`wideCharacter_misplaced`).
* `source_refused`: what is reported of a YAML or TOML file are the words of its reader, about a range
  between places of the file, whatever offsets the reader tells.
-/

namespace Overlay.Decoding

variable {addressing : Addressing} {filename content : String} {e : Json.ReadError}

/-- The place is on the given line of the file, which starts at the given byte, and it is not behind
the last byte of the line. -/
structure OnLine (content : String) (place : Json.Place) (start : Nat) (line : List Char) :
    Prop where
  number : 0 < place.line
  starts : (LineIndex.ofText content).lineStarts[place.line - 1]? = some start
  chars : (Text.splitAtChar '\n' content.toList)[place.line - 1]? = some line
  column : place.column ≤ Text.byteLength line

/-- The bytes of the line in front of the one that the place is about. A place in front of the whole
line is about its first byte. -/
def columnOffset (place : Json.Place) : Nat := max place.column 1 - 1

theorem exists_onLine (h : Json.parse? content = .error e) :
    ∃ before line after, content.toList = before ++ line ++ after ∧
      Text.IsLine before line after ∧ before.count '\n' + 1 = e.place.line ∧
      OnLine content e.place (Text.byteLength before) line := by
  rcases Json.isIn_of_parse? h with ⟨before, line, after, htext, hline, hnumber, hcolumn⟩
  have hindex : e.place.line - 1 = before.count '\n' := by omega
  refine ⟨before, line, after, htext, hline, hnumber, by omega, ?_, ?_, hcolumn⟩
  · rw [hindex, LineIndex.ofText, List.getElem?_toArray, htext, List.append_assoc,
      LineIndex.getElem?_starts hline.before]
  · rw [hindex, htext, hline.getElem?]

theorem source_json_error (h : Json.parse? content = .error e) :
    (source addressing filename content .json).diagnostics =
      [malformed filename .json e.message
        (.point filename (.ofLineColumn content e.place.line e.place.column))] := by
  have hdocument : jsonDocument filename content = .error (malformed filename .json e.message
      (.point filename (.ofLineColumn content e.place.line e.place.column))) := by
    rw [jsonDocument, h]
    rfl
  unfold source
  rw [hdocument]
  rfl

/-- A JSON file that is malformed is reported at one place. The place is on the line of the error,
as many characters into it as there are bytes in front of the error, or at the end of the line. So
it is the place of the error exactly if all these characters take one byte. -/
theorem source_json_malformed (h : Json.parse? content = .error e) :
    ∃ start line p, OnLine content e.place start line ∧
      (source addressing filename content .json).diagnostics =
        [malformed filename .json e.message (.point filename p)] ∧
      p = ⟨e.place.line, min (columnOffset e.place) line.length + 1,
        start + Text.byteLength (line.take (columnOffset e.place))⟩ ∧
      (p = .ofOffset content (start + columnOffset e.place) ↔
        ∀ c ∈ line.take (columnOffset e.place), c.utf8Size = 1) := by
  rcases exists_onLine h with ⟨before, line, after, htext, hline, hnumber, honline⟩
  have hoffset : columnOffset e.place = e.place.column - 1 := by
    unfold columnOffset
    omega
  have hplace := Pos.ofLineColumn_eq htext hline e.place.column
  have hexact := Pos.ofLineColumn_eq_ofOffset_iff htext hline honline.column
  rw [hnumber, ← hoffset] at hplace hexact
  have hnoend : '\n' ∉ line.take (columnOffset e.place) :=
    fun hmem => hline.line (List.mem_of_mem_take hmem)
  refine ⟨_, line, _, honline, source_json_error h, ?_, hexact⟩
  rw [hplace, Pos.advanceAll_lines hline.before hnoend, hnumber, List.length_take,
    Text.byteLength_append]

theorem source_json_malformed_secondLine :
    let addressing : Addressing := ⟨⟨"web"⟩, .hierarchical⟩
    let content := "\x7b\"é\": \"é\",\n \"b\" 1\x7d"
    let e : Json.ReadError := ⟨.expectedColon, ⟨2, 6⟩⟩
    Json.parse? content = .error e ∧ OnLine content e.place 13 " \"b\" 1\x7d".toList ∧
      (source addressing "o.json" content .json).diagnostics =
        [malformed "o.json" .json e.message (.point "o.json" (.ofOffset content (13 + 5)))] := by
  intro addressing content e
  have hparse : Json.parse? content = .error e := by decide +kernel
  have hstarts : (LineIndex.ofText content).lineStarts[1]? = some 13 := by decide +kernel
  have hchars : (Text.splitAtChar '\n' content.toList)[1]? = some " \"b\" 1\x7d".toList := by
    decide +kernel
  have hnarrow : ∀ c ∈ " \"b\" 1\x7d".toList.take 5, c.utf8Size = 1 :=
    Text.byteLength_le_length_iff.1 (by decide +kernel)
  rcases @source_json_malformed ⟨⟨"web"⟩, .hierarchical⟩ "o.json" content e hparse with
    ⟨start, line, p, honline, hreport, -, hexact⟩
  obtain rfl : 13 = start := Option.some.inj (hstarts.symm.trans honline.starts)
  obtain rfl : " \"b\" 1\x7d".toList = line := Option.some.inj (hchars.symm.trans honline.chars)
  have hplace : p = .ofOffset content (13 + 5) := hexact.2 hnarrow
  rw [hplace] at hreport
  exact ⟨hparse, honline, hreport⟩

/-- An error behind a wide character is reported one place too far to the right, which here is the
end of the file. -/
theorem wideCharacter_misplaced :
    let addressing : Addressing := ⟨⟨"web"⟩, .hierarchical⟩
    let content := "\x7b\"é\": \x7d"
    let e : Json.ReadError := ⟨.expectedValue, ⟨1, 8⟩⟩
    Json.parse? content = .error e ∧
      (LineIndex.ofText content).lineStarts[e.place.line - 1]? = some 0 ∧
      (source addressing "o.json" content .json).diagnostics =
        [malformed "o.json" .json e.message (.point "o.json" ⟨1, 8, 8⟩)] ∧
      Pos.ofOffset content (0 + columnOffset e.place) = ⟨1, 7, 7⟩ := by
  decide +kernel

/-! ## YAML and TOML -/

theorem isPlace_range (f : DocumentFault) (filename content : String) :
    Pos.IsPlace content (f.range filename content).start ∧
      Pos.IsPlace content (f.range filename content).stop := by
  unfold DocumentFault.range
  split
  · exact ⟨Pos.isPlace_ofOffset _ _, Pos.isPlace_ofOffset _ _⟩
  · exact ⟨Pos.isPlace_start _, Pos.isPlace_endOf _⟩

/-- A YAML or TOML file that its reader refuses has no overrides. It is reported in the words of the
reader, about a range between places of the file. -/
theorem source_refused {format : Format} {documents : DocumentReaders} {f : DocumentFault}
    (h : format = .yaml ∧ documents.yaml content = .error f ∨
      format = .toml ∧ documents.toml content = .error f) :
    (source addressing filename content format documents).diagnostics =
        [malformed filename format f.message (f.range filename content)] ∧
      (source addressing filename content format documents).overrides = .empty ∧
      Pos.IsPlace content (f.range filename content).start ∧
      Pos.IsPlace content (f.range filename content).stop := by
  have hreport : ∀ format, document addressing filename content format
      (otherDocument filename format content (.error f)) =
        ⟨.empty, [malformed filename format f.message (f.range filename content)]⟩ :=
    fun _ => rfl
  rcases h with ⟨rfl, hread⟩ | ⟨rfl, hread⟩
  all_goals
    unfold source
    dsimp only
    rw [hread, hreport]
    exact ⟨rfl, rfl, isPlace_range f filename content⟩

end Overlay.Decoding
