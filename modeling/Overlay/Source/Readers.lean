import Overlay.Source.FileTree
import Overlay.Source.Format
import Overlay.Text.Position
import Overlay.Toml.Dates
import Overlay.Yaml.Reader

/-!
# What files and documents are read with

A run reads files through the system, and YAML and TOML through readers that are not its own. Both
are given to it, as `Readers`; what is decoded and resolved with them does not depend on which they
are.

* A reader of documents gives the document of a text, or a fault in its own words. The fault says
  where in the text it is, if the reader knows.
* `DocumentReaders.standard` are the readers of this library. A tree of files is read with them.
-/

namespace Overlay

/-! ## Documents -/

/-- Why a text is no document. -/
structure DocumentFault where
  message : String
  /-- The offsets in the text between which the fault is. -/
  place : Option (Nat × Nat)
deriving DecidableEq, Repr

/-- The range that a fault is about in the file of the text: all of it if the fault has no place. -/
def DocumentFault.range (f : DocumentFault) (filename content : String) : SourceRange :=
  match f.place with
  | some (first, last) => ⟨filename, .ofOffset content first, .ofOffset content last⟩
  | none => .whole filename content

/-- What YAML and TOML texts are read with. Members of objects are given as they stand. -/
structure DocumentReaders where
  yaml : String → Except DocumentFault Json
  toml : String → Except DocumentFault Json

namespace DocumentReaders

/-- What a reader gives that says no more of the texts it refuses than their format. -/
def orMalformed (format : Format) : Option Json → Except DocumentFault Json
  | some x => .ok x
  | none => .error ⟨s!"it is not well-formed {format.label}", none⟩

/-- The readers of this library. -/
def standard : DocumentReaders where
  yaml text := orMalformed .yaml ((Yaml.parse? text).bind Yaml.Node.toJson?)
  toml text := orMalformed .toml (Toml.parseDated? text)

end DocumentReaders

/-! ## Files -/

/-- What a run reads with: a reader of files by their paths, and readers of documents. -/
structure Readers where
  file : String → Except ReadFault String
  documents : DocumentReaders

/-- The readers of a tree of files. -/
instance : Coe FileTree Readers := ⟨fun tree => ⟨tree.read, .standard⟩⟩

end Overlay
