import Overlay.Hcl.Container
import Overlay.Identifier
import Overlay.Json.Reader
import Overlay.Source.Format
import Overlay.Source.Readers
import Overlay.Value.Evaluation
import Overlay.Value.OfJson
import Overlay.Variable.Basic

/-!
# Overrides from files and from single values

* A file is read by its suffix: as assignments of the configuration language, or as a JSON, YAML or
  TOML document whose top level is an object.
* Keys are addresses: dotted identifiers that the scheme resolves.
* A file with an error gives no overrides, but every problem in it is reported.
* A single value is taken as text where its variable holds text, as a number where it holds one, and
  as an expression otherwise.
-/

namespace Overlay

open Hcl (Key Entry Container Wrapped)
open Numeric (Number)

/-- A file that was decoded. It has no overrides if its diagnostics have errors. -/
structure DecodedFile where
  filename : String
  content : String
  overrides : OverrideSet
  diagnostics : Diagnostics

/-- The variables of every package. -/
abbrev VariableMap := Dict (Dict Variable)

/-- The variables of a package. -/
def VariableMap.package? (vars : VariableMap) (id : PackageId) : Option (Dict Variable) :=
  Dict.find? id.text vars

/-- A variable by its package and name. -/
def VariableMap.lookup? (vars : VariableMap) (target : Target) : Option Variable :=
  (vars.package? target.package).bind (Dict.find? target.variableName)

namespace Decoding

/-! ## Keys -/

/-- The diagnostic of a key that addresses nothing. -/
def invalidKey (detail : String) (subject : SourceRange) : Diagnostic :=
  (Diagnostic.error .invalidOverride "Invalid override key" detail).about subject

/-- The sentences about a key that is not made of identifiers. -/
def malformedKeyDetail (key : String) : String :=
  s!"{Text.inspect key} is not a valid override key. Keys are variable names, optionally " ++
    "prefixed by a dotted package path such as \"redis.port\"."

/-- The parts of a dotted key, if all of them are identifiers. -/
def dottedKey (key : String) : Except String (List String) :=
  let segments := Text.splitDots key
  if segments.all isIdentifier then .ok segments else .error (malformedKeyDetail key)

/-- The names behind the root of a traversal. -/
def stepNames : List Hcl.Step → Except String (List String)
  | [] => .ok []
  | .attr name _ :: rest => (stepNames rest).map (name :: ·)
  | .index _ _ :: _ => .error "Override keys may not contain index steps."

/-- The parts of an assignment's key. A key without quotes is taken as it is. -/
def keySegments : Key → Except String (List String)
  | .path t => (stepNames t.steps).map (t.root :: ·)
  | .expr (.string text _) => dottedKey text
  | .expr _ => .error "Override keys must be variable names or quoted strings."

/-! ## Recording overrides -/

/-- Overrides that were recorded, and the problems met. -/
structure Record where
  overrides : OverrideSet := .empty
  diagnostics : Diagnostics := []

namespace Record

/-- The record with more problems. -/
def report (r : Record) (ds : Diagnostics) : Record :=
  { r with diagnostics := r.diagnostics ++ ds }

/-- The record with an override of the variable that a key addresses. -/
def assign (r : Record) (addressing : Addressing) (filename : String) (segments : List String)
    (value : Value) (range keyRange : SourceRange) : Record :=
  match addressing.scheme.resolveKey addressing.root segments with
  | .error detail => r.report [invalidKey detail keyRange]
  | .ok target =>
    match r.overrides.insert ⟨target, value, none, range, .file filename⟩ with
    | .ok overrides => { r with overrides }
    | .error d => r.report [d]

/-- The file that a record is of. -/
def toFile (r : Record) (filename content : String) : DecodedFile :=
  ⟨filename, content, if r.diagnostics.hasErrors then .empty else r.overrides, r.diagnostics⟩

end Record

/-! ## Files of the configuration language -/

/-- The record with the assignment that comes next. -/
def recordEntry (addressing : Addressing) (filename : String) (w : Wrapped) (r : Record)
    (e : Entry) : Record :=
  let keyRange := w.unwrapRange (e.key.span.within filename)
  let range := w.unwrapRange ((e.key.span.upTo e.value.span).within filename)
  match keySegments e.key with
  | .error detail => r.report [invalidKey detail keyRange]
  | .ok segments =>
    let x := e.value.evaluate
    let ds := w.unwrapDiagnostics (x.diagnostics filename)
    if ds.hasErrors then r.report ds
    else (r.report ds).assign addressing filename segments x.result range keyRange

/-- The overrides of assignments in the configuration language. -/
def native (addressing : Addressing) (filename content : String) : Record :=
  let w : Wrapped := ⟨content⟩
  let x := Container.parse w.text filename
  let r := Record.report {} (w.unwrapDiagnostics x.diagnostics)
  match x.tree with
  | none => r
  | some c =>
    if r.diagnostics.hasErrors then r
    else c.entries.foldl (recordEntry addressing filename w) r

/-! ## Documents -/

/-- The diagnostic of a text that is malformed. -/
def malformed (filename : String) (format : Format) (message : String) (subject : SourceRange) :
    Diagnostic :=
  (Diagnostic.error .malformed s!"Invalid {format.label} syntax"
    s!"The file {filename} could not be parsed: {message}.").about subject

/-- The document of a JSON text. -/
def jsonDocument (filename content : String) : Except Diagnostic Json :=
  (Json.parse? content).mapError fun e =>
    malformed filename .json e.message
      (.point filename (.ofLineColumn content e.place.line e.place.column))

/-- The document of a text in some other format, as its reader gives it. The members of objects are
gathered as those of JSON are. -/
def otherDocument (filename : String) (format : Format) (content : String)
    (read : Except DocumentFault Json) : Except Diagnostic Json :=
  match read with
  | .ok x => .ok x.collapse
  | .error f => .error (malformed filename format f.message (f.range filename content))

/-- The record with the member that comes next. All ranges are the whole file's. -/
def recordMember (addressing : Addressing) (filename : String) (whole : SourceRange) (r : Record)
    (member : String × Json) : Record :=
  match dottedKey member.1 with
  | .error detail => r.report [invalidKey detail whole]
  | .ok segments => r.assign addressing filename segments (.ofJson member.2) whole whole

/-- The overrides of a document. An empty document has none. -/
def document (addressing : Addressing) (filename content : String) (format : Format)
    (parsed : Except Diagnostic Json) : Record :=
  let whole := SourceRange.whole filename content
  match parsed with
  | .error d => Record.report {} [d]
  | .ok .null => {}
  | .ok (.object members) => members.foldl (recordMember addressing filename whole) {}
  | .ok _ =>
    Record.report {} [(Diagnostic.error .malformed "Invalid override file"
      (s!"The top level of a {format.label} override file must be an object of " ++
        "variable values.")).about whole]

/-! ## Any file -/

/-- The overrides of a file with the content and format given. -/
def source (addressing : Addressing) (filename content : String) (format : Format)
    (documents : DocumentReaders := .standard) : DecodedFile :=
  let r := match format with
    | .native => native addressing filename content
    | .json => document addressing filename content format (jsonDocument filename content)
    | .yaml =>
      document addressing filename content format
        (otherDocument filename format content (documents.yaml content))
    | .toml =>
      document addressing filename content format
        (otherDocument filename format content (documents.toml content))
  r.toFile filename content

/-- The diagnostic of a file whose suffix says no format. -/
def unsupportedFile (filename : String) : Diagnostic :=
  (Diagnostic.error .unsupportedSourceFormat "Unsupported override file format"
    (s!"The file {filename} has an unrecognised suffix. Override files must end in " ++
      ".hcl, .vars, .json, .yaml, .yml, or .toml.")).about (.point filename .start)

/-- The diagnostic of a file that cannot be read. -/
def unreadableFile (filename : String) (f : ReadFault) : Diagnostic :=
  (Diagnostic.error .fileNotFound "Failed to read override file"
    s!"The file {filename} could not be read: {f.message}.").about (.point filename .start)

/-- The overrides of the file at `path`; a file that has no format or cannot be read is refused. -/
def file (addressing : Addressing) (readers : Readers) (path : String) :
    Except Diagnostic DecodedFile :=
  match Format.ofPath? path with
  | none => .error (unsupportedFile path)
  | some format =>
    match readers.file path with
    | .error f => .error (unreadableFile path f)
    | .ok content => .ok (source addressing path content format readers.documents)

/-! ## Single values -/

/-- The file name that diagnostics of a single value use. -/
def inlineName : OverrideSource → String
  | .file name => name
  | .environment key => s!"<env:{key}>"
  | .cli key => s!"<var:{key}>"

/-- The value of an expression in the text `raw`. -/
def inlineExpression (raw filename : String) : Except Diagnostics Value :=
  let x := Hcl.Expr.parse raw filename
  if x.diagnostics.hasErrors then .error x.diagnostics
  else
    let v := x.tree.evaluate
    let ds := x.diagnostics ++ v.diagnostics filename
    if ds.hasErrors then .error ds else .ok v.result

/-- The value of the text `raw` for a variable of the type given. -/
def inlineValue (type : Option ValueType) (raw filename : String) : Except Diagnostics Value :=
  match type with
  | none | some .any | some .string => .ok (.string raw)
  | some .number =>
    match Number.parse? (String.ofList (Text.trim raw.toList)) with
    | some n => .ok (.number n)
    | none => .ok (.string raw)
  | some _ => inlineExpression raw filename

/-- The override of a key and a text, read against the declared type of its variable. -/
def inline (addressing : Addressing) (declared : VariableMap) (source : OverrideSource)
    (key raw : String) : Except Diagnostics Override := do
  let filename := inlineName source
  let keyFault (detail : String) : Diagnostics := [invalidKey detail (.whole filename key)]
  let segments ← (dottedKey key).mapError keyFault
  let target ← (addressing.scheme.resolveKey addressing.root segments).mapError keyFault
  let type := (declared.lookup? target).bind Variable.type
  let value ← inlineValue type raw filename
  return ⟨target, value, type, .whole filename raw, source⟩

end Decoding

end Overlay
