import Overlay.Text.Position

/-!
# Diagnostics

* `Diagnostic` is one reported problem: how severe it is, of which `Category`, a short summary,
  a sentence of detail, the range it is about and a wider range around it.
* A run reports all the problems it meets, in the order in which it meets them, as a list.
-/

namespace Overlay

/-- How severe a problem is. -/
inductive Severity where
  | error
  | warning
deriving DecidableEq, Repr

/-- What kind of problem is reported. -/
inductive Category where
  /-- Malformed text of some format. -/
  | malformed
  /-- A name that is no identifier. -/
  | invalidIdentifier
  /-- A default that does not convert to its declared type. -/
  | invalidDeclaredDefault
  /-- An override of a variable that is not declared. -/
  | missingRootDeclaration
  /-- One variable defined twice by distinct sources. -/
  | duplicateDefinition
  /-- An override whose value does not convert to the variable's type. -/
  | invalidValueForType
  /-- A source whose format is not known. -/
  | unsupportedSourceFormat
  /-- A source that cannot be read. -/
  | fileNotFound
  /-- A value that has no native form. -/
  | conversionFailure
  /-- A malformed entry, such as a key that is no address. -/
  | invalidOverride
  /-- A well-formed construct that has no place here. -/
  | unsupportedConstruct
deriving DecidableEq, Repr

namespace Category

/-- Every category. -/
def all : List Category :=
  [malformed, invalidIdentifier, invalidDeclaredDefault, missingRootDeclaration,
    duplicateDefinition, invalidValueForType, unsupportedSourceFormat, fileNotFound,
    conversionFailure, invalidOverride, unsupportedConstruct]

/-- The name a category is written with. -/
def label : Category → String
  | malformed => "syntax"
  | invalidIdentifier => "invalid-identifier"
  | invalidDeclaredDefault => "invalid-declared-default"
  | missingRootDeclaration => "missing-root-declaration"
  | duplicateDefinition => "duplicate-definition"
  | invalidValueForType => "invalid-value-for-type"
  | unsupportedSourceFormat => "unsupported-source-format"
  | fileNotFound => "file-not-found"
  | conversionFailure => "conversion-failure"
  | invalidOverride => "invalid-override"
  | unsupportedConstruct => "unsupported-construct"

/-- The category with the name `label`. -/
def ofLabel? (label : String) : Option Category := all.find? fun c => c.label == label

end Category

/-- One reported problem. -/
structure Diagnostic where
  severity : Severity
  category : Category
  /-- A short text without a full stop. -/
  summary : String
  /-- Sentences that describe the problem. -/
  detail : String
  /-- The range that the problem is about. -/
  subject : Option SourceRange := none
  /-- A wider range, such as the declaration around the subject. -/
  context : Option SourceRange := none
deriving DecidableEq, Repr

namespace Diagnostic

/-- An error without ranges. -/
def error (category : Category) (summary detail : String) : Diagnostic :=
  ⟨.error, category, summary, detail, none, none⟩

/-- A warning without ranges. -/
def warning (category : Category) (summary detail : String) : Diagnostic :=
  ⟨.warning, category, summary, detail, none, none⟩

/-- The diagnostic about the range `r`. -/
def about (d : Diagnostic) (r : SourceRange) : Diagnostic := { d with subject := some r }

/-- The diagnostic with the range `r` around its subject. -/
def inside (d : Diagnostic) (r : SourceRange) : Diagnostic := { d with context := some r }

/-- Whether the problem is an error. -/
def isError (d : Diagnostic) : Bool := d.severity == .error

/-- The diagnostic with both ranges changed by `f`. -/
def mapRanges (f : SourceRange → SourceRange) (d : Diagnostic) : Diagnostic :=
  { d with subject := d.subject.map f, context := d.context.map f }

/-- One line: severity, subject where there is one, summary and detail. -/
def render (d : Diagnostic) : String :=
  let level := match d.severity with
    | .error => "Error"
    | .warning => "Warning"
  match d.subject with
  | some r => s!"{level}: {r.render}: {d.summary}; {d.detail}"
  | none => s!"{level}: {d.summary}; {d.detail}"

end Diagnostic

/-- Reported problems in the order in which they were met. -/
abbrev Diagnostics := List Diagnostic

namespace Diagnostics

/-- The errors among the diagnostics. -/
def errors (ds : Diagnostics) : Diagnostics := ds.filter Diagnostic.isError

/-- Whether an error is among the diagnostics. -/
def hasErrors (ds : Diagnostics) : Bool := ds.any Diagnostic.isError

/-- Whether an error of the category is among the diagnostics. -/
def hasCategory (ds : Diagnostics) (c : Category) : Bool :=
  (errors ds).any fun d => d.category == c

/-- The diagnostics with every range changed by `f`. -/
def mapRanges (f : SourceRange → SourceRange) (ds : Diagnostics) : Diagnostics :=
  ds.map (Diagnostic.mapRanges f)

/-- One line for each diagnostic. -/
def render (ds : Diagnostics) : String := "\n".intercalate (ds.map Diagnostic.render)

end Diagnostics

end Overlay
