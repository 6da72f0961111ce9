import Overlay.Json.Basic
import Overlay.Native.Basic
import Overlay.Toml.Reader

/-!
# Metadata of packs

What a pack says about itself. Every part may be missing and is then empty; parts with other names
are ignored.
-/

namespace Overlay

/-- The application that a pack runs. -/
structure AppMetadata where
  url : String := ""
deriving DecidableEq, Repr

/-- The pack itself. -/
structure PackInfo where
  name : String := ""
  description : String := ""
  url : String := ""
  version : String := ""
deriving DecidableEq, Repr

/-- The integration that a pack belongs to. -/
structure IntegrationMetadata where
  identifier : String := ""
  flags : List String := []
  name : String := ""
deriving DecidableEq, Repr

/-- What a pack says about itself. -/
structure Metadata where
  app : AppMetadata := {}
  pack : PackInfo := {}
  integration : IntegrationMetadata := {}
deriving DecidableEq, Repr

namespace Metadata

/-! ## Reading -/

/-- The parts of a record with the names given: the members of an object, or the items of an array
in the order of the names. -/
def parts? (names : List String) : Json → Option (Dict Json)
  | .object members => some members
  | .array items => some (names.zip items)
  | _ => none

/-- The text in a part. -/
def text? (parts : Dict Json) (name : String) : Option String :=
  match parts.find? name with
  | none => some ""
  | some (.string s) => some s
  | some _ => none

/-- The texts of an array. -/
def items? : List Json → Option (List String)
  | [] => some []
  | .string s :: rest => (items? rest).map (s :: ·)
  | _ :: _ => none

/-- The texts in a part. -/
def texts? (parts : Dict Json) (name : String) : Option (List String) :=
  match parts.find? name with
  | none => some []
  | some (.array items) => items? items
  | some _ => none

/-- The record in a part, read by `read?` from its own parts. -/
def record? (names : List String) (read? : Dict Json → Option α) (parts : Dict Json)
    (name : String) : Option α :=
  match parts.find? name with
  | none => read? []
  | some x => (parts? names x).bind read?

/-- Reads the part about the application. -/
def app? (parts : Dict Json) : Option AppMetadata := do
  return { url := ← text? parts "url" }

/-- Reads the part about the pack itself. -/
def pack? (parts : Dict Json) : Option PackInfo := do
  return {
    name := ← text? parts "name"
    description := ← text? parts "description"
    url := ← text? parts "url"
    version := ← text? parts "version" }

/-- Reads the part about the integration. -/
def integration? (parts : Dict Json) : Option IntegrationMetadata := do
  return {
    identifier := ← text? parts "identifier"
    flags := ← texts? parts "flags"
    name := ← text? parts "name" }

/-- The metadata in a document. -/
def ofJson? (document : Json) : Option Metadata := do
  let parts ← parts? ["app", "pack", "integration"] document
  return {
    app := ← record? ["url"] app? parts "app"
    pack := ← record? ["name", "description", "url", "version"] pack? parts "pack"
    integration := ← record? ["identifier", "flags", "name"] integration? parts "integration" }

/-- The metadata in a TOML text. -/
def ofToml? (text : String) : Option Metadata := (Toml.parse? text).bind ofJson?

/-! ## Showing to templates -/

/-- Metadata as templates see it. -/
def toNative (m : Metadata) : NativeValue :=
  .map [
    ("app", .map [("url", .string m.app.url)]),
    ("integration", .map [
      ("flags", .seq (m.integration.flags.map .string)),
      ("identifier", .string m.integration.identifier),
      ("name", .string m.integration.name)]),
    ("pack", .map [
      ("description", .string m.pack.description),
      ("name", .string m.pack.name),
      ("url", .string m.pack.url),
      ("version", .string m.pack.version)])]

end Metadata

end Overlay
