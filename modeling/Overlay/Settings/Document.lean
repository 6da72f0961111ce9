import Overlay.Json.Typed
import Overlay.Settings.Basic
import Overlay.Yaml.Node

/-!
# Settings in documents

The form of settings in the document formats. All parts may be missing; other parts and repeated
ones are refused.

* In JSON a refusal says what was wrong and where.
* In YAML any scalar is a text, and an empty scalar is also an empty collection.
-/

namespace Overlay.Settings

/-- The choices of a scheme. -/
def schemeChoices : List (String × Scheme) :=
  [Scheme.hierarchical, Scheme.flat].map fun s => (s.label, s)

/-- The parts of settings, in the order that they have in an array. -/
inductive Part where
  | scheme
  | ignoreMissing
  | environmentPrefix
  | files
  | values
deriving DecidableEq, Repr

namespace Part

/-- All parts. -/
def all : List Part := [scheme, ignoreMissing, environmentPrefix, files, values]

/-- The name of a part. -/
def label : Part → String
  | scheme => "scheme"
  | ignoreMissing => "ignore_missing"
  | environmentPrefix => "env_prefix"
  | files => "var_files"
  | values => "vars"

/-- The part with a name. -/
def ofLabel? (name : String) : Option Part := all.find? fun p => p.label = name

end Part

/-- Settings that are partly read. -/
structure Draft where
  settings : Settings := {}
  seen : List Part := []

/-- The draft with a part read into it. -/
def Draft.set (d : Draft) (part : Part) (settings : Settings) : Draft := ⟨settings, part :: d.seen⟩

/-! ## JSON -/

/-- Reads a part of settings. -/
def readPart (part : Part) (d : Draft) : Json.PartReader Draft := fun room s =>
  let old := d.settings
  let keep {α : Type} (reader : Json.PartReader α) (put : α → Settings) :=
    (reader room s).map fun (x, s) => (d.set part (put x), s)
  match part with
  | .scheme => keep (Json.readChoice schemeChoices) fun scheme => { old with scheme }
  | .ignoreMissing => keep Json.readBoolPart fun ignoreMissing => { old with ignoreMissing }
  | .environmentPrefix =>
    keep (Json.readTextPart "a string") fun environmentPrefix => { old with environmentPrefix }
  | .files =>
    keep (Json.readArrayPart (Json.readTextPart "path string")) fun files => { old with files }
  | .values => keep (Json.readDictPart Json.readAnyPart) fun values => { old with values }

/-- Reads a part of settings behind its name. -/
def readNamedPart (name : String) (d : Draft) : Json.PartReader Draft := fun room s =>
  match Part.ofLabel? name with
  | none =>
    Json.refuseMember s!"unknown field `{name}`, {Json.listNames (Part.all.map Part.label)}" s
  | some part =>
    if part ∈ d.seen then Json.refuseMember s!"duplicate field `{name}`" s
    else Json.readMemberPart (readPart part d) room s

/-- The settings in a JSON text. -/
def parseJson (text : String) : Except Json.ReadError Settings :=
  let reader := Json.readRecord "struct ResolverSettings" (Part.all.map readPart) readNamedPart {}
  (Json.readAs reader text).map Draft.settings

/-! ## Plain documents -/

/-- The scheme that a document names: by a text, or by the one member of an object, which holds an
empty object. -/
def schemeOf? : Json → Option Scheme
  | .string name => Scheme.ofLabel? name
  | .object [(name, .object [])] => Scheme.ofLabel? name
  | _ => none

/-- The texts in a document. -/
def textsOf? : List Json → Option (List String)
  | [] => some []
  | .string s :: rest => (textsOf? rest).map (s :: ·)
  | _ :: _ => none

/-- The settings with the part that a member holds. -/
def addMember (settings : Settings) (member : String × Json) : Option Settings := do
  match ← Part.ofLabel? member.1, member.2 with
  | .scheme, x => return { settings with scheme := ← schemeOf? x }
  | .ignoreMissing, .bool ignoreMissing => return { settings with ignoreMissing }
  | .environmentPrefix, .string environmentPrefix => return { settings with environmentPrefix }
  | .files, .array items => return { settings with files := ← textsOf? items }
  | .values, .object values => return { settings with values }
  | _, _ => none

/-- The settings in a document whose members have different names. -/
def ofJson? : Json → Option Settings
  | .object members => members.foldlM addMember {}
  | _ => none

/-! ## YAML -/

/-- The settings with a part that a node holds. -/
def addNode (d : Draft) (part : Part) (node : Yaml.Node) : Option Draft := do
  let old := d.settings
  let settings ← match part with
    | .scheme => do pure { old with scheme := ← Scheme.ofLabel? (← node.choice?) }
    | .ignoreMissing => do pure { old with ignoreMissing := ← node.bool? }
    | .environmentPrefix => do pure { old with environmentPrefix := ← node.text? }
    | .files => do pure { old with files := ← (← node.items?).mapM Yaml.Node.text? }
    | .values => do
      let entries ← (← node.entries?).mapM fun entry => do
        return (← entry.1.text?, ← entry.2.toJson?)
      pure { old with values := .ofPairs entries }
  return d.set part settings

/-- The settings with the part that an entry holds. -/
def addEntry (d : Draft) (entry : Yaml.Node × Yaml.Node) : Option Draft := do
  let part ← Part.ofLabel? (← entry.1.text?)
  if part ∈ d.seen then none else addNode d part entry.2

/-- The settings in a YAML document. In a sequence the parts have their places. -/
def ofYaml? (node : Yaml.Node) : Option Settings := do
  let d ← match node.entries? with
    | some entries => entries.foldlM addEntry {}
    | none => do
      let items ← node.items?
      guard (items.length ≤ Part.all.length)
      (Part.all.zip items).foldlM (fun d (p, x) => addNode d p x) {}
  return d.settings

end Overlay.Settings
