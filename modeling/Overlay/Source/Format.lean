import Overlay.Source.Path

/-!
# Formats of files

What a file is written in, by its suffix in letters of any size.
-/

namespace Overlay

/-- The format of a file: the configuration language itself, or one of the document formats. -/
inductive Format where
  | native
  | json
  | yaml
  | toml
deriving DecidableEq, Repr

namespace Format

/-- What messages call a format. -/
def label : Format → String
  | native => "HCL"
  | json => "JSON"
  | yaml => "YAML"
  | toml => "TOML"

/-- The format of the override file at `path`. -/
def ofPath? (path : String) : Option Format :=
  match Path.lowerExtension path with
  | "hcl" | "vars" => some native
  | "json" => some json
  | "yaml" | "yml" => some yaml
  | "toml" => some toml
  | _ => none

end Format

end Overlay
