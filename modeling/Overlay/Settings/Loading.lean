import Overlay.Settings.Document
import Overlay.Source.Readers

/-!
# Loading settings

Settings are loaded from a file, whose suffix says its format. Override files that they name are
relative to the directory of that file.
-/

namespace Overlay.Settings

/-- The format of the settings file at `path`. -/
def format? (path : String) : Option Format :=
  match Path.lowerExtension path with
  | "toml" => some .toml
  | "json" => some .json
  | "yaml" | "yml" => some .yaml
  | _ => none

/-- What settings in YAML and TOML are read with. A text is refused in the reader's own words. -/
structure FormatReaders where
  yaml : String → Except String Settings
  toml : String → Except String Settings

/-- What a reader gives that says no more of the texts it refuses. -/
def orRefuse : Option Settings → Except String Settings
  | some settings => .ok settings
  | none => .error "the file does not hold settings"

/-- The readers of this library. -/
def FormatReaders.standard : FormatReaders where
  yaml text := orRefuse ((Yaml.parse? text).bind ofYaml?)
  toml text := orRefuse ((Toml.parse? text).bind ofJson?)

/-- The settings in a text, or what is wrong with the text. No settings are written in the
configuration language. -/
def parse (formats : FormatReaders) (format : Format) (text : String) : Except String Settings :=
  match format with
  | .json => (parseJson text).mapError Json.ReadError.message
  | .toml => formats.toml text
  | .yaml => formats.yaml text
  | .native => orRefuse none

/-- The settings with their files relative to the directory of the file at `path`. -/
def relativeTo (path : String) (settings : Settings) : Settings :=
  match Path.parent? path with
  | some directory => { settings with files := settings.files.map (Path.join directory) }
  | none => settings

/-- The settings in the file at `path`. -/
def load (readers : Readers) (path : String) (formats : FormatReaders := .standard) :
    Except Error Settings := do
  let text ← (readers.file path).mapError .unreadable
  match format? path with
  | none => throw (.unsupportedSettings ((Path.extension? path).getD ""))
  | some format =>
    let settings ← (parse formats format text).mapError (.malformedSettings format path)
    return relativeTo path settings

end Overlay.Settings
