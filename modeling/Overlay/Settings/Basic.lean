import Overlay.Environment
import Overlay.Json.Basic
import Overlay.Resolution.Configuration

/-!
# Settings

Settings choose the scheme, name override files and set variables. They are applied to a
configuration and never replace what it sets already.
-/

namespace Overlay

/-- The settings of resolutions. -/
structure Settings where
  scheme : Scheme := .hierarchical
  ignoreMissing : Bool := false
  environmentPrefix : String := Environment.defaultPrefix
  /-- Override files, in ascending precedence. -/
  files : List String := []
  /-- Values for variables, by keys. They have the precedence of flags. -/
  values : Dict Json := []
deriving Repr

namespace Settings

/-- The text that stands for a value among the flags: a string as it is, anything else as a
document. -/
def rawText : Json → String
  | .string s => s
  | x => x.render

/-- The flags with one more, unless its key is there already. -/
def addFlag (flags : Dict String) (entry : String × Json) : Dict String :=
  if flags.contains entry.1 then flags else flags.insert entry.1 (rawText entry.2)

/-- A configuration with settings applied. Files come behind those that are there. -/
def apply (settings : Settings) (c : Configuration) : Configuration :=
  { c with
    scheme := settings.scheme
    ignoreMissing := c.ignoreMissing || settings.ignoreMissing
    files := c.files ++ settings.files
    cli := settings.values.foldl addFlag c.cli }

/-- The configuration of a tree of packs with settings applied. -/
def configure (settings : Settings) (p : Pack) : Except Error Configuration :=
  (Configuration.ofPack p settings.scheme).map settings.apply

/-- The overrides in the environment. -/
def environment (settings : Settings) (entries : List (String × String)) : Dict String :=
  Environment.overrides settings.environmentPrefix entries

end Settings

end Overlay
