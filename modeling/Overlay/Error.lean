import Overlay.Diagnostic
import Overlay.Package.Scheme
import Overlay.Source.FileTree
import Overlay.Source.Format
import Overlay.Text.Inspect

/-!
# Errors

Problems in sources that users write are diagnostics. An `Error` is what else can go wrong: a pack
tree that cannot be built, settings that cannot be loaded, and a resolution that failed as a whole.
-/

namespace Overlay

/-- Why a name cannot be used. -/
inductive NameFault where
  /-- The name is no identifier. -/
  | malformed
  /-- The name is kept for a pack's own entry. -/
  | reserved
deriving DecidableEq, Repr

/-- What can go wrong outside the sources. -/
inductive Error where
  | invalidName (name : String) (fault : NameFault)
  | duplicateDependency (parent name : String)
  | ambiguousPackage (id : PackageId)
  | unsupportedSettings (extension : String)
  | malformedSettings (format : Format) (path problem : String)
  | unreadable (fault : ReadFault)
  | unresolved (diagnostics : Diagnostics)
deriving Repr

namespace Error

/-- The text of an error. -/
def message : Error → String
  | invalidName name .malformed =>
    s!"Invalid identifier {Text.inspect name}: must start with a letter or underscore and " ++
      "contain only letters, digits, underscores, and dashes"
  | invalidName name .reserved =>
    s!"Invalid identifier {Text.inspect name}: {Text.inspect name} is reserved"
  | duplicateDependency parent name =>
    s!"Pack {Text.inspect parent} already has a dependency named {Text.inspect name}"
  | ambiguousPackage id => s!"Package ID {id.text} is claimed by more than one pack"
  | unsupportedSettings extension => s!"Unsupported settings format: {extension}"
  | malformedSettings format path problem =>
    s!"Failed to parse {format.label} settings at {path}: {problem}"
  | unreadable fault => fault.message
  | unresolved diagnostics => "Variable resolution failed:\n" ++ diagnostics.render

end Error

end Overlay
