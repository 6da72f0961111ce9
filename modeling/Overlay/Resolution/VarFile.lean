import Overlay.Resolution.Basic
import Overlay.Value.Literal

/-!
# Override files of resolved variables

An override file that sets every variable of every pack in a tree to its current value. Packs are
in the order of `Pack.walk`, the variables of a pack in the order of their names; keys are written
in the scheme of the resolution.
-/

namespace Overlay.VarFile

/-- The lines of a text, each behind a comment sign. A line ends with a line feed, in front of which
a carriage return may stand. -/
def comment (text : String) : String :=
  String.join ((Text.lines text).map fun line => s!"# {line}\n")

/-- The assignment of a variable under its description. -/
def entry (scheme : Scheme) (package : PackageId) (v : Variable) : String :=
  "\n" ++ ((v.description.map comment).getD "") ++ scheme.address ⟨package, v.name⟩ ++ " = " ++
    v.value.literal ++ "\n"

/-- The variables of a package under a heading. -/
def packageText (scheme : Scheme) (package : PackageId) (vars : Dict Variable) : String :=
  s!"# Variables for pack {package.text}\n" ++
    String.join (vars.values.map (entry scheme package))

/-- The text for a pack of the tree; a pack without variables has none. -/
def nodeText? (r : Resolved) (node : PackNode) : Option String :=
  let id := r.scheme.packageId node.path
  match r.package? id with
  | none | some [] => none
  | some vars => some (packageText r.scheme id vars)

/-- The override file for a tree of packs. -/
def generate (r : Resolved) (p : Pack) : String :=
  "\n".intercalate (p.walk.filterMap (nodeText? r))

end Overlay.VarFile
