import Overlay.Package.Pack
import Overlay.Variable.Override

/-!
# Configurations

What a resolution starts from: the declarations of every package, and the overrides of every tier
as they were given.

* `Configuration.ofPack` takes the declarations from a tree of packs. In the flat scheme two packs
  of a tree can have one package ID; such a tree is refused.
-/

namespace Overlay

/-- What a resolution starts from. -/
structure Configuration where
  /-- The package of keys that are a variable's name alone. -/
  root : PackageId
  scheme : Scheme := .hierarchical
  /-- The declarations of the packages, by their IDs. -/
  declarations : Dict SourceFile := []
  /-- The values of environment variables, by keys. -/
  environment : Dict String := []
  /-- The override files, in ascending precedence. -/
  files : List String := []
  /-- The values of flags, by keys. -/
  cli : Dict String := []
  /-- Overrides that are made already. Each belongs to the tier of its source. -/
  supplied : List Override := []
  /-- Whether overrides of variables that are not declared are left out without a word. -/
  ignoreMissing : Bool := false
deriving DecidableEq, Repr

namespace Configuration

/-- The first ID that stands a second time in a list. -/
def firstRepeated? (seen : List PackageId) : List PackageId → Option PackageId
  | [] => none
  | id :: rest => if id ∈ seen then some id else firstRepeated? (id :: seen) rest

/-- The configuration of a tree of packs. -/
def ofPack (p : Pack) (scheme : Scheme) : Except Error Configuration :=
  let nodes := p.walk
  let idOf (node : PackNode) : PackageId := scheme.packageId node.path
  match firstRepeated? [] (nodes.map idOf) with
  | some id => .error (.ambiguousPackage id)
  | none =>
    let sources := nodes.filterMap fun node => node.pack.source.map ((idOf node).text, ·)
    .ok { root := ⟨p.name⟩, scheme, declarations := .ofPairs sources }

/-- What the keys of a configuration are relative to. -/
def addressing (c : Configuration) : Addressing := ⟨c.root, c.scheme⟩

end Configuration

end Overlay
