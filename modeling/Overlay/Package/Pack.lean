import Overlay.Error
import Overlay.Identifier
import Overlay.Package.Metadata
import Overlay.Variable.Declaration

/-!
# Trees of packs

A pack owns the packs that it depends on.

* A dependency is known under its alias, or under its name if it has none. Dependencies of one pack
  are known under different keys, and none of them is `_self`.
* A pack can stand in a tree more than once, under different keys.
* `Pack.walk` lists all packs of a tree, parents before children.
-/

namespace Overlay

/-- A pack with the packs that it depends on. -/
structure Pack where
  name : String
  aliasName : Option String
  metadata : Metadata
  source : Option SourceFile
  dependencies : List Pack

/-- A pack of a tree and the names that lead to it from the root. -/
structure PackNode where
  path : List String
  pack : Pack

namespace Pack

/-- The key of a pack's own entry, which no dependency can have. -/
def selfKey : String := "_self"

/-- Refuses a name that is no identifier. -/
def checkName (name : String) : Except Error Unit :=
  if isIdentifier name then .ok () else .error (.invalidName name .malformed)

/-- The pack with a name and nothing else. -/
def ofName (name : String) : Except Error Pack := do
  checkName name
  return ⟨name, none, {}, none, []⟩

/-- The pack under an alias. -/
def withAlias (p : Pack) (aliasName : String) : Except Error Pack := do
  checkName aliasName
  return { p with aliasName := some aliasName }

/-- The pack with metadata. -/
def withMetadata (p : Pack) (metadata : Metadata) : Pack := { p with metadata }

/-- The pack with declarations of variables. -/
def withVariables (p : Pack) (source : SourceFile) : Pack := { p with source := some source }

/-- The key that a pack is known under. -/
def key (p : Pack) : String := p.aliasName.getD p.name

/-- The dependency that is known under a key. -/
def dependency? (p : Pack) (key : String) : Option Pack :=
  p.dependencies.find? fun d => d.key = key

/-- The pack with one more dependency. -/
def addDependency (p child : Pack) : Except Error Pack :=
  if child.key = selfKey then .error (.invalidName child.key .reserved)
  else if (p.dependency? child.key).isSome then .error (.duplicateDependency p.name child.key)
  else .ok { p with dependencies := p.dependencies ++ [child] }

/-- The packs of the tree below `path`, parents before children. -/
def walkFrom (path : List String) : Pack → List PackNode
  | ⟨name, aliasName, metadata, source, dependencies⟩ =>
    ⟨path, ⟨name, aliasName, metadata, source, dependencies⟩⟩ :: walkAll path dependencies
where
  /-- The packs of the trees of all dependencies. -/
  walkAll (path : List String) : List Pack → List PackNode
  | [] => []
  | p :: ps => walkFrom (path ++ [p.key]) p ++ walkAll path ps

/-- The packs of a tree, parents before children. The root's path is its name. -/
def walk (p : Pack) : List PackNode := walkFrom [p.name] p

end Pack

end Overlay
