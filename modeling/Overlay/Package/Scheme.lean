import Overlay.Text.Split

/-!
# Addresses of variables

A pack in a tree has a package ID, and a variable has an address that starts with it.

* In the hierarchical scheme the package ID is the dotted path from the root.
* In the flat scheme it is the last name of that path, so addresses have at most two parts.
* `Scheme.resolveKey` reads an address; a lone variable name belongs to the root package.
-/

namespace Overlay

/-- The name of a package in a tree of packs, such as `web.redis`. -/
structure PackageId where
  text : String
deriving DecidableEq, Repr, Inhabited

namespace PackageId

/-- The parts joined by dots. -/
def ofSegments (segments : List String) : PackageId := ⟨Text.joinDots segments⟩

/-- The parts between the dots that are not empty. -/
def segments (id : PackageId) : List String := (Text.splitDots id.text).filter fun s => s ≠ ""

/-- The ID of a child. -/
def join (id : PackageId) (child : String) : PackageId :=
  if id.text = "" then ⟨child⟩ else ⟨id.text ++ "." ++ child⟩

end PackageId

/-- A variable of a package. -/
structure Target where
  package : PackageId
  variableName : String
deriving DecidableEq, Repr

/-- How packages get their IDs. -/
inductive Scheme where
  | hierarchical
  | flat
deriving DecidableEq, Repr, Inhabited

namespace Scheme

/-- The name a scheme is written with. -/
def label : Scheme → String
  | hierarchical => "hierarchical"
  | flat => "flat"

/-- The scheme with the name `label`. -/
def ofLabel? (label : String) : Option Scheme :=
  [hierarchical, flat].find? fun s => s.label == label

/-- The ID of the pack at the end of `path`, which starts with the root's name. -/
def packageId (scheme : Scheme) (path : List String) : PackageId :=
  match scheme with
  | hierarchical => .ofSegments path
  | flat => ⟨path.getLast?.getD ""⟩

/-- The sentence about a key that is no address. -/
def keyDetail : Scheme → String
  | hierarchical => "An override key must name a variable."
  | flat =>
    "An override key is either a variable name or a pack name followed by a " ++
      "variable name, such as \"redis.port\"."

/-- The variable that the parts of a key address, or the sentence about a key that addresses
none. -/
def resolveKey (scheme : Scheme) (root : PackageId) (segments : List String) :
    Except String Target :=
  match scheme, segments with
  | _, [name] => .ok ⟨root, name⟩
  | flat, [package, name] => .ok ⟨⟨package⟩, name⟩
  | flat, _ => .error flat.keyDetail
  | hierarchical, segments =>
    match segments.getLast? with
    | none => .error hierarchical.keyDetail
    | some name => .ok ⟨.ofSegments segments.dropLast, name⟩

/-- The key that addresses a variable. -/
def address (_scheme : Scheme) (target : Target) : String :=
  target.package.text ++ "." ++ target.variableName

end Scheme

/-- What keys are relative to: the root package, and how packages get their IDs. -/
structure Addressing where
  root : PackageId
  scheme : Scheme
deriving DecidableEq, Repr

end Overlay
