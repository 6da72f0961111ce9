import Overlay.Resolution.Basic

/-!
# Contexts of templates

What the templates of a tree of packs see: for every pack its variables and its metadata.

* `Context.lookup` follows a dotted path through maps and sequences, and says where it got stuck;
  `Context.show` gives the empty text instead.
* `Context.toJson` is the document for renderers; a pack's own entry stands under `Pack.selfKey`.
-/

namespace Overlay

/-- What the templates of a pack see, with the contexts of its dependencies under their keys. -/
structure Context where
  name : String
  values : Dict NativeValue
  metadata : NativeValue
  dependencies : List (String × Context)

/-- Why a path leads nowhere: how far it leads, and the key behind that. -/
inductive LookupFault where
  | missingKey (path key : String)
  | notTraversable (path key : String)
deriving DecidableEq, Repr

/-- The text of a cause. -/
def LookupFault.message : LookupFault → String
  | missingKey path key => s!"{Text.inspect key} not found in {Text.inspect path}"
  | notTraversable path key =>
    s!"value at {Text.inspect path} cannot be traversed by key {Text.inspect key}"

namespace Context

/-! ## Building -/

/-- The context of a pack at the end of `path`, and the diagnostics of values that templates cannot
see. -/
def build (r : Resolved) (path : List String) : Pack → Context × Diagnostics
  | ⟨name, aliasName, metadata, _, dependencies⟩ =>
    let (values, ds) := r.nativeVariables (r.scheme.packageId path)
    let (contexts, more) := buildAll r path dependencies
    (⟨aliasName.getD name, values, metadata.toNative, contexts⟩, ds ++ more)
where
  /-- The contexts of all dependencies. -/
  buildAll (r : Resolved) (path : List String) :
      List Pack → List (String × Context) × Diagnostics
  | [] => ([], [])
  | p :: ps =>
    let (context, ds) := build r (path ++ [p.key]) p
    let (contexts, more) := buildAll r path ps
    ((p.key, context) :: contexts, ds ++ more)

/-- The context of a tree of packs. -/
def ofPack (r : Resolved) (p : Pack) : Context × Diagnostics := build r [p.name] p

/-! ## Packs of the tree -/

/-- The context of a dependency. -/
def dependency? (c : Context) (key : String) : Option Context :=
  (c.dependencies.find? fun d => d.1 = key).map Prod.snd

/-- The context that a dotted path of keys leads to. Empty keys are passed over. -/
def find? (c : Context) (path : String) : Option Context :=
  ((Text.splitDots path).filter fun key => key ≠ "").foldlM dependency? c

/-- The keys of the dependencies. -/
def dependencyKeys (c : Context) : List String := c.dependencies.map Prod.fst

/-- The dotted path of a child. -/
def childPath (path key : String) : String := if path = "" then key else path ++ "." ++ key

/-- The contexts below one at `path`, each with its dotted path, parents before children. -/
def walkFrom (path : String) : Context → List (String × Context)
  | ⟨_, _, _, dependencies⟩ => walkAll path dependencies
where
  /-- The contexts of all dependencies and those below them. -/
  walkAll (path : String) : List (String × Context) → List (String × Context)
  | [] => []
  | (key, c) :: rest =>
    (childPath path key, c) :: (walkFrom (childPath path key) c ++ walkAll path rest)

/-- The contexts below this one, each with its dotted path. -/
def walk (c : Context) : List (String × Context) := walkFrom "" c

/-- The dotted paths of all contexts below this one. -/
def dependencyPaths (c : Context) : List String := c.walk.map Prod.fst

/-! ## Looking up values -/

/-- The number that a key writes in decimal digits, with or without a plus sign in front. -/
def index? (key : String) : Option Nat :=
  let digits := match key.toList with
    | '+' :: cs => cs
    | cs => cs
  let isDigit (c : Char) : Bool := '0' ≤ c && c ≤ '9'
  if digits ≠ [] ∧ digits.all isDigit then
    some (digits.foldl (fun n c => 10 * n + (c.toNat - 48)) 0)
  else none

/-- What stands under a key of a value at `path`. -/
def child (path key : String) (v : NativeValue) : Except LookupFault NativeValue :=
  let found (x : Option NativeValue) : Except LookupFault NativeValue :=
    match x with
    | some x => .ok x
    | none => .error (.missingKey path key)
  match v with
  | .map entries => found (Dict.find? key entries)
  | .seq items => found ((index? key).bind fun i => items[i]?)
  | _ => .error (.notTraversable path key)

/-- Follows keys from a value at `path`. -/
def follow (path : String) (v : NativeValue) : List String → Except LookupFault NativeValue
  | [] => .ok v
  | key :: rest => do
    let x ← child path key v
    follow (path ++ "." ++ key) x rest

/-- What a dotted path leads to from the values under their keys. -/
def lookupIn (entries : Dict NativeValue) (path : String) : Except LookupFault NativeValue :=
  match Text.splitDots path with
  | [] => .error (.missingKey "" "")
  | first :: rest =>
    match entries.find? first with
    | some v => follow first v rest
    | none => .error (.missingKey "" first)

/-- What a dotted path leads to among the variables. -/
def lookup (c : Context) (path : String) : Except LookupFault NativeValue :=
  lookupIn c.values path

/-- What a dotted path leads to in the metadata. -/
def lookupMetadata (c : Context) (path : String) : Except LookupFault NativeValue :=
  match c.metadata with
  | .map entries => lookupIn entries path
  | _ => .error (.notTraversable "" path)

/-- The value that was looked up, or the empty text. -/
def orEmpty : Except LookupFault NativeValue → NativeValue
  | .ok v => v
  | .error _ => .string ""

/-! ## The document -/

/-- The context as a document. -/
def toJson : Context → Json
  | ⟨_, values, metadata, dependencies⟩ =>
    let own : Json := .object [
      ("meta", metadata.toJson), ("vars", .object (values.mapValues NativeValue.toJson))]
    .object (Dict.ofPairs ((Pack.selfKey, own) :: toJsonAll dependencies))
where
  /-- The contexts of all dependencies as documents. -/
  toJsonAll : List (String × Context) → List (String × Json)
  | [] => []
  | (key, c) :: rest => (key, c.toJson) :: toJsonAll rest

end Context

end Overlay
