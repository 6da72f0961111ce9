import Overlay.Diagnostic
import Overlay.Package.Scheme
import Overlay.Text.Inspect
import Overlay.Value.Basic
import Overlay.ValueType.Basic

/-!
# Overrides

* An `Override` is a value for one variable, from one source.
* Sources belong to tiers; later tiers win over earlier ones.
* An `OverrideSet` holds the overrides of one tier or file in order. It keeps the first override of
  a variable and reports any other from a different source.
-/

namespace Overlay

/-- Where overrides come from, in ascending precedence. -/
inductive Tier where
  | environment
  | file
  | cli
deriving DecidableEq, Repr

/-- What messages call a tier. -/
def Tier.label : Tier → String
  | environment => "environment"
  | file => "file"
  | cli => "cli"

/-- The source of an override: a file by its name, an environment variable by its name behind the
prefix, or a flag by its key. -/
inductive OverrideSource where
  | file (name : String)
  | environment (key : String)
  | cli (key : String)
deriving DecidableEq, Repr

namespace OverrideSource

/-- The tier of a source. -/
def tier : OverrideSource → Tier
  | file _ => .file
  | environment _ => .environment
  | cli _ => .cli

/-- What messages call a source. -/
def describe : OverrideSource → String
  | file name => "file " ++ name
  | environment key => "environment variable " ++ key
  | cli key => "flag -var " ++ key

end OverrideSource

/-- A value for one variable from one source. It names the type that its text was read as, if there
is one. -/
structure Override where
  target : Target
  value : Value
  type : Option ValueType := none
  range : SourceRange
  source : OverrideSource
deriving DecidableEq, Repr

/-- The diagnostic of a second override of one variable. -/
def Override.duplicate (first second : Override) : Diagnostic :=
  ((Diagnostic.error .duplicateDefinition "Duplicate variable override"
    (s!"The variable {Text.inspect first.target.variableName} of package " ++
      s!"{first.target.package.text} is set by {first.source.describe} at " ++
      s!"{first.range.render} and again by {second.source.describe} at " ++
      s!"{second.range.render}.")).about second.range).inside first.range

/-- Overrides in the order of their source, no two of one variable. -/
structure OverrideSet where
  entries : List Override
deriving DecidableEq, Repr, Inhabited

namespace OverrideSet

/-- The set without overrides. -/
def empty : OverrideSet := ⟨[]⟩

/-- How many overrides the set holds. -/
def size (set : OverrideSet) : Nat := set.entries.length

/-- Whether the set holds nothing. -/
def isEmpty (set : OverrideSet) : Bool := set.entries.isEmpty

/-- The override of a variable. -/
def get? (set : OverrideSet) (target : Target) : Option Override :=
  set.entries.find? fun o => o.target = target

/-- The set with one more override, or the diagnostic of a second override of its variable. -/
def insert (set : OverrideSet) (o : Override) : Except Diagnostic OverrideSet :=
  match set.get? o.target with
  | some first => .error (first.duplicate o)
  | none => .ok ⟨set.entries ++ [o]⟩

/-- Whether the set holds an override of the same variable from the same source. -/
def holdsFromSource (set : OverrideSet) (o : Override) : Bool :=
  set.entries.any fun e => e.target = o.target && e.source = o.source

/-- The set with one more override and the diagnostic of a conflict. An override that is there from
the same source is left out without a word. -/
def add (set : OverrideSet) (o : Override) : OverrideSet × Diagnostics :=
  if set.holdsFromSource o then (set, [])
  else
    match set.insert o with
    | .ok set => (set, [])
    | .error d => (set, [d])

/-- The set with the overrides of another one, added in turn. -/
def addAll (set : OverrideSet) : List Override → OverrideSet × Diagnostics
  | [] => (set, [])
  | o :: os =>
    let (set, ds) := set.add o
    let (set, rest) := set.addAll os
    (set, ds ++ rest)

/-- The set with the overrides of `other`. -/
def merge (set other : OverrideSet) : OverrideSet × Diagnostics := set.addAll other.entries

end OverrideSet

end Overlay
