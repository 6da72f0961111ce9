import Overlay.Resolution.Configuration
import Overlay.Source.Decoding

/-!
# Resolution

Variables start from their declared defaults. Then the overrides are applied in order: those of the
environment, those of each file in turn, those made already for files, and those of flags.

* A resolution has three phases: `collect` reads the declarations, `decode` the overrides, and
  `merge` applies them. A phase with errors is the last one.
* A file that cannot be read ends the second phase at once.
* Overrides of variables that are not declared are errors, except those of the environment.
-/

namespace Overlay.Resolution

/-! ## Declarations -/

/-- The variables that the packages declare, and what is wrong with the declarations. -/
def collect : Dict SourceFile → VariableMap × Diagnostics
  | [] => ([], [])
  | (package, source) :: rest =>
    let (vars, ds) := Declaration.collect source
    let (others, more) := collect rest
    ((package, vars) :: others, ds ++ more)

/-! ## Overrides -/

/-- The overrides of all sources: one set for the environment, one for each file in ascending
precedence, and one for the flags. -/
structure Overrides where
  environment : OverrideSet := .empty
  files : List OverrideSet := []
  cli : OverrideSet := .empty
deriving DecidableEq, Repr

/-- Adds the overrides of keys and texts to a set. -/
def addInline (addressing : Addressing) (declared : VariableMap)
    (source : String → OverrideSource) (set : OverrideSet) :
    Dict String → OverrideSet × Diagnostics
  | [] => (set, [])
  | (key, raw) :: rest =>
    let (set, ds) := match Decoding.inline addressing declared (source key) key raw with
      | .ok o => set.add o
      | .error ds => (set, ds)
    let (set, more) := addInline addressing declared source set rest
    (set, ds ++ more)

/-- The overrides of files in turn, or what was found up to a file that cannot be read. -/
def decodeFiles (addressing : Addressing) (readers : Readers) :
    List String → Except Diagnostics (List OverrideSet × Diagnostics)
  | [] => .ok ([], [])
  | path :: rest =>
    match Decoding.file addressing readers path with
    | .error d => .error [d]
    | .ok file =>
      match decodeFiles addressing readers rest with
      | .error ds => .error (file.diagnostics ++ ds)
      | .ok (sets, ds) => .ok (file.overrides :: sets, file.diagnostics ++ ds)

/-- Adds overrides that are made already, each to its tier; those of files make up a set of their
own, `supplied`. -/
def addSupplied (all : Overrides) (supplied : OverrideSet) :
    List Override → Overrides × OverrideSet × Diagnostics
  | [] => (all, supplied, [])
  | o :: rest =>
    let (all, supplied, ds) := match o.source.tier with
      | .environment =>
        let (set, ds) := all.environment.add o
        ({ all with environment := set }, supplied, ds)
      | .cli =>
        let (set, ds) := all.cli.add o
        ({ all with cli := set }, supplied, ds)
      | .file =>
        -- The files' own sets are not looked at, only the overrides supplied so far.
        match supplied.insert o with
        | .ok set => (all, set, [])
        | .error d => (all, supplied, [d])
    let (all, supplied, more) := addSupplied all supplied rest
    (all, supplied, ds ++ more)

/-- The overrides of all sources with what is wrong with them, or what was found up to a file that
cannot be read. -/
def decode (c : Configuration) (readers : Readers) (declared : VariableMap) :
    Except Diagnostics (Overrides × Diagnostics) :=
  let (environment, front) :=
    addInline c.addressing declared .environment .empty c.environment
  match decodeFiles c.addressing readers c.files with
  | .error ds => .error (front ++ ds)
  | .ok (files, middle) =>
    let (cli, back) := addInline c.addressing declared .cli .empty c.cli
    let (all, supplied, more) := addSupplied ⟨environment, files, cli⟩ .empty c.supplied
    -- The supplied set is the last of the files, so it wins over them.
    let files := if supplied.isEmpty then all.files else all.files ++ [supplied]
    .ok ({ all with files }, front ++ middle ++ back ++ more)

/-! ## Merging -/

/-- The diagnostic of an override of a variable that is not declared. -/
def undeclared (o : Override) : Diagnostic :=
  (Diagnostic.error .missingRootDeclaration "Missing base variable declaration to override"
    (s!"There is no variable named {Text.inspect o.target.variableName} in package " ++
      s!"{o.target.package.text}. An override can only set a variable that the pack " ++
      "declares.")).about o.range

/-- The variables with `v` in place of the targeted one. -/
def replace (vars : VariableMap) (target : Target) (v : Variable) : VariableMap :=
  match vars.package? target.package with
  | some declared =>
    Dict.insert target.package.text (Dict.insert target.variableName v declared) vars
  | none => vars

/-- Whether an override of a variable that is not declared is left out without a word. -/
def ignores (ignoreMissing : Bool) (tier : Tier) : Bool := tier = .environment || ignoreMissing

/-- Applies one override. -/
def apply (ignoreMissing : Bool) (tier : Tier) (vars : VariableMap) (o : Override) :
    VariableMap × Diagnostics :=
  match vars.lookup? o.target with
  | some v =>
    match v.applyOverride o with
    | .ok v => (replace vars o.target v, [])
    | .error d => (vars, [d])
  | none => (vars, if ignores ignoreMissing tier then [] else [undeclared o])

/-- Applies overrides in turn. -/
def applyAll (ignoreMissing : Bool) (tier : Tier) (vars : VariableMap) :
    List Override → VariableMap × Diagnostics
  | [] => (vars, [])
  | o :: rest =>
    let (vars, ds) := apply ignoreMissing tier vars o
    let (vars, more) := applyAll ignoreMissing tier vars rest
    (vars, ds ++ more)

/-- Applies the overrides of all tiers in ascending precedence. -/
def merge (ignoreMissing : Bool) (vars : VariableMap) (all : Overrides) :
    VariableMap × Diagnostics :=
  let (vars, front) :=
    applyAll ignoreMissing .environment vars all.environment.entries
  let (vars, middle) :=
    applyAll ignoreMissing .file vars (all.files.flatMap OverrideSet.entries)
  let (vars, back) := applyAll ignoreMissing .cli vars all.cli.entries
  (vars, front ++ middle ++ back)

end Resolution

/-! ## Resolved variables -/

/-- The variables of every package after a resolution. -/
structure Resolved where
  root : PackageId
  scheme : Scheme
  packages : VariableMap

/-- The resolved variables of a configuration, or everything that was found in the phases up to the
first one with errors. -/
def Configuration.resolve (c : Configuration) (readers : Readers) :
    Except Diagnostics Resolved := do
  let (declared, front) := Resolution.collect c.declarations
  if front.hasErrors then throw front
  let (all, middle) ← (Resolution.decode c readers declared).mapError (front ++ ·)
  if (front ++ middle).hasErrors then throw (front ++ middle)
  let (vars, back) := Resolution.merge c.ignoreMissing declared all
  if (front ++ middle ++ back).hasErrors then throw (front ++ middle ++ back)
  return ⟨c.root, c.scheme, vars⟩

namespace Resolved

/-- The variables of a package. -/
def package? (r : Resolved) (id : PackageId) : Option (Dict Variable) := r.packages.package? id

/-- A variable by its package and name. -/
def get? (r : Resolved) (target : Target) : Option Variable :=
  r.packages.lookup? target

/-- The diagnostic of a value that templates cannot see. -/
def unconverted (package : PackageId) (v : Variable) (fault : ValueFault) : Diagnostic :=
  (Diagnostic.error .conversionFailure "Failed to convert variable value"
    (s!"The value of variable {Text.inspect v.name} in package {package.text} could not be " ++
      s!"converted for templates: {fault.message}.")).about v.range

/-- The variables as templates see them; one whose value cannot be converted is left out and
reported. -/
def nativeEntries (package : PackageId) : Dict Variable → Dict NativeValue × Diagnostics
  | [] => ([], [])
  | (name, v) :: rest =>
    let (others, ds) := nativeEntries package rest
    match v.value.toNative with
    | .ok x => ((name, x) :: others, ds)
    | .error fault => (others, unconverted package v fault :: ds)

/-- The variables of a package as templates see them. -/
def nativeVariables (r : Resolved) (package : PackageId) : Dict NativeValue × Diagnostics :=
  match r.package? package with
  | some vars => nativeEntries package vars
  | none => ([], [])

/-- The variables of every package as templates see them. -/
def flatten (r : Resolved) : Dict (Dict NativeValue) × Diagnostics :=
  flattenFrom r.packages
where
  /-- The variables of the packages listed. -/
  flattenFrom : VariableMap → Dict (Dict NativeValue) × Diagnostics
  | [] => ([], [])
  | (package, vars) :: rest =>
    let (entries, ds) := nativeEntries ⟨package⟩ vars
    let (others, more) := flattenFrom rest
    ((package, entries) :: others, ds ++ more)

end Resolved

end Overlay
