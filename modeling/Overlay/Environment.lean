import Overlay.Dict

/-!
# Overrides in the environment

An environment variable whose name starts with a prefix sets the variable that the rest of the name
addresses.
-/

namespace Overlay.Environment

/-- The prefix of the environment variables that count, unless settings say another. -/
def defaultPrefix : String := "NOMAD_PACK_VAR_"

/-- What follows the characters of `front` in a name. -/
def behind? (front : List Char) (name : List Char) : Option (List Char) :=
  if front.isPrefixOf name then some (name.drop front.length) else none

/-- The key in the name of an environment variable. A name that is the prefix alone has none. -/
def key? (front name : String) : Option String :=
  match behind? front.toList name.toList with
  | none | some [] => none
  | some cs => some (String.ofList cs)

/-- The values under their keys, of the environment variables whose names start with `front`. Of
variables with one name the last one counts. -/
def overrides (front : String) (entries : List (String × String)) : Dict String :=
  .ofPairs (entries.filterMap fun (name, value) => (key? front name).map (·, value))

/-- The name and the value of an assignment, which are separated by its first equals sign. -/
def split? (assignment : String) : Option (String × String) :=
  let cs := assignment.toList
  match cs.dropWhile (· ≠ '=') with
  | [] => none
  | _ :: value => some (String.ofList (cs.takeWhile (· ≠ '=')), String.ofList value)

/-- The values under their keys, of assignments; those without an equals sign are left out. -/
def overridesOfAssignments (front : String) (assignments : List String) : Dict String :=
  overrides front (assignments.filterMap split?)

/-- The entries without those that a later entry of the same name replaces. -/
def latest : List (ByteArray × ByteArray) → List (ByteArray × ByteArray)
  | [] => []
  | e :: rest => if rest.any fun f => f.1 == e.1 then latest rest else e :: latest rest

/-- The entries whose names and values are texts. -/
def textEntries (entries : List (ByteArray × ByteArray)) : List (String × String) :=
  entries.filterMap fun (name, value) => do
    return (← String.fromUTF8? name, ← String.fromUTF8? value)

/-- The values under their keys, of the variables that a process was given. -/
def overridesOfProcess (front : String) (entries : List (ByteArray × ByteArray)) : Dict String :=
  overrides front (textEntries (latest entries))

end Overlay.Environment
