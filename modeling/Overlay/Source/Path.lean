import Overlay.Text.Split

/-!
# Paths of files

A path is a text whose parts are separated by slashes. Empty parts and single dots mean nothing,
except that a path may start with them.
-/

namespace Overlay.Path

/-- The parts of a path between its slashes. -/
def parts (path : String) : List String := (Text.splitAtChar '/' path.toList).map String.ofList

/-- Whether a part means nothing where it stands behind another one. -/
def isIdle (part : String) : Bool := part == "" || part == "."

/-- The parts without the idle ones at their end. The first part stays. -/
def trimParts : List String → List String
  | [] => []
  | first :: rest => first :: (rest.reverse.dropWhile isIdle).reverse

/-- The last part of a path that names something. -/
def fileName? (path : String) : Option String :=
  match (trimParts (parts path)).getLast? with
  | some name => if isIdle name || name == ".." then none else some name
  | none => none

/-- What stands behind the last dot of the file name, if something stands in front of it. -/
def extension? (path : String) : Option String := do
  let name ← fileName? path
  let behind := name.toList.reverse.takeWhile (· ≠ '.')
  match name.toList.reverse.dropWhile (· ≠ '.') with
  | _ :: _ :: _ => return String.ofList behind.reverse
  | _ => none

/-- Whether a path starts at the root. -/
def isAbsolute (path : String) : Bool := path.toList.head? == some '/'

/-- The directory that a path leads through last; none for a path without parts. -/
def parent? (path : String) : Option String :=
  match trimParts (parts path) with
  | [] => none
  | [first] => if first = "" then none else some ""
  | all =>
    match trimParts all.dropLast with
    | [""] => some "/"
    | kept => some ("/".intercalate kept)

/-- A path that starts where `directory` leads. -/
def join (directory path : String) : String :=
  if isAbsolute path then path
  else if directory = "" ∨ directory.toList.getLast? = some '/' then directory ++ path
  else directory ++ "/" ++ path

/-- An ASCII letter as a small one. -/
def lower (c : Char) : Char := if 'A' ≤ c ∧ c ≤ 'Z' then Char.ofNat (c.toNat + 32) else c

/-- The extension of a path in small letters; empty if there is none. -/
def lowerExtension (path : String) : String :=
  String.ofList (((extension? path).getD "").toList.map lower)

end Overlay.Path
