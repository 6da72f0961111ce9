import Overlay.Source.Path

/-!
# Trees of files

Files with the names that lead to them from the root, and a working directory. A path that does not
start at the root starts in the working directory. A directory is there when a file is below it, or
when it leads to the working directory.
-/

namespace Overlay

/-- Why a file cannot be read. -/
inductive ReadFault where
  | notFound
  | notDirectory
  | isDirectory
  /-- The content is no UTF-8 text. -/
  | notText
  /-- Anything else, in the words of the system. -/
  | other (words : String)
deriving DecidableEq, Repr

/-- The text of a cause. -/
def ReadFault.message : ReadFault → String
  | notFound => "No such file or directory (os error 2)"
  | notDirectory => "Not a directory (os error 20)"
  | isDirectory => "Is a directory (os error 21)"
  | notText => "stream did not contain valid UTF-8"
  | other words => words

/-- A file: the names that lead to it from the root, and its content. -/
structure File where
  names : List String
  content : ByteArray

/-- Files, and the names that lead from the root to the working directory. -/
structure FileTree where
  home : List String
  files : List File

namespace FileTree

/-- A working directory, and no files. -/
def empty : FileTree := ⟨["work"], []⟩

/-- The names of the directory that a path starts in. -/
def start (tree : FileTree) (path : String) : List String :=
  if Path.isAbsolute path then [] else tree.home

/-- The names of a path, without the parts that mean nothing. -/
def names (path : String) : List String := (Path.parts path).filter fun p => !Path.isIdle p

/-- The tree with a file at `path` in front of all others. -/
def add (tree : FileTree) (path : String) (content : ByteArray) : FileTree :=
  { tree with files := ⟨tree.start path ++ names path, content⟩ :: tree.files }

/-- The file that the names lead to. -/
def file? (tree : FileTree) (names : List String) : Option File :=
  tree.files.find? fun f => f.names = names

/-- Whether the names lead to a directory. -/
def isDirectory (tree : FileTree) (names : List String) : Bool :=
  names.isPrefixOf tree.home ||
    tree.files.any fun f => f.names.length > names.length && names.isPrefixOf f.names

/-- Follows the parts of a path from the directory `here`. Above the root is the root itself. -/
def follow (tree : FileTree) (here : List String) : List String → Except ReadFault (List String)
  | [] => .ok here
  | part :: rest =>
    if tree.isDirectory here then
      if Path.isIdle part then tree.follow here rest
      else if part = ".." then tree.follow here.dropLast rest
      else tree.follow (here ++ [part]) rest
    else if (tree.file? here).isSome then .error .notDirectory
    else .error .notFound

/-- The text of the file at `path`. -/
def read (tree : FileTree) (path : String) : Except ReadFault String := do
  if path = "" then throw .notFound
  let names ← tree.follow (tree.start path) (Path.parts path)
  match tree.file? names with
  | some f =>
    match String.fromUTF8? f.content with
    | some text => return text
    | none => throw .notText
  | none => throw (if tree.isDirectory names then .isDirectory else .notFound)

end FileTree

end Overlay
