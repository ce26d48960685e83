/-!
# Files and the paths that lead to them

A path is followed from left to right, name by name, from the root if it begins with a slash and
from the current directory if not. An empty name and a dot stay where they are, and two dots lead to
the directory above. Nothing leads on from a file, not even a slash at the end of a path.
-/

namespace LayeredCache

/-- Why a path does not lead to the content of a file. -/
inductive PathFault where
  /-- Nothing has this name. -/
  | notFound
  /-- The path leads on from a file. -/
  | notDirectory
  /-- The path leads to a directory. -/
  | isDirectory
  /-- The path or a name in it is too long. -/
  | nameTooLong
  /-- A path cannot hold the character NUL. -/
  | nulInside
  deriving DecidableEq, Repr

/-- The wording of a fault. -/
def PathFault.message : PathFault → String
  | notFound => "No such file or directory (os error 2)"
  | notDirectory => "Not a directory (os error 20)"
  | isDirectory => "Is a directory (os error 21)"
  | nameTooLong => "File name too long (os error 36)"
  | nulInside => "file name contained an unexpected NUL byte"

/-- What a path leads to: the bytes of a file, or a fault. -/
abbrev FileContent := Except PathFault (List UInt8)

/-- Whether the path leads anywhere: to a file or to a directory. -/
def FileContent.isPresent : FileContent → Bool
  | .ok _ | .error .isDirectory => true
  | .error _ => false

/-- What stands at a place of a tree. -/
inductive FileNode where
  | directory
  | file (content : List UInt8)
  deriving DecidableEq, Repr

/-- Files and directories, each with the names that lead to it from the root, and the current
directory. A directory need not be listed if something in it is. -/
structure FileTree where
  nodes : List (List String × FileNode) := []
  current : List String := []

namespace FileTree

/-- The greatest number of bytes in a name. -/
def nameBound : Nat := 255

/-- The number of bytes that a path has to stay below. -/
def pathBound : Nat := 4096

/-- What stands at a place. -/
def find? (t : FileTree) (place : List String) : Option FileNode :=
  match t.nodes.find? (·.1 = place) with
  | some e => some e.2
  | none =>
    if place = [] || place.isPrefixOf t.current || t.nodes.any (place.isPrefixOf ·.1) then
      some .directory
    else none

/-- Follows names from a place at which `node` stands. -/
def follow (t : FileTree) (place : List String) (node : FileNode) :
    List String → Except PathFault FileNode
  | [] => .ok node
  | name :: rest =>
    match node with
    | .file _ => .error .notDirectory
    | .directory =>
      if name = "" || name = "." then t.follow place .directory rest
      else if name = ".." then t.follow place.dropLast .directory rest
      else if nameBound < name.utf8ByteSize then .error .nameTooLong
      else
        match t.find? (place ++ [name]) with
        | none => .error .notFound
        | some node => t.follow (place ++ [name]) node rest

/-- The content of the file to which a path leads. -/
def read (t : FileTree) (path : String) : FileContent :=
  if path.toList.contains '\x00' then .error .nulInside
  else if path = "" then .error .notFound
  else if pathBound ≤ path.utf8ByteSize then .error .nameTooLong
  else
    let start := if path.toList.head? = some '/' then [] else t.current
    match t.follow start .directory (path.splitOn "/") with
    | .error fault => .error fault
    | .ok .directory => .error .isDirectory
    | .ok (.file content) => .ok content

@[simp] theorem follow_nil (t : FileTree) (place : List String) (node : FileNode) :
    t.follow place node [] = .ok node := rfl

/-- Nothing leads on from a file. -/
@[simp] theorem follow_file_cons (t : FileTree) (place : List String) (content : List UInt8)
    (name : String) (rest : List String) :
    t.follow place (.file content) (name :: rest) = .error .notDirectory := rfl

end FileTree

end LayeredCache
