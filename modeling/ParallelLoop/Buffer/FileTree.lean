/-
# Files and directories

A directory holds files and further directories by name. Whoever follows a path meets
its names one after the other: a name has to be short enough to be looked up, and all
but the last one have to lead to a directory.
-/

import ParallelLoop.Bytes
import ParallelLoop.Error

namespace ParallelLoop

/-- A file or a directory. -/
inductive FileTree
  | file (bytes : Bytes)
  /-- A directory with what it holds under each name. -/
  | directory (entries : List (String × FileTree))

namespace FileTree

/-- A directory that holds nothing. -/
def emptyDirectory : FileTree := .directory []

/-- Largest number of bytes in a name. -/
def maxNameBytes : Nat := 255

/-- What a directory holds under a name. -/
def lookUp (entries : List (String × FileTree)) (name : String) :
    Except StorageFault (Option FileTree) :=
  if maxNameBytes < name.utf8ByteSize then .error .nameTooLong
  else .ok (entries.lookup name)

/-- The entries of a directory without those under a name. -/
def eraseEntry (entries : List (String × FileTree)) (name : String) : List (String × FileTree) :=
  entries.filter fun held => held.1 != name

/-- The entries of a directory with something else under a name. -/
def putEntry (entries : List (String × FileTree)) (name : String) (tree : FileTree) :
    List (String × FileTree) :=
  (name, tree) :: eraseEntry entries name

/-- Follows a path to its end. -/
def find : FileTree → List String → Except StorageFault FileTree
  | tree, [] => .ok tree
  | .file _, _ :: _ => .error .notADirectory
  | .directory entries, name :: rest => do
    match ← lookUp entries name with
    | some tree => tree.find rest
    | none => .error .missingFile

/-- Makes the directories on a path that do not exist yet. Those that were made before
one that cannot be made remain. -/
def makeDirectories : FileTree → List String → Except StorageFault Unit × FileTree
  | .file bytes, names =>
    (.error (if names = [] then .alreadyExists else .notADirectory), .file bytes)
  | .directory entries, [] => (.ok (), .directory entries)
  | .directory entries, name :: rest =>
    match lookUp entries name with
    | .error fault => (.error fault, .directory entries)
    | .ok found =>
      let (outcome, tree) := (found.getD emptyDirectory).makeDirectories rest
      (outcome, .directory (putEntry entries name tree))

/-- With these bytes in the file at the end of a path whose directories exist. -/
def put (bytes : Bytes) : FileTree → List String → FileTree
  | _, [] => .file bytes
  | .file held, _ :: _ => .file held
  | .directory entries, name :: rest =>
    let below := (entries.lookup name).getD emptyDirectory
    .directory (putEntry entries name (below.put bytes rest))

/-- Without what is at the end of a path. -/
def erase : FileTree → List String → FileTree
  | .directory entries, [name] => .directory (eraseEntry entries name)
  | .directory entries, name :: rest =>
    match entries.lookup name with
    | some tree => .directory (putEntry entries name (tree.erase rest))
    | none => .directory entries
  | tree, _ => tree

end FileTree

end ParallelLoop
