/-
# Paths in a scratch directory

A storage key can name a file below a scratch directory. Its parts stand between
slashes; empty parts and single dots mean nothing, except that a path may begin with
either. A key is accepted when it is not empty and each of its components stays inside
the directory, so that none of them is the root of the file system or goes up.
-/

import ParallelLoop.Error

namespace ParallelLoop

/-- The pieces of a text between slashes. -/
def splitAtSlashes : List Char → List (List Char)
  | [] => [[]]
  | c :: rest =>
    if c = '/' then [] :: splitAtSlashes rest
    else
      match splitAtSlashes rest with
      | [] => [[c]]
      | piece :: pieces => (c :: piece) :: pieces

/-- What a path consists of. -/
inductive PathComponent
  /-- The root of the file system, where the path begins. -/
  | root
  /-- The current directory, where the path begins. -/
  | current
  /-- The directory above. -/
  | parent
  | name (text : String)
  deriving DecidableEq, Repr

namespace PathComponent

/-- The component that a piece stands for, wherever it is in the path. -/
def ofPiece? (piece : String) : Option PathComponent :=
  if piece = "" ∨ piece = "." then none
  else if piece = ".." then some .parent
  else some (.name piece)

/-- The component does not leave the directory in which it is met. -/
def staysInside : PathComponent → Bool
  | current | name _ => true
  | root | parent => false

end PathComponent

/-- How a key ends. -/
inductive PathEnding
  /-- With a name. -/
  | name
  /-- With a slash behind a name, so that the name has to be that of a directory. -/
  | slash
  /-- With a single dot, which stands for the directory before it. -/
  | dot
  deriving DecidableEq, Repr

/-- A path below the scratch directory, as a key writes it. -/
structure ScratchPath where
  /-- The parts between slashes, with the empty ones and the dots. -/
  pieces : List String
  deriving DecidableEq, Repr

namespace ScratchPath

/-- The piece is a name, and not one that means nothing. -/
def isName (piece : String) : Bool := piece != "" && piece != "."

/-- The path of a key, whether the key may be used or not. -/
def ofKey (key : String) : ScratchPath :=
  { pieces := (splitAtSlashes key.toList).map String.ofList }

/-- Where the path begins, if its first piece says so: at the root when nothing stands before the
first slash, and in the current directory when a dot does. -/
def start? (path : ScratchPath) : Option PathComponent :=
  match path.pieces with
  | first :: rest =>
    if first = "." then some .current else if first = "" ∧ rest ≠ [] then some .root else none
  | [] => none

/-- The components of the path. -/
def components (path : ScratchPath) : List PathComponent :=
  path.start?.toList ++ path.pieces.filterMap PathComponent.ofPiece?

/-- The key names something in the scratch directory. -/
def accepts (key : String) : Bool :=
  key != "" && (ofKey key).components.all PathComponent.staysInside

/-- A path below another one. A path that begins at the root stands for itself. -/
def join (root path : String) : String :=
  if path.toList.head? = some '/' then path
  else if root = "" ∨ root.toList.getLast? = some '/' then root ++ path
  else root ++ "/" ++ path

/-- The path of the file that a key stands for, in the scratch directory with this path. -/
def resolve (root key : String) : Except StorageFault String :=
  if accepts key then .ok (join root key) else .error .invalidKey

/-- The path that a key names. -/
def ofKey? (key : String) : Option ScratchPath :=
  if accepts key then some (ofKey key) else none

/-- The names on the way from the scratch directory. -/
def names (path : ScratchPath) : List String := path.pieces.filter isName

/-- The ending of the path. -/
def ending (path : ScratchPath) : PathEnding :=
  if (path.pieces.filter fun piece => piece != "").getLast? = some "." then .dot
  else if path.pieces.getLast? = some "" then .slash
  else .name

/-- The path of the directory in which the path lies, up to its last name. -/
def parent (path : ScratchPath) : ScratchPath :=
  let toParent (pieces : List String) : List String := pieces.dropWhile fun piece => !isName piece
  { pieces := (toParent ((toParent path.pieces.reverse).drop 1)).reverse }

/-- The path as it is written. -/
def text (path : ScratchPath) : String := "/".intercalate path.pieces

/-- The path of the file system that leads there, from the path of the scratch directory. -/
def under (root : String) (path : ScratchPath) : String :=
  if path.pieces = [] then root else join root path.text

end ScratchPath

end ParallelLoop
