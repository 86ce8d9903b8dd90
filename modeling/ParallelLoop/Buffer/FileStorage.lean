/-
# Storage in files

Bytes are kept in files below a scratch directory, under the path that a key names.
Writing makes the directories on the way, and these remain when the file is deleted or
when the write fails later on. Two keys that name the same path share a file.

Before a path is followed it has to be one that the file system takes: without the
character that ends every path, and not too long. The path of the scratch directory is
part of it, so the same key can be too long for one directory and not for another. A
path that ends with a slash or a dot asks for a directory, so it never leads to a file.
-/

import ParallelLoop.Buffer.FileTree
import ParallelLoop.Buffer.ScratchPath
import ParallelLoop.Buffer.Storage

namespace ParallelLoop

/-- The files below a scratch directory. -/
structure FileStorage where
  /-- The path of the scratch directory. -/
  rootPath : String
  /-- The scratch directory. -/
  root : FileTree

namespace FileStorage

/-- An empty scratch directory with this path. -/
def empty (rootPath : String) : FileStorage := { rootPath, root := .emptyDirectory }

/-- Largest number of bytes in a path of the file system. -/
def maxPathBytes : Nat := 4095

/-- The file system takes the path, from the path of the scratch directory on. -/
def checkPath (rootPath : String) (path : ScratchPath) : Except StorageFault Unit :=
  let whole := path.under rootPath
  if '\x00' ∈ whole.toList then .error .unusableName
  else if maxPathBytes < whole.utf8ByteSize then .error .nameTooLong
  else .ok ()

/-- What stands at a path. -/
def find (storage : FileStorage) (path : ScratchPath) : Except StorageFault FileTree := do
  checkPath storage.rootPath path
  storage.root.find path.names

/-- Makes the directories that lead to a path. -/
def makeParent (storage : FileStorage) (path : ScratchPath) :
    Except StorageFault Unit × FileStorage :=
  match checkPath storage.rootPath path.parent with
  | .error fault => (.error fault, storage)
  | .ok () =>
    let (outcome, root) := storage.root.makeDirectories path.parent.names
    (outcome, { storage with root })

/-- Why a file cannot be opened for writing at a path, once the directories that lead to it
exist. -/
def writeFault? (storage : FileStorage) (path : ScratchPath) : Option StorageFault :=
  match checkPath storage.rootPath path, path.ending with
  | .error fault, _ => some fault
  | .ok (), .slash => some .isADirectory
  | .ok (), ending =>
    match storage.root.find path.names with
    | .ok (.directory _) => some .isADirectory
    | .ok (.file _) => if ending = .name then none else some .notADirectory
    | .error .missingFile => if ending = .name then none else some .missingFile
    | .error fault => some fault

/-- Writes the file of a path. -/
def writeFile (storage : FileStorage) (path : ScratchPath) (bytes : Bytes) :
    Except StorageFault Unit × FileStorage :=
  match storage.makeParent path with
  | (.error fault, storage) => (.error fault, storage)
  | (.ok (), storage) =>
    match storage.writeFault? path with
    | some fault => (.error fault, storage)
    | none => (.ok (), { storage with root := storage.root.put bytes path.names })

/-- Reads the file of a path. -/
def readFile (storage : FileStorage) (path : ScratchPath) : Except StorageFault Bytes := do
  match ← storage.find path with
  | .file bytes => if path.ending = .name then .ok bytes else .error .notADirectory
  | .directory _ => .error .isADirectory

/-- Deletes the file of a path, which has to be one that could be read. -/
def deleteFile (storage : FileStorage) (path : ScratchPath) :
    Except StorageFault Bool × FileStorage :=
  match storage.readFile path with
  | .ok _ => (.ok true, { storage with root := storage.root.erase path.names })
  | .error .missingFile => (.ok false, storage)
  | .error fault => (.error fault, storage)

instance : BlockStorage FileStorage where
  write storage key bytes :=
    match ScratchPath.ofKey? key with
    | some path => storage.writeFile path bytes
    | none => (.error .invalidKey, storage)
  read storage key :=
    match ScratchPath.ofKey? key with
    | some path => (storage.readFile path, storage)
    | none => (.error .invalidKey, storage)
  delete storage key :=
    match ScratchPath.ofKey? key with
    | some path => storage.deleteFile path
    | none => (.error .invalidKey, storage)

end FileStorage

end ParallelLoop
