/-
# Storage

Storage keeps bytes under keys, byte for byte. A storage may fail on any call, and
every call gives the storage as it is afterwards. The plainest storage is a map in
memory, which never refuses anything.
-/

import ParallelLoop.Bytes
import ParallelLoop.Error

namespace ParallelLoop

/-- Storage of bytes under keys. -/
class BlockStorage (σ : Type) where
  /-- Stores bytes in place of what was stored under the key. -/
  write (storage : σ) (key : String) (bytes : Bytes) : Except StorageFault Unit × σ
  /-- Gives what is stored under the key. -/
  read (storage : σ) (key : String) : Except StorageFault Bytes × σ
  /-- Removes what is stored under the key. Tells whether there was something. -/
  delete (storage : σ) (key : String) : Except StorageFault Bool × σ

/-- Storage in memory; a key occurs once. -/
structure MemoryStorage where
  entries : List (String × Bytes)
  deriving DecidableEq, Repr

namespace MemoryStorage

/-- Nothing is stored. -/
def empty : MemoryStorage := { entries := [] }

/-- The bytes under a key. -/
def get? (storage : MemoryStorage) (key : String) : Option Bytes := storage.entries.lookup key

/-- Without the bytes under a key. -/
def erase (storage : MemoryStorage) (key : String) : MemoryStorage :=
  { entries := storage.entries.filter fun entry => entry.1 != key }

/-- With other bytes under a key. -/
def insert (storage : MemoryStorage) (key : String) (bytes : Bytes) : MemoryStorage :=
  { entries := (key, bytes) :: (storage.erase key).entries }

/-- Number of keys. -/
def size (storage : MemoryStorage) : Nat := storage.entries.length

instance : BlockStorage MemoryStorage where
  write storage key bytes := (.ok (), storage.insert key bytes)
  read storage key :=
    match storage.get? key with
    | some bytes => (.ok bytes, storage)
    | none => (.error .missing, storage)
  delete storage key := (.ok (storage.get? key).isSome, storage.erase key)

end MemoryStorage

/-- A storage that does not accept writes to some keys. -/
structure GuardedStorage (σ : Type) where
  storage : σ
  refused : List String
  deriving DecidableEq, Repr

instance {σ : Type} [BlockStorage σ] : BlockStorage (GuardedStorage σ) where
  write guarded key bytes :=
    if guarded.refused.contains key then (.error .refused, guarded)
    else
      let (outcome, storage) := BlockStorage.write guarded.storage key bytes
      (outcome, { guarded with storage })
  read guarded key :=
    let (outcome, storage) := BlockStorage.read guarded.storage key
    (outcome, { guarded with storage })
  delete guarded key :=
    let (outcome, storage) := BlockStorage.delete guarded.storage key
    (outcome, { guarded with storage })

end ParallelLoop
