/-
# The write buffer

A write buffer keeps encoded matrix blocks in memory, up to a limit of bytes, in front
of a storage. A block that is too large goes to storage directly. When a block does
not fit beside the entries that are there, entries are evicted to storage in a fixed
order until it does: the entry that was written longest ago goes first or, with the
policy that counts reads, the entry that was used longest ago.

The buffer has to be initialized before it is used. Initializing and cleaning up drop
all entries without storing them.
-/

import ParallelLoop.Buffer.PageCache
import ParallelLoop.Buffer.Statistics
import ParallelLoop.Buffer.Storage
import ParallelLoop.Change
import ParallelLoop.Log
import ParallelLoop.Matrix.Encoding
import ParallelLoop.Settings.Basic

namespace ParallelLoop

/-- An entry of a write buffer. -/
structure BufferEntry where
  key : String
  /-- Bytes reserved for the entry. -/
  size : Nat
  sparse : Bool
  bytes : Bytes
  deriving DecidableEq, Repr

/-- The entries of an initialized write buffer. -/
structure Residents where
  /-- The entries in the order of their eviction. -/
  entries : List BufferEntry
  /-- Bytes reserved for all entries. -/
  size : Nat
  deriving DecidableEq, Repr

namespace Residents

/-- No entry. -/
def empty : Residents := { entries := [], size := 0 }

/-- The entry of a key. -/
def find? (residents : Residents) (key : String) : Option BufferEntry :=
  residents.entries.find? fun entry => entry.key == key

/-- The entries of all other keys. -/
def others (residents : Residents) (key : String) : List BufferEntry :=
  residents.entries.filter fun entry => entry.key != key

/-- Without an entry. Its bytes have to be among those reserved. -/
def remove (residents : Residents) (entry : BufferEntry) : Except Failure Residents :=
  if entry.size ≤ residents.size then
    .ok { entries := residents.others entry.key, size := residents.size - entry.size }
  else .error (.abort .overflow)

/-- With an entry that is evicted after all others. -/
def add (residents : Residents) (entry : BufferEntry) : Residents :=
  { entries := residents.entries ++ [entry], size := residents.size + entry.size }

/-- Puts off the eviction of an entry until after that of all others. -/
def touch (residents : Residents) (entry : BufferEntry) : Residents :=
  { residents with entries := residents.others entry.key ++ [entry] }

end Residents

/-- A write buffer in front of a storage. -/
structure BufferPool (σ : Type) where
  /-- Bytes that the entries may take. -/
  limit : Nat
  /-- Bytes that one entry may take. -/
  maxEntryBytes : Nat
  policy : EvictionPolicy
  /-- The entries; without them the buffer is not initialized. -/
  residents : Option Residents
  /-- Pages of removed entries, if these are kept. -/
  pages : Option PageCache
  statistics : BufferStatistics
  storage : σ
  log : Log

/-- The part of the memory that a write buffer may take. -/
def BufferSettings.limit {α : Type} [Quantity α] (settings : BufferSettings α) (memory : Nat) :
    Nat :=
  Quantity.floor (settings.fraction * Quantity.ofNat memory)

namespace BufferPool

variable {σ : Type}

/-- A write buffer that is not initialized. -/
def new {α : Type} [Quantity α] (settings : BufferSettings α) (memory : Nat) (storage : σ) :
    BufferPool σ :=
  { limit := settings.limit memory
    maxEntryBytes := settings.maxEntryBytes
    policy := settings.policy
    residents := none
    pages := if settings.pageCache then some .empty else none
    statistics := .zero
    storage
    log := [] }

/-- An operation on a write buffer. -/
abbrev Operation (σ α : Type) := Change (BufferPool σ) α

/-! ## Looking at a buffer -/

/-- The buffer is initialized. -/
def isInitialized (pool : BufferPool σ) : Bool := pool.residents.isSome

/-- Bytes reserved for entries. -/
def size (pool : BufferPool σ) : Nat := (pool.residents.map Residents.size).getD 0

/-- The entries in the order of their eviction. -/
def entries (pool : BufferPool σ) : List BufferEntry :=
  (pool.residents.map Residents.entries).getD []

/-- The buffer has an entry for the key. -/
def contains (pool : BufferPool σ) (key : String) : Bool :=
  pool.residents.any fun residents => (residents.find? key).isSome

/-- The entries of a buffer that has to be initialized. -/
def initialized (pool : BufferPool σ) : Except Error Residents :=
  match pool.residents with
  | some residents => .ok residents
  | none => .error .bufferNotInitialized

/-- The lines of a listing of entries; the entry to be evicted last has number one. -/
def entryLines : List BufferEntry → String
  | [] => ""
  | entry :: rest =>
    s!"\tWB: buffer element ({rest.length + 1}): {entry.key}, {entry.size}, {entry.sparse}\n" ++
      entryLines rest

/-- The listing of the buffer. -/
def status (pool : BufferPool σ) : Except Error String := do
  let residents ← pool.initialized
  return "WRITE BUFFER STATUS --\n" ++
    s!"\tWB: Buffer Meta Data: limit={pool.limit}, size[bytes]={residents.size}, " ++
    s!"size[elements]={residents.entries.length}\n" ++ entryLines residents.entries

/-! ## Steps of the operations -/

/-- Writes a line of the log. -/
def say (level : LogLevel) (text : String) : Operation σ Unit :=
  modify fun pool => { pool with log := pool.log ++ [{ level, text }] }

/-- Counts traffic. -/
def count (change : BufferStatistics → BufferStatistics) : Operation σ Unit :=
  modify fun pool => { pool with statistics := change pool.statistics }

/-- Counts a block written to storage. -/
def countStorageWrite : Operation σ Unit :=
  count fun counters => { counters with storageWrites := counters.storageWrites + 1 }

/-- Puts other entries in place of those of an initialized buffer. -/
def setResidents (residents : Residents) : Operation σ Unit :=
  modify fun pool => { pool with residents := some residents }

/-- Keeps the page of a removed entry. -/
def recycle (entry : BufferEntry) : Operation σ Unit :=
  modify fun pool =>
    { pool with pages := pool.pages.map fun pages => pages.put (.written entry.bytes) }

/-- The bytes of the page for an entry of this size, if one is kept. A new page has none yet. -/
def pageFor (pool : BufferPool σ) (size : Nat) : Bytes :=
  ((pool.pages.bind fun pages => (pages.take size).1).map Page.bytes).getD []

/-- Takes a page for an entry of this size, one that was kept or a new one. Gives its bytes. -/
def takePage (size : Nat) : Operation σ Bytes := do
  let page := (← get).pageFor size
  modify fun pool => { pool with pages := pool.pages.map fun pages => (pages.take size).2 }
  return page

/-- A call of the storage about a key. -/
def callStorage {α : Type} (key : String) (call : σ → Except StorageFault α × σ) :
    Operation σ α := do
  let pool ← get
  let (outcome, storage) := call pool.storage
  set { pool with storage }
  match outcome with
  | .ok value => return value
  | .error fault => Change.fail (.storage key fault)

/-- Removes an entry and keeps its page. -/
def removeEntry (entry : BufferEntry) : Operation σ Unit := do
  let residents ← Change.inspect initialized
  setResidents (← Change.ofOutcome (residents.remove entry))
  recycle entry

/-- Removes the entry of a key, if there is one. -/
def discard (key : String) : Operation σ Unit := do
  let residents ← Change.inspect initialized
  match residents.find? key with
  | some entry => removeEntry entry
  | none => pure ()

variable [BlockStorage σ]

/-- Evicts entries from the first one on until as many bytes are free as needed. -/
def evict (needed : Nat) : List BufferEntry → Operation σ Unit
  | [] => pure ()
  | victim :: rest => do
    let pool ← get
    if pool.size + needed ≤ pool.limit then pure ()
    else
      -- The victim is stored before it is removed, so a refusal of the storage loses nothing.
      callStorage victim.key fun storage => BlockStorage.write storage victim.key victim.bytes
      removeEntry victim
      countStorageWrite
      say .trace s!"write buffer: evicted '{victim.key}' ({victim.size} bytes)"
      evict needed rest

/-! ## Operations -/

omit [BlockStorage σ] in
/-- Drops all entries and pages. -/
def reset (residents : Option Residents) : Operation σ Unit :=
  modify fun pool => { pool with residents, pages := pool.pages.map fun _ => .empty }

omit [BlockStorage σ] in
/-- Starts with no entries. -/
def initializeBuffer : Operation σ Unit := do
  reset (some .empty)
  let pool ← get
  let limit : Float := Quantity.ofNat pool.limit
  say .debug (s!"write buffer: initialized with limit={Quantity.megabytes limit} " ++
    s!"({pool.policy.logName})")

omit [BlockStorage σ] in
/-- Ends the use of the buffer. -/
def cleanup : Operation σ Unit := reset none

/-- Writes a block under a key. -/
def write (key : String) (block : MatrixBlock) : Operation σ Unit := do
  let size := block.encodedSize
  let pool ← get
  -- The old entry goes first, and its bytes are free again.
  discard key
  if pool.limit < size ∨ pool.maxEntryBytes < size then
    callStorage key fun storage => BlockStorage.write storage key block.encode
    countStorageWrite
    say .debug s!"write buffer: bypassed '{key}' ({size} bytes, limit {pool.limit})"
  else
    evict size (← get).entries
    let residents ← Change.inspect initialized
    let page ← takePage size
    setResidents (residents.add
      { key, size, sparse := block.isSparse, bytes := block.encodeInto page })
    count fun counters => { counters with bufferWrites := counters.bufferWrites + 1 }

/-- The block in stored bytes. -/
def load (key : String) (bytes : Bytes) : Except Error MatrixBlock :=
  match MatrixBlock.decode? bytes with
  | some block => .ok block
  | none => .error (.storage key .undecodable)

/-- Reads the block under a key. -/
def read (key : String) : Operation σ MatrixBlock := do
  let residents ← Change.inspect initialized
  match residents.find? key with
  | some entry =>
    -- The entry counts as used before its bytes are looked at.
    if (← get).policy = .lru then setResidents (residents.touch entry)
    let block ← Change.ofExcept (load key entry.bytes)
    count fun counters => { counters with bufferHits := counters.bufferHits + 1 }
    return block
  | none =>
    let bytes ← callStorage key fun storage => BlockStorage.read storage key
    let block ← Change.ofExcept (load key bytes)
    count fun counters => { counters with storageHits := counters.storageHits + 1 }
    return block

/-- Removes the block under a key from the buffer and from storage. -/
def delete (key : String) : Operation σ Unit := do
  discard key
  let _ ← callStorage key fun storage => BlockStorage.delete storage key

omit [BlockStorage σ] in
/-- Starts counting anew. -/
def resetStatistics : Operation σ Unit := count fun _ => .zero

end BufferPool

end ParallelLoop
