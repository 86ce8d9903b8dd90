/-
# What the operations of a write buffer do

An operation on an initialized buffer ends in one of a few ways. Which one depends on the limits,
the entries and what the storage answers. `Writes`, `Reads` and `Deletes` list the ways, each with
the outcome and the buffer that it leaves; a write may first evict other entries, one after the
other, as `Evicts` tells. The theorems `exists_writes`, `exists_reads`, `exists_deletes` and
`exists_evicts` say that nothing else can happen, and `serves` says so of any call. What holds of
one buffer in use is proved from these, a case for each way. Only proofs that run two buffers side
by side look into the operations themselves.

A buffer that is not initialized refuses every call and stays as it is.
-/

import ParallelLoop.Proofs.Buffer.Residents
import ParallelLoop.Proofs.Change

namespace ParallelLoop

/-- The entry of a block that was written. -/
def BufferEntry.ofBlock (key : String) (block : MatrixBlock) : BufferEntry :=
  { key, size := block.encodedSize, sparse := block.isSparse, bytes := block.encode }

/-- A call of a write buffer. -/
inductive BufferCall
  | write (key : String) (block : MatrixBlock)
  | read (key : String)
  | delete (key : String)

namespace BufferPool

variable {σ : Type} {pool after : BufferPool σ} {residents kept : Residents} {entry : BufferEntry}
  {key : String} {block : MatrixBlock} {needed : Nat}

theorem entries_eq (given : pool.residents = some residents) :
    pool.entries = residents.entries := by
  rw [entries, given]
  rfl

theorem size_eq (given : pool.residents = some residents) : pool.size = residents.size := by
  rw [size, given]
  rfl

/-! ## Steps of the operations -/

@[simp] theorem result_say (level : LogLevel) (text : String) (pool : BufferPool σ) :
    (say level text).result pool = (.ok (), { pool with log := pool.log ++ [{ level, text }] }) :=
  rfl

@[simp] theorem result_count (change : BufferStatistics → BufferStatistics)
    (pool : BufferPool σ) :
    (count change).result pool = (.ok (), { pool with statistics := change pool.statistics }) :=
  rfl

@[simp] theorem result_setResidents (residents : Residents) (pool : BufferPool σ) :
    (setResidents residents).result pool = (.ok (), { pool with residents := some residents }) :=
  rfl

@[simp] theorem result_takePage (size : Nat) (pool : BufferPool σ) :
    (takePage size).result pool =
      (.ok (pool.pageFor size),
        { pool with pages := pool.pages.map fun pages => (pages.take size).2 }) := rfl

theorem result_initialized (given : pool.residents = some residents) :
    (Change.inspect initialized).result pool = (.ok residents, pool) := by
  rw [Change.result_inspect, initialized, given]
  rfl

theorem result_initialized_none (given : pool.residents = none) :
    (Change.inspect initialized).result pool = (.error (.error .bufferNotInitialized), pool) := by
  rw [Change.result_inspect, initialized, given]
  rfl

theorem result_callStorage {α : Type} {call : σ → Except StorageFault α × σ}
    {outcome : Except StorageFault α} {after : σ} (called : call pool.storage = (outcome, after)) :
    (callStorage key call).result pool =
      (orFailure (outcome.mapError (.storage key)), { pool with storage := after }) := by
  unfold callStorage
  rw [Change.result_bind (Change.result_get pool)]
  dsimp only
  rw [called]
  dsimp only
  rw [Change.result_bind (Change.result_set _ pool)]
  cases outcome <;> rfl

theorem callStorage_ok {α : Type} {call : σ → Except StorageFault α × σ} {value : α} {after : σ}
    (called : call pool.storage = (.ok value, after)) :
    (callStorage key call).result pool = (.ok value, { pool with storage := after }) :=
  result_callStorage called

theorem callStorage_error {α : Type} {call : σ → Except StorageFault α × σ}
    {fault : StorageFault} {after : σ} (called : call pool.storage = (.error fault, after)) :
    (callStorage key call).result pool =
      (.error (.error (.storage key fault)), { pool with storage := after }) :=
  result_callStorage called

/-- The buffer without an entry, whose page is kept. -/
def dropped (pool : BufferPool σ) (residents : Residents) (entry : BufferEntry) : BufferPool σ :=
  { pool with
    residents := some (residents.drop entry)
    pages := pool.pages.map fun pages => pages.put (.written entry.bytes) }

theorem result_removeEntry (given : pool.residents = some residents) (sound : residents.IsSound)
    (member : entry ∈ residents.entries) :
    (removeEntry entry).result pool = (.ok (), pool.dropped residents entry) := by
  unfold removeEntry
  rw [Change.result_bind (result_initialized given), sound.remove_eq member,
    Change.result_bind (Change.result_ofOutcome _ pool),
    Change.result_bind (result_setResidents _ pool)]
  rfl

/-- The buffer without the entry of a key, if there is one, whose page is kept. -/
def cleared (pool : BufferPool σ) (residents : Residents) (key : String) : BufferPool σ :=
  { pool with
    residents := some (residents.clear key)
    pages := match residents.find? key with
      | some entry => pool.pages.map fun pages => pages.put (.written entry.bytes)
      | none => pool.pages }

@[simp] theorem residents_cleared (pool : BufferPool σ) (residents : Residents) (key : String) :
    (pool.cleared residents key).residents = some (residents.clear key) := rfl

theorem result_discard (given : pool.residents = some residents) (sound : residents.IsSound)
    (key : String) : (discard key).result pool = (.ok (), pool.cleared residents key) := by
  unfold discard
  rw [Change.result_bind (result_initialized given), cleared]
  cases found : residents.find? key with
  | none =>
    rw [Residents.clear_of_absent found, ← given]
    rfl
  | some entry =>
    rw [Residents.clear_of_found found]
    exact result_removeEntry given sound (Residents.mem_of_find? found).1

/-- The buffer after bytes were loaded, which counts if they load. -/
def counted (pool : BufferPool σ) (bytes : Bytes) (change : BufferStatistics → BufferStatistics) :
    BufferPool σ :=
  { pool with
    statistics :=
      if (MatrixBlock.decode? bytes).isSome then change pool.statistics else pool.statistics }

/-- Every read ends like this. -/
theorem result_loaded (key : String) (bytes : Bytes)
    (change : BufferStatistics → BufferStatistics) (pool : BufferPool σ) :
    ((do
      let block ← Change.ofExcept (load key bytes)
      count change
      return block : Operation σ MatrixBlock).result pool) =
      (orFailure (load key bytes), pool.counted bytes change) := by
  rw [load, counted]
  cases MatrixBlock.decode? bytes <;> rfl

/-- What an operation leaves as it is: the settings, and that the buffer is initialized. -/
structure GoesOn (pool after : BufferPool σ) : Prop where
  limit_eq : after.limit = pool.limit
  maxEntryBytes_eq : after.maxEntryBytes = pool.maxEntryBytes
  policy_eq : after.policy = pool.policy
  initialized : ∃ kept, after.residents = some kept

theorem GoesOn.trans {middle : BufferPool σ} (first : GoesOn pool middle)
    (second : GoesOn middle after) : GoesOn pool after where
  limit_eq := second.limit_eq.trans first.limit_eq
  maxEntryBytes_eq := second.maxEntryBytes_eq.trans first.maxEntryBytes_eq
  policy_eq := second.policy_eq.trans first.policy_eq
  initialized := second.initialized

theorem goesOn_cleared (pool : BufferPool σ) (residents : Residents) (key : String) :
    GoesOn pool (pool.cleared residents key) := ⟨rfl, rfl, rfl, _, rfl⟩

/-! ## Evicting -/

/-- The buffer after its first entry went to storage. -/
def spilled (pool : BufferPool σ) (residents : Residents) (victim : BufferEntry) (storage : σ)
    (log : Log) : BufferPool σ :=
  { ({ pool with storage, log } : BufferPool σ).dropped residents victim with
    statistics := { pool.statistics with storageWrites := pool.statistics.storageWrites + 1 } }

section Spilled

variable (pool : BufferPool σ) (residents : Residents) (victim : BufferEntry) (storage : σ)
  (log : Log)

@[simp] theorem residents_spilled : (pool.spilled residents victim storage log).residents =
    some (residents.drop victim) := rfl

@[simp] theorem storage_spilled :
    (pool.spilled residents victim storage log).storage = storage := rfl

theorem goesOn_spilled : GoesOn pool (pool.spilled residents victim storage log) :=
  ⟨rfl, rfl, rfl, _, rfl⟩

end Spilled

/-- The entry is the first one, and without more room it has to go. -/
structure IsVictim (needed : Nat) (pool : BufferPool σ) (residents : Residents)
    (victim : BufferEntry) : Prop where
  given : pool.residents = some residents
  sound : residents.IsSound
  order : residents.entries = victim :: (residents.drop victim).entries
  full : ¬ residents.size + needed ≤ pool.limit

theorem IsVictim.member {victim : BufferEntry} (next : IsVictim needed pool residents victim) :
    victim ∈ residents.entries := next.order ▸ List.mem_cons_self ..

theorem IsVictim.find?_eq {victim : BufferEntry} (next : IsVictim needed pool residents victim) :
    residents.find? victim.key = some victim := Residents.find?_head next.order

variable [BlockStorage σ]

/-- What evicting comes to, from a buffer with these entries on, until so many bytes are free. -/
inductive Evicts (needed : Nat) : BufferPool σ → Residents →
    Except Failure Unit → BufferPool σ → Residents → Prop
  /-- There is room, or nothing is left to evict. -/
  | room {pool : BufferPool σ} {residents : Residents} (given : pool.residents = some residents)
    (sound : residents.IsSound)
    (room : residents.entries = [] ∨ residents.size + needed ≤ pool.limit) :
    Evicts needed pool residents (.ok ()) pool residents
  /-- The storage refuses the first entry, which stays where it is. -/
  | refused {pool : BufferPool σ} {residents : Residents} {victim : BufferEntry}
    {fault : StorageFault} {storage : σ} (next : IsVictim needed pool residents victim)
    (called : BlockStorage.write pool.storage victim.key victim.bytes = (.error fault, storage)) :
    Evicts needed pool residents (.error (.error (.storage victim.key fault)))
      { pool with storage } residents
  /-- The storage takes the first entry, and the others may follow. -/
  | spill {pool after : BufferPool σ} {residents kept : Residents} {victim : BufferEntry}
    {storage : σ} {log : Log} {outcome : Except Failure Unit}
    (next : IsVictim needed pool residents victim)
    (called : BlockStorage.write pool.storage victim.key victim.bytes = (.ok (), storage))
    (later : Evicts needed (pool.spilled residents victim storage log) (residents.drop victim)
      outcome after kept) :
    Evicts needed pool residents outcome after kept

/-- Without enough room, the first entry goes to storage and the others may follow. -/
theorem result_evict_cons {victim : BufferEntry} {storage : σ}
    (next : IsVictim needed pool residents victim)
    (called : BlockStorage.write pool.storage victim.key victim.bytes = (.ok (), storage))
    (rest : List BufferEntry) : ∃ log, (evict needed (victim :: rest)).result pool =
      (evict needed rest).result (pool.spilled residents victim storage log) := by
  have full : ¬ pool.size + needed ≤ pool.limit := size_eq next.given ▸ next.full
  have held : ({ pool with storage } : BufferPool σ).residents = some residents := next.given
  rw [evict, Change.result_bind (Change.result_get pool), if_neg full,
    Change.result_bind (callStorage_ok called),
    Change.result_bind (result_removeEntry held next.sound next.member), countStorageWrite,
    Change.result_bind (result_count _ _), Change.result_bind (result_say _ _ _)]
  exact ⟨pool.log ++ [_], rfl⟩

/-- Evicting comes to nothing else. -/
theorem exists_evicts (given : pool.residents = some residents) (sound : residents.IsSound)
    (needed : Nat) : ∃ outcome after kept,
      (evict needed residents.entries).result pool = (outcome, after) ∧
        Evicts needed pool residents outcome after kept := by
  -- Along the order of eviction, one entry after the other.
  induction order : residents.entries generalizing pool residents with
  | nil => exact ⟨_, _, _, rfl, .room given sound (.inl order)⟩
  | cons victim rest ih =>
    have tail : (residents.drop victim).entries = rest := sound.others_eq_tail order
    by_cases room : residents.size + needed ≤ pool.limit
    · rw [evict, Change.result_bind (Change.result_get pool), size_eq given, if_pos room]
      exact ⟨_, _, _, rfl, .room given sound (.inr room)⟩
    have next : IsVictim needed pool residents victim := ⟨given, sound, tail ▸ order, room⟩
    rcases called : BlockStorage.write pool.storage victim.key victim.bytes with ⟨answer, storage⟩
    cases answer with
    | error fault =>
      rw [evict, Change.result_bind (Change.result_get pool), size_eq given, if_neg room,
        Change.result_bind_error (callStorage_error called)]
      exact ⟨_, _, _, rfl, .refused next called⟩
    | ok done =>
      obtain ⟨log, goesOn⟩ := result_evict_cons next called rest
      obtain ⟨outcome, after, kept, evicted, later⟩ :=
        ih (residents_spilled pool residents victim storage log) (sound.drop next.member) tail
      exact ⟨outcome, after, kept, goesOn.trans evicted, .spill next called later⟩

namespace Evicts

variable {outcome : Except Failure Unit} (evicts : Evicts needed pool residents outcome after kept)
include evicts

theorem residents_eq : pool.residents = some residents ∧ after.residents = some kept := by
  induction evicts with
  | room given => exact ⟨given, given⟩
  | refused next => exact ⟨next.given, next.given⟩
  | spill next _ _ ih => exact ⟨next.given, ih.2⟩

theorem isSound : kept.IsSound := by
  induction evicts with
  | room _ sound => exact sound
  | refused next => exact next.sound
  | spill _ _ _ ih => exact ih

theorem goesOn : GoesOn pool after := by
  induction evicts with
  | room given => exact ⟨rfl, rfl, rfl, _, given⟩
  | refused next => exact ⟨rfl, rfl, rfl, _, next.given⟩
  | spill _ _ _ ih => exact .trans (goesOn_spilled ..) ih

/-- Entries are given up from the first one on. -/
theorem exists_drop : ∃ count ≤ residents.entries.length,
    kept.entries = residents.entries.drop count := by
  induction evicts with
  | room => exact ⟨0, Nat.zero_le _, rfl⟩
  | refused => exact ⟨0, Nat.zero_le _, rfl⟩
  | spill next _ _ ih =>
    obtain ⟨count, bound, dropped⟩ := ih
    rw [next.order]
    exact ⟨count + 1, Nat.succ_le_succ bound, dropped⟩

/-- No key gets an entry. -/
theorem find?_eq_none (absent : residents.find? key = none) : kept.find? key = none := by
  obtain ⟨count, -, dropped⟩ := evicts.exists_drop
  rw [Residents.find?, List.find?_eq_none] at absent ⊢
  rw [dropped]
  exact fun entry member => absent entry (List.mem_of_mem_drop member)

/-- Evicting changes no counter but the one of writes to storage. -/
theorem statistics_eq : after.statistics =
    { pool.statistics with storageWrites := after.statistics.storageWrites } := by
  induction evicts with
  | room => rfl
  | refused => rfl
  | spill _ _ _ ih => exact ih

end Evicts

/-! ## Operations -/

/-- What writing a block comes to. -/
inductive Writes (key : String) (block : MatrixBlock) (pool : BufferPool σ)
    (residents : Residents) : Except Failure Unit → BufferPool σ → Prop
  /-- A block that is too large goes around the buffer. -/
  | around {storage : σ} {log : Log}
    (large : pool.limit < block.encodedSize ∨ pool.maxEntryBytes < block.encodedSize)
    (called : BlockStorage.write pool.storage key block.encode = (.ok (), storage)) :
    Writes key block pool residents (.ok ())
      { pool.cleared residents key with
        storage, log
        statistics := { pool.statistics with storageWrites := pool.statistics.storageWrites + 1 } }
  /-- The storage may refuse it. -/
  | refused {storage : σ} {fault : StorageFault}
    (large : pool.limit < block.encodedSize ∨ pool.maxEntryBytes < block.encodedSize)
    (called : BlockStorage.write pool.storage key block.encode = (.error fault, storage)) :
    Writes key block pool residents (.error (.error (.storage key fault)))
      { pool.cleared residents key with storage }
  /-- Any other block gets an entry, for which there is room after others were evicted. -/
  | into {spilled : BufferPool σ} {kept : Residents}
    (fits : block.encodedSize ≤ pool.limit) (small : block.encodedSize ≤ pool.maxEntryBytes)
    (evicts : Evicts block.encodedSize (pool.cleared residents key) (residents.clear key)
      (.ok ()) spilled kept) (pages : Option PageCache) :
    Writes key block pool residents (.ok ())
      { spilled with
        residents := some (kept.add (.ofBlock key block)), pages
        statistics :=
          { spilled.statistics with bufferWrites := spilled.statistics.bufferWrites + 1 } }
  /-- The storage may refuse one of these. -/
  | stuck {after : BufferPool σ} {kept : Residents} {cause : Failure}
    (fits : block.encodedSize ≤ pool.limit) (small : block.encodedSize ≤ pool.maxEntryBytes)
    (evicts : Evicts block.encodedSize (pool.cleared residents key) (residents.clear key)
      (.error cause) after kept) :
    Writes key block pool residents (.error cause) after

/-- What reading under a key comes to. -/
inductive Reads (key : String) (pool : BufferPool σ) (residents : Residents) :
    Except Failure MatrixBlock → BufferPool σ → Prop
  /-- The entry is used, and its bytes are loaded. -/
  | hit {entry : BufferEntry} (found : residents.find? key = some entry) :
    Reads key pool residents (orFailure (load key entry.bytes))
      (({ pool with residents := some (residents.used pool.policy entry) } :
        BufferPool σ).counted entry.bytes
          fun counters => { counters with bufferHits := counters.bufferHits + 1 })
  /-- Without an entry, the bytes are loaded that are in storage. -/
  | fetched {bytes : Bytes} {storage : σ} (absent : residents.find? key = none)
    (called : BlockStorage.read pool.storage key = (.ok bytes, storage)) :
    Reads key pool residents (orFailure (load key bytes))
      (({ pool with storage } : BufferPool σ).counted bytes
        fun counters => { counters with storageHits := counters.storageHits + 1 })
  /-- The storage may refuse to give them. -/
  | refused {fault : StorageFault} {storage : σ} (absent : residents.find? key = none)
    (called : BlockStorage.read pool.storage key = (.error fault, storage)) :
    Reads key pool residents (.error (.error (.storage key fault))) { pool with storage }

/-- What deleting under a key comes to. The entry is gone also when the storage refuses. -/
inductive Deletes (key : String) (pool : BufferPool σ) (residents : Residents) :
    Except Failure Unit → BufferPool σ → Prop
  | removed {found : Bool} {storage : σ}
    (called : BlockStorage.delete pool.storage key = (.ok found, storage)) :
    Deletes key pool residents (.ok ()) { pool.cleared residents key with storage }
  | refused {fault : StorageFault} {storage : σ}
    (called : BlockStorage.delete pool.storage key = (.error fault, storage)) :
    Deletes key pool residents (.error (.error (.storage key fault)))
      { pool.cleared residents key with storage }

section Initialized

variable (given : pool.residents = some residents) (sound : residents.IsSound)
include given

include sound in
/-- Writing comes to nothing else. -/
theorem exists_writes (key : String) (block : MatrixBlock) : ∃ outcome after,
    (write key block).result pool = (outcome, after) ∧
      Writes key block pool residents outcome after := by
  unfold write
  rw [Change.result_bind (Change.result_get pool),
    Change.result_bind (result_discard given sound key)]
  -- The limits are those from before the old entry went, which is the same.
  split
  next large =>
    rcases called : BlockStorage.write (pool.cleared residents key).storage key block.encode with
      ⟨answer, storage⟩
    cases answer with
    | error fault =>
      rw [Change.result_bind_error (callStorage_error called)]
      exact ⟨_, _, rfl, .refused large called⟩
    | ok done =>
      rw [Change.result_bind (callStorage_ok called), countStorageWrite,
        Change.result_bind (result_count _ _), result_say]
      exact ⟨_, _, rfl, .around large called⟩
  next inside =>
    rw [not_or, Nat.not_lt, Nat.not_lt] at inside
    obtain ⟨outcome, after, kept, result, evicts⟩ :=
      exists_evicts (residents_cleared pool residents key) (sound.clear key) block.encodedSize
    rw [Change.result_bind (Change.result_get _), entries_eq rfl]
    cases outcome with
    | error cause =>
      rw [Change.result_bind_error result]
      exact ⟨_, _, rfl, .stuck inside.1 inside.2 evicts⟩
    | ok done =>
      rw [Change.result_bind result, Change.result_bind (result_initialized evicts.residents_eq.2),
        Change.result_bind (result_takePage _ _), Change.result_bind (result_setResidents _ _),
        result_count]
      have ends := Writes.into inside.1 inside.2 evicts
        (after.pages.map fun pages => (pages.take block.encodedSize).2)
      exact ⟨_, _, rfl, ends⟩

/-- Reading comes to nothing else. -/
theorem exists_reads (key : String) : ∃ outcome after,
    (read key).result pool = (outcome, after) ∧ Reads key pool residents outcome after := by
  unfold read
  rw [Change.result_bind (result_initialized given)]
  cases found : residents.find? key with
  | some entry =>
    dsimp only
    rw [Change.result_bind (Change.result_get pool)]
    have hit : Reads key pool residents _ _ := .hit found
    rw [Residents.used] at hit
    split at hit
    next counts =>
      rw [if_pos counts, Change.result_bind (result_setResidents _ pool), result_loaded]
      exact ⟨_, _, rfl, hit⟩
    next ignored =>
      -- The entries are what they were, so nothing was put in their place.
      rw [← given] at hit
      rw [if_neg ignored, result_loaded]
      exact ⟨_, _, rfl, hit⟩
  | none =>
    rcases called : BlockStorage.read pool.storage key with ⟨answer, storage⟩
    dsimp only
    cases answer with
    | error fault =>
      rw [Change.result_bind_error (callStorage_error called)]
      exact ⟨_, _, rfl, .refused found called⟩
    | ok bytes =>
      rw [Change.result_bind (callStorage_ok called), result_loaded]
      exact ⟨_, _, rfl, .fetched found called⟩

include sound in
/-- Deleting comes to nothing else. -/
theorem exists_deletes (key : String) : ∃ outcome after,
    (delete key).result pool = (outcome, after) ∧ Deletes key pool residents outcome after := by
  unfold delete
  rw [Change.result_bind (result_discard given sound key)]
  rcases called : BlockStorage.delete (pool.cleared residents key).storage key with
    ⟨answer, storage⟩
  cases answer with
  | error fault =>
    rw [Change.result_bind_error (callStorage_error called)]
    exact ⟨_, _, rfl, .refused called⟩
  | ok found =>
    rw [Change.result_bind (callStorage_ok called)]
    exact ⟨_, _, rfl, .removed called⟩

end Initialized

theorem Writes.goesOn {outcome : Except Failure Unit}
    (writes : Writes key block pool residents outcome after) : GoesOn pool after := by
  cases writes with
  | around | refused => exact ⟨rfl, rfl, rfl, _, rfl⟩
  | into _ _ evicts pages =>
    exact .trans (goesOn_cleared pool residents key) (evicts.goesOn.trans ⟨rfl, rfl, rfl, _, rfl⟩)
  | stuck _ _ evicts => exact .trans (goesOn_cleared pool residents key) evicts.goesOn

theorem Reads.goesOn {outcome : Except Failure MatrixBlock}
    (given : pool.residents = some residents) (reads : Reads key pool residents outcome after) :
    GoesOn pool after := by
  cases reads with
  | hit => exact ⟨rfl, rfl, rfl, _, rfl⟩
  | fetched | refused => exact ⟨rfl, rfl, rfl, _, given⟩

theorem Deletes.goesOn {outcome : Except Failure Unit}
    (deletes : Deletes key pool residents outcome after) : GoesOn pool after := by
  cases deletes with
  | removed | refused => exact ⟨rfl, rfl, rfl, _, rfl⟩

section Uninitialized

variable (given : pool.residents = none)
include given

theorem result_write_none (key : String) (block : MatrixBlock) :
    (write key block).result pool = (.error (.error .bufferNotInitialized), pool) := by
  unfold write discard
  rw [Change.result_bind (Change.result_get pool)]
  exact Change.result_bind_error (Change.result_bind_error (result_initialized_none given))

theorem result_read_none (key : String) :
    (read key).result pool = (.error (.error .bufferNotInitialized), pool) :=
  Change.result_bind_error (result_initialized_none given)

theorem result_delete_none (key : String) :
    (delete key).result pool = (.error (.error .bufferNotInitialized), pool) :=
  Change.result_bind_error (Change.result_bind_error (result_initialized_none given))

end Uninitialized

/-! ## Calls -/

/-- The buffer after a call. -/
def afterCall (pool : BufferPool σ) : BufferCall → BufferPool σ
  | .write key block => ((write key block).result pool).2
  | .read key => ((read key).result pool).2
  | .delete key => ((delete key).result pool).2

/-- The buffer after calls, each made whatever came of those before. -/
def afterCalls (pool : BufferPool σ) (calls : List BufferCall) : BufferPool σ :=
  calls.foldl afterCall pool

/-- Why a call fails, if it does. -/
def failure? (pool : BufferPool σ) : BufferCall → Option Failure
  | .write key block => Outcome.failure? ((write key block).result pool).1
  | .read key => Outcome.failure? ((read key).result pool).1
  | .delete key => Outcome.failure? ((delete key).result pool).1

/-- What a call of an initialized buffer comes to: why it fails, if it does, and the buffer that it
leaves. -/
inductive Serves (pool : BufferPool σ) (residents : Residents) :
    BufferCall → Option Failure → BufferPool σ → Prop
  | write {key : String} {block : MatrixBlock} {outcome : Except Failure Unit}
    {after : BufferPool σ} (how : Writes key block pool residents outcome after) :
    Serves pool residents (.write key block) (Outcome.failure? outcome) after
  | read {key : String} {outcome : Except Failure MatrixBlock} {after : BufferPool σ}
    (how : Reads key pool residents outcome after) :
    Serves pool residents (.read key) (Outcome.failure? outcome) after
  | delete {key : String} {outcome : Except Failure Unit} {after : BufferPool σ}
    (how : Deletes key pool residents outcome after) :
    Serves pool residents (.delete key) (Outcome.failure? outcome) after

theorem serves (given : pool.residents = some residents) (sound : residents.IsSound)
    (call : BufferCall) :
    Serves pool residents call (pool.failure? call) (pool.afterCall call) := by
  cases call with
  | write key block =>
    obtain ⟨outcome, after, result, how⟩ := exists_writes given sound key block
    rw [failure?, afterCall, result]
    exact .write how
  | read key =>
    obtain ⟨outcome, after, result, how⟩ := exists_reads given key
    rw [failure?, afterCall, result]
    exact .read how
  | delete key =>
    obtain ⟨outcome, after, result, how⟩ := exists_deletes given sound key
    rw [failure?, afterCall, result]
    exact .delete how

theorem Serves.goesOn {call : BufferCall} {failure : Option Failure}
    (serves : Serves pool residents call failure after)
    (given : pool.residents = some residents) : GoesOn pool after := by
  cases serves with
  | write how => exact how.goesOn
  | read how => exact how.goesOn given
  | delete how => exact how.goesOn

/-- Without entries there is nothing to call: the buffer says so and does nothing else. -/
theorem afterCall_of_uninitialized (given : pool.residents = none) (call : BufferCall) :
    pool.afterCall call = pool ∧ pool.failure? call = some (.error .bufferNotInitialized) := by
  cases call with
  | write key block =>
    rw [afterCall, failure?, result_write_none given]
    exact ⟨rfl, rfl⟩
  | read key =>
    rw [afterCall, failure?, result_read_none given]
    exact ⟨rfl, rfl⟩
  | delete key =>
    rw [afterCall, failure?, result_delete_none given]
    exact ⟨rfl, rfl⟩

end BufferPool

end ParallelLoop
