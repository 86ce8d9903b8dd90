/-
# The write buffer is a map

Over a storage that behaves as a map, a write buffer behaves as a map from keys to
blocks. A key shows the bytes of its entry or, without one, those in storage; what
storage holds under a key that has an entry is out of date and does not show.
`BufferPool.Mirrors` relates a buffer to the map that it shows, and every operation
keeps the relation while it makes the corresponding change of the map. The limits, the
policy and the pages only decide where bytes lie.
-/

import ParallelLoop.Proofs.Buffer.Operations
import ParallelLoop.Proofs.Buffer.Storage
import ParallelLoop.Proofs.Matrix.Encoding

namespace ParallelLoop

namespace BufferCall

/-- A block that is written can be stored. -/
def IsStorable : BufferCall → Prop
  | write _ block => block.IsStorable
  | read _ | delete _ => True

instance (call : BufferCall) : Decidable call.IsStorable := by
  unfold IsStorable
  split <;> infer_instance

/-- The blocks under all keys after a call. -/
def apply (blocks : String → Option MatrixBlock) : BufferCall → String → Option MatrixBlock
  | write key block => Function.update blocks key (some block)
  | read _ => blocks
  | delete key => Function.update blocks key none

/-- The block under a key after calls: the one that was written last, unless it was deleted. -/
def lastWritten (calls : List BufferCall) : String → Option MatrixBlock :=
  calls.foldl apply fun _ => none

end BufferCall

namespace BufferPool

variable {σ : Type}

/-- What a key shows: the bytes of its entry, or else those in storage. -/
def shown (contents : σ → String → Option Bytes) (storage : σ) (residents : Residents)
    (key : String) : Option Bytes :=
  ((residents.find? key).map BufferEntry.bytes).or (contents storage key)

/-- The buffer is initialized and shows the map. -/
structure Mirrors (contents : σ → String → Option Bytes) (pool : BufferPool σ)
    (blocks : String → Option MatrixBlock) : Prop where
  shows : ∃ residents, pool.residents = some residents ∧ residents.IsSound ∧
    ∀ key, shown contents pool.storage residents key = (blocks key).map MatrixBlock.encode
  storable : ∀ key, ∀ block ∈ blocks key, block.IsStorable

/-- The outcome of reading under a key that has this block, or none. -/
def Answers (key : String) (block : Option MatrixBlock) (outcome : Except Failure MatrixBlock) :
    Prop :=
  match block with
  | some block => outcome = .ok block
  | none => ∃ fault, outcome = .error (.error (.storage key fault)) ∧ fault.kindName = "NotFound"

/-! ## What is shown -/

section Shown

variable {contents : σ → String → Option Bytes} {storage after : σ} {residents : Residents}
  {entry : BufferEntry} {key other : String}

/-- A key whose entry was given up shows what storage has. -/
theorem shown_clear_self : shown contents storage (residents.clear key) key =
    contents storage key := by
  rw [shown, Residents.find?_clear_self]
  rfl

/-- Other keys show what they did, as long as the storage has the same under them. -/
theorem shown_clear_of_ne (apart : other ≠ key)
    (same : contents after other = contents storage other) :
    shown contents after (residents.clear key) other =
      shown contents storage residents other := by
  rw [shown, Residents.find?_clear, if_neg apart, same, shown]

/-- The entry of a block shows under its own key. -/
theorem shown_add (absent : residents.find? key = none) (block : MatrixBlock) (other : String) :
    shown contents storage (residents.add (.ofBlock key block)) other =
      if other = key then some block.encode else shown contents storage residents other := by
  rw [shown, Residents.find?_add absent]
  split
  next own => exact (if_pos own).symm
  next different => exact (if_neg different).symm

/-- Using an entry does not show. -/
theorem shown_used (policy : EvictionPolicy) (found : residents.find? key = some entry)
    (other : String) : shown contents storage (residents.used policy entry) other =
      shown contents storage residents other := by
  rw [shown, Residents.find?_used policy found, shown]

end Shown

section Evicting

variable [BlockStorage σ] {contents : σ → String → Option Bytes} {pool after : BufferPool σ}
  {residents kept : Residents} {needed : Nat} {outcome : Except Failure Unit}

/-- Evicting does not show under any key, since an entry is given up only after the storage
has it. -/
theorem Evicts.shown_eq (evicts : Evicts needed pool residents outcome after kept)
    (isLocal : BlockStorage.IsLocal contents) (key : String) :
    shown contents after.storage kept key = shown contents pool.storage residents key := by
  induction evicts with
  | room => rfl
  | refused next called =>
    dsimp only
    rw [shown, shown, isLocal.write_refused called]
  | spill next called later ih =>
    -- The victim shows in storage what it showed in the buffer; other keys do not notice.
    rw [ih, shown, shown, Residents.find?_drop, storage_spilled, isLocal.write_accepted called]
    split
    next moved =>
      rw [moved, next.find?_eq, Function.update_self]
      rfl
    next different => rw [Function.update_of_ne different]

/-- A map takes whatever is evicted. -/
theorem Evicts.eq_ok (evicts : Evicts needed pool residents outcome after kept)
    (isMap : BlockStorage.IsMap contents) : outcome = .ok () := by
  induction evicts with
  | room => rfl
  | refused _ called => exact absurd called isMap.not_write_error
  | spill _ _ _ ih => exact ih

end Evicting

/-! ## Operations -/

section Operations

variable {contents : σ → String → Option Bytes} {pool : BufferPool σ}
  {blocks : String → Option MatrixBlock} {key : String} {block : MatrixBlock}

theorem Mirrors.update_storable (mirrors : Mirrors contents pool blocks)
    {found : Option MatrixBlock} (storable : ∀ block ∈ found, block.IsStorable) (key : String) :
    ∀ other, ∀ block ∈ Function.update blocks key found other, block.IsStorable := by
  intro other
  by_cases same : other = key
  · rwa [same, Function.update_self]
  · rw [Function.update_of_ne same]
    exact mirrors.storable other

/-- Storage has new content under a key whose entry was given up, and the other keys show what
they did. -/
theorem shown_of_cleared {storage after : σ} {residents : Residents} {found : Option MatrixBlock}
    (shows : ∀ other, shown contents storage residents other =
      (blocks other).map MatrixBlock.encode)
    (stored : contents after =
      Function.update (contents storage) key (found.map MatrixBlock.encode)) (other : String) :
    shown contents after (residents.clear key) other =
      (Function.update blocks key found other).map MatrixBlock.encode := by
  by_cases own : other = key
  · rw [own, shown_clear_self, stored, Function.update_self, Function.update_self]
  · have same : contents after other = contents storage other := by
      rw [stored, Function.update_of_ne own]
    rw [shown_clear_of_ne own same, shows, Function.update_of_ne own]

/-- An initialized buffer shows what storage holds. -/
theorem initializeBuffer_mirrors (blank : contents pool.storage = fun _ => none) :
    ∃ after, initializeBuffer.result pool = (.ok (), after) ∧
      Mirrors contents after fun _ => none := by
  refine ⟨_, rfl, ⟨.empty, rfl, Residents.isSound_empty, fun key => ?_⟩, by simp⟩
  rw [shown, Residents.find?_empty]
  exact congrFun blank key

variable [BlockStorage σ]

/-- A block that was written is shown, and nothing else changes. -/
theorem write_mirrors (isMap : BlockStorage.IsMap contents) (mirrors : Mirrors contents pool blocks)
    (storable : block.IsStorable) (key : String) :
    ∃ after, (write key block).result pool = (.ok (), after) ∧
      Mirrors contents after (Function.update blocks key (some block)) := by
  obtain ⟨residents, given, sound, shows⟩ := mirrors.shows
  have written : ∀ other ∈ some block, other.IsStorable := by simpa using storable
  have storableAfter := mirrors.update_storable written key
  obtain ⟨outcome, after, result, how⟩ := exists_writes given sound key block
  cases how with
  | around large called =>
    exact ⟨_, result, ⟨_, rfl, sound.clear key, shown_of_cleared shows (isMap.write_accepted called)⟩,
      storableAfter⟩
  | refused large called => exact absurd called isMap.not_write_error
  | into fits small evicts pages =>
    -- The new entry shows the block, whatever the storage has.
    have fresh := evicts.find?_eq_none (residents.find?_clear_self key)
    refine ⟨_, result, ⟨_, rfl, evicts.isSound.add fresh, fun other => ?_⟩, storableAfter⟩
    dsimp only
    rw [shown_add fresh, Function.update_apply, evicts.shown_eq isMap.isLocal]
    split
    next => rfl
    next different => exact (shown_clear_of_ne different rfl).trans (shows other)
  | stuck fits small evicts => cases evicts.eq_ok isMap

/-- A block that was deleted is not shown any more, and nothing else changes. -/
theorem delete_mirrors (isMap : BlockStorage.IsMap contents)
    (mirrors : Mirrors contents pool blocks) (key : String) :
    ∃ after, (delete key).result pool = (.ok (), after) ∧
      Mirrors contents after (Function.update blocks key none) := by
  obtain ⟨residents, given, sound, shows⟩ := mirrors.shows
  obtain ⟨outcome, after, result, how⟩ := exists_deletes given sound key
  cases how with
  | removed called =>
    exact ⟨_, result, ⟨_, rfl, sound.clear key, shown_of_cleared shows (isMap.delete_accepted called)⟩,
      mirrors.update_storable (by simp) key⟩
  | refused called => exact absurd called isMap.not_delete_error

omit [BlockStorage σ] in
/-- What is shown is the code of the block, so it can be decoded wherever it comes from. -/
theorem Mirrors.load_eq (mirrors : Mirrors contents pool blocks) {bytes : Bytes}
    (encoded : some bytes = (blocks key).map MatrixBlock.encode) :
    Answers key (blocks key) (orFailure (load key bytes)) := by
  obtain ⟨block, held, rfl⟩ := Option.map_eq_some_iff.mp encoded.symm
  rw [held, Answers, load, MatrixBlock.decode?_encode (mirrors.storable key block held)]
  rfl

/-- Reading gives what is shown and changes nothing of it. -/
theorem read_mirrors (isMap : BlockStorage.IsMap contents) (mirrors : Mirrors contents pool blocks)
    (key : String) :
    ∃ outcome after, (read key).result pool = (outcome, after) ∧
      Answers key (blocks key) outcome ∧ Mirrors contents after blocks := by
  obtain ⟨residents, given, sound, shows⟩ := mirrors.shows
  have showsKey := shows key
  obtain ⟨outcome, after, result, how⟩ := exists_reads given key
  refine ⟨outcome, after, result, ?_⟩
  cases how with
  | hit found =>
    rw [shown, found] at showsKey
    have member := (Residents.mem_of_find? found).1
    exact ⟨mirrors.load_eq showsKey, ⟨_, rfl, sound.used _ member,
      fun other => (shown_used _ found other).trans (shows other)⟩, mirrors.storable⟩
  | fetched absent called =>
    obtain ⟨stored, same⟩ := isMap.read_accepted called
    rw [shown, absent, stored] at showsKey
    refine ⟨mirrors.load_eq showsKey, ⟨residents, given, sound, fun other => ?_⟩, mirrors.storable⟩
    rw [← shows, shown, shown, ← same]
    rfl
  | refused absent called =>
    -- Neither entry nor bytes in storage: the key shows nothing.
    obtain ⟨stored, notFound, same⟩ := isMap.read_refused called
    have missing : blocks key = none := by simpa [shown, absent, stored] using showsKey.symm
    refine ⟨missing ▸ ⟨_, rfl, notFound⟩, ⟨residents, given, sound, fun other => ?_⟩,
      mirrors.storable⟩
    rw [← shows, shown, same, shown]

/-! ## Runs -/

theorem afterCall_mirrors (isMap : BlockStorage.IsMap contents)
    (mirrors : Mirrors contents pool blocks) {call : BufferCall} (storable : call.IsStorable) :
    Mirrors contents (pool.afterCall call) (call.apply blocks) := by
  cases call with
  | write key block =>
    obtain ⟨after, result, kept⟩ := write_mirrors isMap mirrors storable key
    rwa [afterCall, result]
  | read key =>
    obtain ⟨outcome, after, result, -, kept⟩ := read_mirrors isMap mirrors key
    rwa [afterCall, result]
  | delete key =>
    obtain ⟨after, result, kept⟩ := delete_mirrors isMap mirrors key
    rwa [afterCall, result]

theorem afterCalls_mirrors (isMap : BlockStorage.IsMap contents)
    (mirrors : Mirrors contents pool blocks) {calls : List BufferCall}
    (storable : ∀ call ∈ calls, call.IsStorable) :
    Mirrors contents (pool.afterCalls calls) (calls.foldl BufferCall.apply blocks) := by
  induction calls generalizing pool blocks with
  | nil => exact mirrors
  | cons call calls ih =>
    rw [List.forall_mem_cons] at storable
    exact ih (afterCall_mirrors isMap mirrors storable.1) storable.2

/-- Over a blank storage that is a map, an initialized buffer is one: whatever was called before,
blocks can be written and deleted, and reading gives the block that was written last under the
key unless it was deleted. -/
theorem read_lastWritten (isMap : BlockStorage.IsMap contents)
    (blank : contents pool.storage = fun _ => none) (calls : List BufferCall)
    (storable : ∀ call ∈ calls, call.IsStorable) :
    let served := (initializeBuffer.result pool).2.afterCalls calls
    (initializeBuffer.result pool).1 = .ok () ∧
      (∀ key block, block.IsStorable → ((write key block).result served).1 = .ok ()) ∧
      (∀ key, ((delete key).result served).1 = .ok ()) ∧
      ∀ key, Answers key (BufferCall.lastWritten calls key) ((read key).result served).1 := by
  obtain ⟨started, initialized, mirrors⟩ := initializeBuffer_mirrors blank
  rw [initialized]
  have mirrorsAfter := afterCalls_mirrors isMap mirrors storable
  refine ⟨rfl, fun key block storable => ?_, fun key => ?_, fun key => ?_⟩
  · obtain ⟨after, result, -⟩ := write_mirrors isMap mirrorsAfter storable key
    rw [result]
  · obtain ⟨after, result, -⟩ := delete_mirrors isMap mirrorsAfter key
    rw [result]
  · obtain ⟨outcome, after, result, answers, -⟩ := read_mirrors isMap mirrorsAfter key
    rwa [result]

end Operations

/-- A buffer with room for one block reads the first of two from storage. -/
theorem read_lastWritten_of_evicted :
    let block : MatrixBlock := { rows := 1, columns := 1, cells := .dense #[7] }
    let pool : BufferPool MemoryStorage :=
      { limit := 30, maxEntryBytes := 30, policy := .lru, residents := none
        pages := some .empty, statistics := .zero, storage := .empty, log := [] }
    let served := (initializeBuffer.result pool).2.afterCalls
      [.write "a" block, .write "b" block, .delete "b"]
    ((read "a").result served).1 = .ok block := by
  intro block pool served
  have storable : ∀ call ∈ [BufferCall.write "a" block, .write "b" block, .delete "b"],
      call.IsStorable := by decide
  have blank : MemoryStorage.get? pool.storage = fun _ => none := rfl
  exact (read_lastWritten MemoryStorage.isMap blank _ storable).2.2.2 "a"

end BufferPool

end ParallelLoop
