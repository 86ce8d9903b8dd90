/-
# The bytes of a write buffer

Whatever the storage answers, a write buffer knows what its entries take: the reserved
bytes are the sum over the entries, they stay below the limit, and every entry takes as
many bytes as it holds. `BufferPool.IsAccounted` states this of a buffer. Every operation
keeps it also when it fails midway, because an old entry is given up together with its
bytes and a new one is added only after there is room for it. So no subtraction of bytes
goes below zero, and evicting ends either with room for the new bytes or with an entry
that the storage refused.

A buffer that is not initialized refuses every call and stays as it is.
-/

import ParallelLoop.Proofs.Buffer.Refinement

namespace ParallelLoop

/-! ## Entries -/

namespace Residents

variable {residents : Residents} {entry : BufferEntry} {limit maxEntryBytes : Nat}

/-- The entries are sound, stay within the limits and take as many bytes as they hold. -/
structure IsAccounted (limit maxEntryBytes : Nat) (residents : Residents) : Prop extends
    residents.IsSound where
  size_le : residents.size ≤ limit
  entry_le : ∀ entry ∈ residents.entries, entry.size ≤ maxEntryBytes
  length_eq : ∀ entry ∈ residents.entries, entry.bytes.length = entry.size

theorem isAccounted_empty : IsAccounted limit maxEntryBytes empty where
  toIsSound := isSound_empty
  size_le := Nat.zero_le limit
  entry_le := by simp [empty]
  length_eq := by simp [empty]

namespace IsAccounted

variable (accounted : residents.IsAccounted limit maxEntryBytes)
include accounted

theorem drop (member : entry ∈ residents.entries) :
    (residents.drop entry).IsAccounted limit maxEntryBytes where
  toIsSound := accounted.toIsSound.drop member
  size_le := Nat.le_trans (Nat.sub_le _ _) accounted.size_le
  entry_le other kept := accounted.entry_le other (List.mem_of_mem_filter kept)
  length_eq other kept := accounted.length_eq other (List.mem_of_mem_filter kept)

theorem clear (key : String) : (residents.clear key).IsAccounted limit maxEntryBytes where
  toIsSound := accounted.toIsSound.clear key
  size_le := Nat.le_trans (Nat.sub_le _ _) accounted.size_le
  entry_le other kept := accounted.entry_le other (List.mem_of_mem_filter kept)
  length_eq other kept := accounted.length_eq other (List.mem_of_mem_filter kept)

theorem used (policy : EvictionPolicy) (member : entry ∈ residents.entries) :
    (residents.used policy entry).IsAccounted limit maxEntryBytes := by
  have same := accounted.used_perm policy member
  exact
    { toIsSound := accounted.toIsSound.used policy member
      size_le := by
        unfold Residents.used
        split <;> exact accounted.size_le
      entry_le := fun other kept => accounted.entry_le other (same.mem_iff.mp kept)
      length_eq := fun other kept => accounted.length_eq other (same.mem_iff.mp kept) }

theorem add (absent : residents.find? entry.key = none) (room : residents.size + entry.size ≤ limit)
    (small : entry.size ≤ maxEntryBytes) (measured : entry.bytes.length = entry.size) :
    (residents.add entry).IsAccounted limit maxEntryBytes where
  toIsSound := accounted.toIsSound.add absent
  size_le := room
  entry_le := List.forall_mem_append.mpr ⟨accounted.entry_le, by simpa using small⟩
  length_eq := List.forall_mem_append.mpr ⟨accounted.length_eq, by simpa using measured⟩

end IsAccounted

end Residents

namespace BufferPool

variable {σ α : Type} {pool : BufferPool σ} {residents : Residents}
  {limit maxEntryBytes : Nat}

/-- A buffer with these limits whose entries, if it is initialized, are accounted for. -/
structure IsAccounted (limit maxEntryBytes : Nat) (pool : BufferPool σ) : Prop where
  limit_eq : pool.limit = limit
  maxEntryBytes_eq : pool.maxEntryBytes = maxEntryBytes
  residents : ∀ residents, pool.residents = some residents →
    residents.IsAccounted limit maxEntryBytes

theorem isAccounted_new [Quantity α] (settings : BufferSettings α) (memory : Nat) (storage : σ) :
    (new settings memory storage).IsAccounted (settings.limit memory) settings.maxEntryBytes :=
  ⟨rfl, rfl, fun _ given => nomatch given⟩

/-- Only limits and entries matter. -/
theorem IsAccounted.congr {after : BufferPool σ} (accounted : pool.IsAccounted limit maxEntryBytes)
    (limits : after.limit = pool.limit ∧ after.maxEntryBytes = pool.maxEntryBytes)
    (same : after.residents = pool.residents) : after.IsAccounted limit maxEntryBytes :=
  ⟨limits.1.trans accounted.limit_eq, limits.2.trans accounted.maxEntryBytes_eq,
    same ▸ accounted.residents⟩

/-- With other entries, which are accounted for. -/
theorem IsAccounted.replace {after : BufferPool σ}
    (accounted : pool.IsAccounted limit maxEntryBytes)
    (limits : after.limit = pool.limit ∧ after.maxEntryBytes = pool.maxEntryBytes)
    (given : after.residents = some residents)
    (kept : residents.IsAccounted limit maxEntryBytes) : after.IsAccounted limit maxEntryBytes := by
  refine ⟨limits.1.trans accounted.limit_eq, limits.2.trans accounted.maxEntryBytes_eq, ?_⟩
  intro found same
  rw [given, Option.some.injEq] at same
  exact same ▸ kept

/-! ## Results in order

An outcome is in order when the buffer is accounted for and the operation did not stop
without an error, which is what it does when bytes are subtracted that are not there. -/

/-- Whatever came of an operation, the buffer is accounted for, and no bytes were missing. -/
structure IsInOrder (limit maxEntryBytes : Nat) (result : Except Failure α × BufferPool σ) :
    Prop where
  accounted : result.2.IsAccounted limit maxEntryBytes
  not_abort : ∀ cause, result.1 ≠ .error (.abort cause)

namespace IsInOrder

theorem orFailure (accounted : pool.IsAccounted limit maxEntryBytes) (outcome : Except Error α) :
    IsInOrder limit maxEntryBytes (orFailure outcome, pool) := by
  cases outcome with
  | ok value => exact ⟨accounted, nofun⟩
  | error cause => exact ⟨accounted, nofun⟩

theorem failure?_ne {result : Except Failure α × BufferPool σ}
    (order : IsInOrder limit maxEntryBytes result) (cause : Abort) :
    Outcome.failure? result.1 ≠ some (.abort cause) := by
  obtain ⟨outcome, after⟩ := result
  cases outcome with
  | ok value => exact fun stopped => nomatch stopped
  | error other => exact fun stopped => order.not_abort cause (congrArg _ (Option.some.inj stopped))

end IsInOrder

/-! ## Evicting -/

variable [BlockStorage σ]

/-- What evicting comes to: some of the entries, from the first one on, are gone; and either
there is room for as many bytes as needed, or the storage refused the first entry that is left. -/
structure IsEvicted (needed : Nat) (pool after : BufferPool σ) (outcome : Except Failure Unit) :
    Prop where
  residents : ∃ before kept count, pool.residents = some before ∧ after.residents = some kept ∧
    count ≤ before.entries.length ∧ kept.entries = before.entries.drop count
  outcome : (outcome = .ok () ∧ after.size + needed ≤ after.limit) ∨
    ∃ victim fault, after.entries.head? = some victim ∧
      outcome = .error (.error (.storage victim.key fault))

namespace Evicts

variable {needed : Nat} {outcome : Except Failure Unit} {after : BufferPool σ} {kept : Residents}

/-- The buffer is accounted for also when the storage refuses an entry. -/
theorem isInOrder (evicts : Evicts needed pool residents outcome after kept)
    (accounted : pool.IsAccounted limit maxEntryBytes) :
    IsInOrder limit maxEntryBytes (outcome, after) := by
  induction evicts with
  | room => exact ⟨accounted, nofun⟩
  | refused => exact ⟨accounted.congr ⟨rfl, rfl⟩ rfl, nofun⟩
  | spill next _ _ ih =>
    have held := accounted.residents _ next.given
    exact ih (accounted.replace ⟨rfl, rfl⟩ rfl (held.drop next.member))

theorem ending (evicts : Evicts needed pool residents outcome after kept)
    (fits : needed ≤ pool.limit) :
    (outcome = .ok () ∧ kept.size + needed ≤ pool.limit) ∨
      ∃ victim fault, kept.entries.head? = some victim ∧
        outcome = .error (.error (.storage victim.key fault)) := by
  induction evicts with
  | room _ sound room => exact .inl ⟨rfl, sound.room fits room⟩
  | refused next => exact .inr ⟨_, _, by rw [next.order]; rfl, rfl⟩
  | spill _ _ _ ih => exact ih fits

theorem room_of_ok (evicts : Evicts needed pool residents (.ok ()) after kept)
    (fits : needed ≤ pool.limit) : kept.size + needed ≤ pool.limit := by
  obtain ⟨-, room⟩ | ⟨victim, fault, -, failed⟩ := evicts.ending fits
  · exact room
  · cases failed

theorem isEvicted (evicts : Evicts needed pool residents outcome after kept)
    (fits : needed ≤ pool.limit) : IsEvicted needed pool after outcome where
  residents := by
    obtain ⟨given, left⟩ := evicts.residents_eq
    obtain ⟨count, bound, dropped⟩ := evicts.exists_drop
    exact ⟨residents, kept, count, given, left, bound, dropped⟩
  outcome := by
    obtain ⟨-, left⟩ := evicts.residents_eq
    rw [size_eq left, entries_eq left, evicts.goesOn.limit_eq]
    exact evicts.ending fits

end Evicts

/-! ## Operations -/

section Operations

variable (accounted : pool.IsAccounted limit maxEntryBytes)
include accounted

omit [BlockStorage σ] in
theorem IsAccounted.cleared (given : pool.residents = some residents) (key : String) :
    (pool.cleared residents key).IsAccounted limit maxEntryBytes :=
  accounted.replace ⟨rfl, rfl⟩ rfl ((accounted.residents residents given).clear key)

theorem Writes.isInOrder {key : String} {block : MatrixBlock} {outcome : Except Failure Unit}
    {after : BufferPool σ} (writes : Writes key block pool residents outcome after)
    (given : pool.residents = some residents) :
    IsInOrder limit maxEntryBytes (outcome, after) := by
  have cleared := accounted.cleared given key
  cases writes with
  | around | refused => exact ⟨cleared.congr ⟨rfl, rfl⟩ rfl, nofun⟩
  | into fits small evicts pages =>
    -- The key had no entry before the eviction and has none after it.
    have fresh := evicts.find?_eq_none (residents.find?_clear_self key)
    have room := evicts.room_of_ok fits
    have rest := (evicts.isInOrder cleared).accounted
    have held := rest.residents _ evicts.residents_eq.2
    rw [cleared.limit_eq] at room
    rw [accounted.maxEntryBytes_eq] at small
    exact ⟨rest.replace ⟨rfl, rfl⟩ rfl (held.add fresh room small block.length_encode), nofun⟩
  | stuck _ _ evicts => exact evicts.isInOrder cleared

theorem Deletes.isInOrder {key : String} {outcome : Except Failure Unit} {after : BufferPool σ}
    (deletes : Deletes key pool residents outcome after)
    (given : pool.residents = some residents) :
    IsInOrder limit maxEntryBytes (outcome, after) := by
  have cleared := accounted.cleared given key
  cases deletes with
  | removed | refused => exact ⟨cleared.congr ⟨rfl, rfl⟩ rfl, nofun⟩

theorem Reads.isInOrder {key : String} {outcome : Except Failure MatrixBlock}
    {after : BufferPool σ} (reads : Reads key pool residents outcome after)
    (given : pool.residents = some residents) :
    IsInOrder limit maxEntryBytes (outcome, after) := by
  cases reads with
  | hit found =>
    have held := (accounted.residents residents given).used pool.policy
      (Residents.mem_of_find? found).1
    refine .orFailure ?_ _
    exact accounted.replace ⟨rfl, rfl⟩ rfl held
  | fetched =>
    refine .orFailure ?_ _
    exact accounted.congr ⟨rfl, rfl⟩ rfl
  | refused => exact ⟨accounted.congr ⟨rfl, rfl⟩ rfl, nofun⟩

theorem Serves.isAccounted {call : BufferCall} {failure : Option Failure} {after : BufferPool σ}
    (serves : Serves pool residents call failure after)
    (given : pool.residents = some residents) :
    after.IsAccounted limit maxEntryBytes ∧ ∀ cause, failure ≠ some (.abort cause) := by
  cases serves with
  | write how =>
    have order := how.isInOrder accounted given
    exact ⟨order.accounted, order.failure?_ne⟩
  | read how =>
    have order := how.isInOrder accounted given
    exact ⟨order.accounted, order.failure?_ne⟩
  | delete how =>
    have order := how.isInOrder accounted given
    exact ⟨order.accounted, order.failure?_ne⟩

end Operations

/-! ## Runs -/

/-- What can happen to a buffer. -/
inductive BufferStep (σ : Type)
  | start
  | cleanup
  | call (call : BufferCall)
  /-- The storage changes by other hands than the buffer's. -/
  | storage (change : σ → σ)

/-- The buffer after a step. -/
def afterStep (pool : BufferPool σ) : BufferStep σ → BufferPool σ
  | .start => (initializeBuffer.result pool).2
  | .cleanup => (cleanup.result pool).2
  | .call call => pool.afterCall call
  | .storage change => { pool with storage := change pool.storage }

/-- The buffer after steps, each taken whatever came of those before. -/
def afterSteps (pool : BufferPool σ) (steps : List (BufferStep σ)) : BufferPool σ :=
  steps.foldl afterStep pool

theorem afterCall_isAccounted (accounted : pool.IsAccounted limit maxEntryBytes)
    (call : BufferCall) :
    (pool.afterCall call).IsAccounted limit maxEntryBytes ∧
      ∀ cause, pool.failure? call ≠ some (.abort cause) := by
  cases given : pool.residents with
  | none =>
    obtain ⟨same, failed⟩ := afterCall_of_uninitialized given call
    rw [same, failed]
    exact ⟨accounted, nofun⟩
  | some residents =>
    have sound := (accounted.residents residents given).toIsSound
    exact (serves given sound call).isAccounted accounted given

theorem afterStep_isAccounted (accounted : pool.IsAccounted limit maxEntryBytes)
    (step : BufferStep σ) : (pool.afterStep step).IsAccounted limit maxEntryBytes := by
  cases step with
  | start => exact accounted.replace ⟨rfl, rfl⟩ rfl Residents.isAccounted_empty
  | cleanup => exact ⟨accounted.limit_eq, accounted.maxEntryBytes_eq, fun _ given => nomatch given⟩
  | call call => exact (afterCall_isAccounted accounted call).1
  | storage change => exact accounted.congr ⟨rfl, rfl⟩ rfl

theorem afterSteps_isAccounted (accounted : pool.IsAccounted limit maxEntryBytes)
    (steps : List (BufferStep σ)) : (pool.afterSteps steps).IsAccounted limit maxEntryBytes := by
  induction steps generalizing pool with
  | nil => exact accounted
  | cons step steps ih => exact ih (afterStep_isAccounted accounted step)

/-- However a buffer is used and whatever its storage answers: if it is initialized, its entries
are accounted for and evicting comes to an end; no call ever finds bytes missing; and if it is not
initialized, every call fails for this reason and leaves the whole buffer as it was. -/
theorem accounts_afterSteps [Quantity α] (settings : BufferSettings α) (memory : Nat) (storage : σ)
    (steps : List (BufferStep σ)) :
    let pool := (new settings memory storage).afterSteps steps
    (∀ residents, pool.residents = some residents →
      residents.IsAccounted (settings.limit memory) settings.maxEntryBytes ∧
      ∀ needed ≤ settings.limit memory, ∃ outcome after,
        (evict needed residents.entries).result pool = (outcome, after) ∧
          IsEvicted needed pool after outcome) ∧
    (∀ call cause, pool.failure? call ≠ some (.abort cause)) ∧
    (pool.residents = none → ∃ cause : Error, cause.category = .configMissing ∧
      pool.status = .error cause ∧
      ∀ call, pool.failure? call = some (.error cause) ∧ pool.afterCall call = pool) := by
  intro pool
  have accounted := afterSteps_isAccounted (isAccounted_new settings memory storage) steps
  refine ⟨fun residents given => ⟨accounted.residents residents given, fun needed fits => ?_⟩,
    fun call => (afterCall_isAccounted accounted call).2,
    fun given => ⟨.bufferNotInitialized, rfl, ?_, fun call => ?_⟩⟩
  · have sound := (accounted.residents residents given).toIsSound
    obtain ⟨outcome, after, kept, evicted, ends⟩ := exists_evicts given sound needed
    exact ⟨outcome, after, evicted, ends.isEvicted (accounted.limit_eq.symm ▸ fits)⟩
  · rw [status, initialized, given]
    rfl
  · exact (afterCall_of_uninitialized given call).symm

/-- With room for one block, a second one does not get in when the storage refuses the first. -/
example :
    let block : MatrixBlock := { rows := 1, columns := 1, cells := .dense #[7] }
    let pool : BufferPool (GuardedStorage MemoryStorage) :=
      { limit := 30, maxEntryBytes := 30, policy := .fifo, residents := none, pages := none
        statistics := .zero, storage := { storage := .empty, refused := ["a"] }, log := [] }
    let served := pool.afterSteps [.start, .call (.write "a" block)]
    served.failure? (.write "b" block) = some (.error (.storage "a" .refused)) ∧
      (served.afterCall (.write "b" block)).entries = served.entries ∧ served.size = 28 := by
  decide +kernel

end BufferPool

end ParallelLoop
