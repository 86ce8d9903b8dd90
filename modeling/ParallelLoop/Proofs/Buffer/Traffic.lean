/-
# What the statistics count

Four counters tell of the traffic of a write buffer, and they tell it exactly. To say so, the
storage is watched: it keeps a record of its calls, which the buffer does not notice. The two
counters of the storage are the numbers of calls in the record that wrote something and that gave
a block. The other two are settled by the outcomes of the calls of the buffer: every read that
succeeds is one hit, and every write that succeeds either goes around the buffer or puts an entry
into it.

Entries that were put in are still there, or they were taken out by a later call, or they were
dropped when the buffer was started again or cleaned up. So the counter of entries shows what
became of them. All this holds whatever the storage refuses: a counter goes up only after the step
that can fail.
-/

import ParallelLoop.Proofs.Buffer.Eviction
import ParallelLoop.Proofs.Buffer.Simulation

namespace ParallelLoop

namespace BufferCall

def isRead : BufferCall → Bool
  | read _ => true
  | _ => false

def isWrite : BufferCall → Bool
  | write .. => true
  | _ => false

/-- A write of a block that is too large for these limits. -/
def isBeyond (limit maxEntryBytes : Nat) : BufferCall → Bool
  | write _ block => limit < block.encodedSize || maxEntryBytes < block.encodedSize
  | _ => false

/-- A write of a block that is not. -/
def isWithin (limit maxEntryBytes : Nat) (call : BufferCall) : Bool :=
  call.isWrite && !call.isBeyond limit maxEntryBytes

theorem isWithin_write (limit maxEntryBytes : Nat) (key : String) (block : MatrixBlock) :
    (write key block).isWithin limit maxEntryBytes = false ↔
      limit < block.encodedSize ∨ maxEntryBytes < block.encodedSize := by
  simp [isWithin, isWrite, isBeyond, or_iff_not_imp_left]

end BufferCall

/-! ## Watching a storage -/

namespace StorageCall

/-- A write that succeeded. -/
def isStored : StorageCall → Bool
  | write _ (.ok _) => true
  | _ => false

/-- A read that succeeded, with the bytes of a block. -/
def isLoaded : StorageCall → Bool
  | read _ (.ok bytes) => (MatrixBlock.decode? bytes).isSome
  | _ => false

end StorageCall

/-- A storage with a record of the calls made so far, in their order. -/
structure WatchedStorage (σ : Type) where
  storage : σ
  calls : List StorageCall

namespace WatchedStorage

variable {σ : Type}

/-- No calls yet. -/
def unused (storage : σ) : WatchedStorage σ := { storage, calls := [] }

instance [BlockStorage σ] : BlockStorage (WatchedStorage σ) where
  write watched key bytes :=
    let (outcome, storage) := BlockStorage.write watched.storage key bytes
    (outcome, { storage, calls := watched.calls ++ [.write key outcome] })
  read watched key :=
    let (outcome, storage) := BlockStorage.read watched.storage key
    (outcome, { storage, calls := watched.calls ++ [.read key outcome] })
  delete watched key :=
    let (outcome, storage) := BlockStorage.delete watched.storage key
    (outcome, { storage, calls := watched.calls ++ [.delete key outcome] })

/-- A storage answers alike when it is watched. -/
theorem simulates [BlockStorage σ] : BlockStorage.Simulates (fun _ => True) Eq
    fun (watched : WatchedStorage σ) (storage : σ) => watched.storage = storage where
  write _ _ _ same := by
    subst same
    exact ⟨.refl (fun _ => rfl) _, rfl⟩
  read _ _ same := by
    subst same
    exact ⟨.refl (fun _ => rfl) _, rfl⟩
  delete _ _ same := by
    subst same
    exact ⟨.refl (fun _ => rfl) _, rfl⟩

end WatchedStorage

/-- Reads that found their block, in the buffer or in storage. -/
def BufferStatistics.hits (statistics : BufferStatistics) : Nat :=
  statistics.bufferHits + statistics.storageHits

namespace BufferPool

open Change (Preserves)

variable {σ α β : Type} {pool : BufferPool σ} {residents : Residents} {key : String}
  {block : MatrixBlock} {limit maxEntryBytes : Nat}

/-- The step of a buffer whose storage is watched. Changes by other hands are not recorded. -/
def BufferStep.watched : BufferStep σ → BufferStep (WatchedStorage σ)
  | .start => .start
  | .cleanup => .cleanup
  | .call made => .call made
  | .storage change => .storage fun watched => { watched with storage := change watched.storage }

/-- Buffers that differ in a record of calls. -/
abbrev IsWatching (watched : BufferPool (WatchedStorage σ)) (pool : BufferPool σ) : Prop :=
  Corresponds (fun _ => True) (fun watched storage => watched.storage = storage) watched pool

theorem IsWatching.withStorage_eq {watched : BufferPool (WatchedStorage σ)}
    (watching : watched.IsWatching pool) : watched.withStorage watched.storage.storage = pool := by
  obtain ⟨_, storages, -⟩ := watching
  exact storages ▸ rfl

/-- Watching the storage of a buffer changes nothing else. -/
theorem isWatching_afterSteps [BlockStorage σ] (pool : BufferPool σ) (steps : List (BufferStep σ)) :
    IsWatching ((pool.withStorage (WatchedStorage.unused pool.storage)).afterSteps
      (steps.map BufferStep.watched)) (pool.afterSteps steps) := by
  refine Corresponds.afterSteps WatchedStorage.simulates ?_ ?_
  · exact .intro (pool.withStorage (WatchedStorage.unused pool.storage)) pool.storage rfl
      fun _ _ _ _ => trivial
  · rw [List.forall₂_map_left_iff, List.forall₂_same]
    intro step _
    cases step with
    | start => exact .start
    | cleanup => exact .cleanup
    | call made => exact .call trivial
    | storage change => exact .storage fun same => congrArg change same

/-! ## Counters of the buffer

The counters that do not belong to the storage go up at the end of operations that succeed. -/

section Counters

variable {after : BufferPool σ} {call : BufferCall} {failure : Option Failure}

/-- Loading a block counts it. -/
theorem counts_loaded {measure : BufferStatistics → Nat}
    {change : BufferStatistics → BufferStatistics}
    (counts : ∀ statistics, measure (change statistics) = measure statistics + 1)
    (pool : BufferPool σ) (key : String) (bytes : Bytes) :
    measure (pool.counted bytes change).statistics = measure pool.statistics +
      if Outcome.failure? (orFailure (load key bytes)) = none then 1 else 0 := by
  rw [counted, load]
  cases MatrixBlock.decode? bytes with
  | none => rfl
  | some block => exact counts pool.statistics

variable [BlockStorage σ]

/-- Writing a block does not count as a hit. -/
theorem Writes.hits_eq {outcome : Except Failure Unit}
    (writes : Writes key block pool residents outcome after) :
    after.statistics.hits = pool.statistics.hits := by
  cases writes with
  | around | refused => rfl
  | into _ _ evicts pages =>
    have same := congrArg BufferStatistics.hits evicts.statistics_eq
    exact same
  | stuck _ _ evicts =>
    have same := congrArg BufferStatistics.hits evicts.statistics_eq
    exact same

/-- A read that succeeds is a hit, of the buffer or of the storage. -/
theorem Reads.hits_eq {outcome : Except Failure MatrixBlock}
    (reads : Reads key pool residents outcome after) :
    after.statistics.hits = pool.statistics.hits +
      if Outcome.failure? outcome = none then 1 else 0 := by
  cases reads with
  | hit => exact counts_loaded (fun _ => Nat.add_right_comm ..) _ key _
  | fetched => exact counts_loaded (fun _ => (Nat.add_assoc ..).symm) _ key _
  | refused => rfl

theorem Serves.hits_eq (serves : Serves pool residents call failure after) :
    after.statistics.hits =
      pool.statistics.hits + if call.isRead = true ∧ failure = none then 1 else 0 := by
  cases serves with
  | write how => simpa [BufferCall.isRead] using how.hits_eq
  | read how => simpa [BufferCall.isRead] using how.hits_eq
  | delete how => cases how <;> rfl

/-- A block that is written into the buffer is counted when all else has succeeded. -/
theorem Writes.bufferWrites_eq {outcome : Except Failure Unit}
    (writes : Writes key block pool residents outcome after) :
    after.statistics.bufferWrites = pool.statistics.bufferWrites +
      if (BufferCall.write key block).isWithin pool.limit pool.maxEntryBytes = true ∧
        Outcome.failure? outcome = none then 1 else 0 := by
  have beyond_iff := BufferCall.isWithin_write pool.limit pool.maxEntryBytes key block
  cases writes with
  | around large | refused large =>
    rw [beyond_iff.mpr large]
    rfl
  | into fits small evicts pages =>
    have within : ¬ (pool.limit < block.encodedSize ∨ pool.maxEntryBytes < block.encodedSize) := by
      omega
    have same := congrArg BufferStatistics.bufferWrites evicts.statistics_eq
    rw [Bool.of_not_eq_false (mt beyond_iff.mp within), if_pos ⟨rfl, rfl⟩]
    exact congrArg (· + 1) same
  | stuck _ _ evicts =>
    have same := congrArg BufferStatistics.bufferWrites evicts.statistics_eq
    rw [if_neg fun succeeded => nomatch succeeded.2]
    exact same

/-- Reading does not count as a write. -/
theorem Reads.bufferWrites_eq {outcome : Except Failure MatrixBlock}
    (reads : Reads key pool residents outcome after) :
    after.statistics.bufferWrites = pool.statistics.bufferWrites := by
  cases reads with
  | hit | fetched =>
    rw [counted]
    dsimp only
    split <;> rfl
  | refused => rfl

theorem Serves.bufferWrites_eq (serves : Serves pool residents call failure after) :
    after.statistics.bufferWrites = pool.statistics.bufferWrites +
      if call.isWithin pool.limit pool.maxEntryBytes = true ∧ failure = none then 1 else 0 := by
  cases serves with
  | write how => exact how.bufferWrites_eq
  | read how => exact how.bufferWrites_eq
  | delete how => cases how <;> rfl

end Counters

/-! ## Counters of the storage

They go with the record of a watched storage. -/

section Record

variable {pool after : BufferPool (WatchedStorage σ)}

/-- The counters of the storage say how many calls in the record wrote something, and how many gave
a block. -/
structure IsSettled (pool : BufferPool (WatchedStorage σ)) : Prop where
  stored_eq : pool.statistics.storageWrites = pool.storage.calls.countP StorageCall.isStored
  loaded_eq : pool.statistics.storageHits = pool.storage.calls.countP StorageCall.isLoaded

theorem IsSettled.congr (settled : pool.IsSettled)
    (same : (after.statistics, after.storage) = (pool.statistics, pool.storage)) :
    after.IsSettled := by
  obtain ⟨statistics, storage⟩ := Prod.mk.inj same
  exact ⟨by rw [statistics, storage, settled.stored_eq],
    by rw [statistics, storage, settled.loaded_eq]⟩

/-- One more call that is counted as it should be. -/
theorem IsSettled.call (settled : pool.IsSettled) {made : StorageCall}
    (calls : after.storage.calls = pool.storage.calls ++ [made])
    (stored : after.statistics.storageWrites =
      pool.statistics.storageWrites + if made.isStored = true then 1 else 0)
    (loaded : after.statistics.storageHits =
      pool.statistics.storageHits + if made.isLoaded = true then 1 else 0) : after.IsSettled where
  stored_eq := by
    rw [calls, List.countP_append, List.countP_singleton, stored, settled.stored_eq]
  loaded_eq := by
    rw [calls, List.countP_append, List.countP_singleton, loaded, settled.loaded_eq]

variable [BlockStorage σ] {residents : Residents} {watched storage : WatchedStorage σ}

theorem calls_write {bytes : Bytes} {outcome : Except StorageFault Unit}
    (called : BlockStorage.write watched key bytes = (outcome, storage)) :
    storage.calls = watched.calls ++ [.write key outcome] := by
  cases called
  rfl

theorem calls_read {outcome : Except StorageFault Bytes}
    (called : BlockStorage.read watched key = (outcome, storage)) :
    storage.calls = watched.calls ++ [.read key outcome] := by
  cases called
  rfl

theorem calls_delete {outcome : Except StorageFault Bool}
    (called : BlockStorage.delete watched key = (outcome, storage)) :
    storage.calls = watched.calls ++ [.delete key outcome] := by
  cases called
  rfl

/-- Evicting counts an entry when the storage has it. -/
theorem Evicts.isSettled {needed : Nat} {outcome : Except Failure Unit} {kept : Residents}
    (evicts : Evicts needed pool residents outcome after kept) (settled : pool.IsSettled) :
    after.IsSettled := by
  induction evicts with
  | room => exact settled
  | refused _ called => exact settled.call (calls_write called) rfl rfl
  | spill _ called _ ih => exact ih (settled.call (calls_write called) rfl rfl)

theorem Writes.isSettled {outcome : Except Failure Unit}
    (writes : Writes key block pool residents outcome after) (settled : pool.IsSettled) :
    after.IsSettled := by
  have cleared : (pool.cleared residents key).IsSettled := settled.congr rfl
  cases writes with
  | around _ called | refused _ called => exact settled.call (calls_write called) rfl rfl
  | into _ _ evicts pages =>
    have spilled := evicts.isSettled cleared
    exact ⟨spilled.stored_eq, spilled.loaded_eq⟩
  | stuck _ _ evicts => exact evicts.isSettled cleared

theorem Reads.isSettled {outcome : Except Failure MatrixBlock}
    (reads : Reads key pool residents outcome after) (settled : pool.IsSettled) :
    after.IsSettled := by
  cases reads with
  | hit =>
    -- A hit of the buffer shows in its own counter only.
    rw [counted]
    split <;> exact ⟨settled.stored_eq, settled.loaded_eq⟩
  | @fetched bytes storage _ called =>
    rw [counted]
    cases decoded : MatrixBlock.decode? bytes with
    | none | some block =>
      refine settled.call (calls_read called) rfl ?_
      rw [StorageCall.isLoaded, decoded]
      rfl
  | refused _ called => exact settled.call (calls_read called) rfl rfl

theorem Deletes.isSettled {outcome : Except Failure Unit}
    (deletes : Deletes key pool residents outcome after) (settled : pool.IsSettled) :
    after.IsSettled := by
  cases deletes with
  | removed called | refused called => exact settled.call (calls_delete called) rfl rfl

theorem Serves.isSettled {call : BufferCall} {failure : Option Failure}
    (serves : Serves pool residents call failure after) (settled : pool.IsSettled) :
    after.IsSettled := by
  cases serves with
  | write how => exact how.isSettled settled
  | read how => exact how.isSettled settled
  | delete how => exact how.isSettled settled

theorem isSettled_afterCall (settled : pool.IsSettled)
    (accounted : pool.IsAccounted limit maxEntryBytes) (call : BufferCall) :
    (pool.afterCall call).IsSettled := by
  cases given : pool.residents with
  | none => rwa [(afterCall_of_uninitialized given call).1]
  | some residents =>
    have sound := (accounted.residents residents given).toIsSound
    exact (serves given sound call).isSettled settled

/-- However a watched storage answers, the record shows what is counted. -/
theorem isSettled_afterSteps (settled : pool.IsSettled)
    (accounted : pool.IsAccounted limit maxEntryBytes) (steps : List (BufferStep σ)) :
    (pool.afterSteps (steps.map BufferStep.watched)).IsSettled := by
  induction steps generalizing pool with
  | nil => exact settled
  | cons step steps ih =>
    refine ih ?_ (afterStep_isAccounted accounted step.watched)
    cases step with
    | start | cleanup => exact ⟨settled.stored_eq, settled.loaded_eq⟩
    | call made => exact isSettled_afterCall settled accounted made
    | storage change => exact ⟨settled.stored_eq, settled.loaded_eq⟩

end Record

/-! ## Entries

Every entry that was put in is there, or was taken out, or was dropped. -/

section Entries

variable [BlockStorage σ] {after : BufferPool σ} {call : BufferCall}

/-- A call takes an entry out when it writes or deletes its key, or makes room for another one. -/
def takesOut (pool : BufferPool σ) (call : BufferCall) (entry : BufferEntry) : Bool :=
  (!call.isRead && entry.key == call.key) || !(pool.afterCall call).contains entry.key

omit [BlockStorage σ] in
theorem contains_iff : pool.contains key = true ↔ ∃ entry ∈ pool.entries, entry.key = key := by
  unfold contains entries
  cases pool.residents with
  | none => simp
  | some residents => simp [Residents.find?]

omit [BlockStorage σ] in
/-- The entries of all other keys. -/
def others (pool : BufferPool σ) (key : String) : List BufferEntry :=
  pool.entries.filter fun entry => entry.key != key

omit [BlockStorage σ] in
theorem others_eq (given : pool.residents = some residents) (key : String) :
    pool.others key = residents.others key := by
  rw [others, entries_eq given]
  rfl

/-- Of the entries of other keys, a call takes out those that are not left. -/
theorem takesOut_of_ne {entry : BufferEntry} (other : entry.key ≠ call.key) :
    pool.takesOut call entry = !(pool.afterCall call).contains entry.key := by
  simp [takesOut, other]

/-- When the front of a line is gone, the call took out as many entries as there were in front. -/
theorem countP_takesOut {line fresh : List BufferEntry} {gone : Nat}
    (nodup : (line.map BufferEntry.key).Nodup) (others : ∀ entry ∈ line, entry.key ≠ call.key)
    (own : ∀ entry ∈ fresh, entry.key = call.key)
    (entries_eq : (pool.afterCall call).entries = line.drop gone ++ fresh) :
    line.countP (pool.takesOut call) = (line.take gone).length := by
  -- Keys do not occur twice, so what is gone from the front is not left further back.
  have distinct := nodup
  rw [← List.take_append_drop gone line, List.map_append, List.nodup_append] at distinct
  have front : (line.take gone).countP (pool.takesOut call) = (line.take gone).length := by
    rw [List.countP_eq_length]
    intro entry there
    have other := others entry (List.mem_of_mem_take there)
    rw [takesOut_of_ne other, Bool.not_eq_true', Bool.eq_false_iff, ne_eq, contains_iff, entries_eq]
    rintro ⟨held, member, same⟩
    rcases List.mem_append.mp member with rest | new
    · exact distinct.2.2 _ (List.mem_map_of_mem there) _ (List.mem_map_of_mem rest) same.symm
    · exact other (same.symm.trans (own held new))
  have back : (line.drop gone).countP (pool.takesOut call) = 0 := by
    rw [List.countP_eq_zero]
    intro entry there
    have kept : (pool.afterCall call).contains entry.key = true := by
      rw [contains_iff, entries_eq]
      exact ⟨entry, List.mem_append_left _ there, rfl⟩
    rw [takesOut_of_ne (others entry (List.mem_of_mem_drop there)), kept]
    exact nofun
  calc line.countP (pool.takesOut call)
      = (line.take gone ++ line.drop gone).countP (pool.takesOut call) := by
        rw [List.take_append_drop]
    _ = (line.take gone).length := by rw [List.countP_append, front, back, Nat.add_zero]

/-- An update takes out the old entry of its key and the front of the line of others. -/
theorem length_of_update (nodup : (pool.entries.map BufferEntry.key).Nodup)
    (update : call.isRead = false) {gone : Nat} {fresh : List BufferEntry}
    (own : ∀ entry ∈ fresh, entry.key = call.key)
    (entries_eq : (pool.afterCall call).entries = (pool.others call.key).drop gone ++ fresh) :
    (pool.afterCall call).entries.length + pool.entries.countP (pool.takesOut call) =
      pool.entries.length + fresh.length := by
  have olds : (pool.entries.filter fun entry => entry.key == call.key).countP
      (pool.takesOut call) = (pool.entries.filter fun entry => entry.key == call.key).length := by
    rw [List.countP_eq_length]
    intro entry there
    simp [takesOut, update, (List.mem_filter.mp there).2]
  have front : (pool.others call.key).countP (pool.takesOut call) =
      ((pool.others call.key).take gone).length :=
    countP_takesOut (nodup.sublist (List.filter_sublist.map _))
      (fun entry there => bne_iff_ne.mp (List.mem_filter.mp there).2) own entries_eq
  -- All entries are those of the key and those of others, and so are the ones taken out.
  have parts : pool.entries.countP (pool.takesOut call) = _ +
      (pool.others call.key).countP (pool.takesOut call) :=
    List.countP_eq_countP_filter_add pool.entries (pool.takesOut call) fun entry =>
      entry.key == call.key
  have total : pool.entries.length = _ + (pool.others call.key).length :=
    List.length_eq_length_filter_add fun entry : BufferEntry => entry.key == call.key
  have line := congrArg List.length (List.take_append_drop gone (pool.others call.key))
  rw [List.length_append] at line
  rw [entries_eq, List.length_append]
  omega

/-- When nothing is put in, what is left and what was taken out are all the entries. -/
theorem length_of_shortening (nodup : (pool.entries.map BufferEntry.key).Nodup)
    (update : call.isRead = false) {gone : Nat}
    (entries_eq : (pool.afterCall call).entries = (pool.others call.key).drop gone) :
    (pool.afterCall call).entries.length + pool.entries.countP (pool.takesOut call) =
      pool.entries.length :=
  length_of_update nodup update (by simp) (entries_eq.trans (List.append_nil _).symm)

/-- Reading takes nothing out. -/
theorem length_of_read (key : String)
    (same : (pool.afterCall (.read key)).entries.Perm pool.entries) :
    (pool.afterCall (.read key)).entries.length +
      pool.entries.countP (pool.takesOut (.read key)) = pool.entries.length := by
  have none : pool.entries.countP (pool.takesOut (.read key)) = 0 := by
    rw [List.countP_eq_zero]
    intro entry there
    have kept : (pool.afterCall (.read key)).contains entry.key = true :=
      contains_iff.mpr ⟨entry, same.mem_iff.mpr there, rfl⟩
    simp [takesOut, BufferCall.isRead, kept]
  rw [none, same.length_eq]
  rfl

/-- Reading puts off an eviction at most. -/
theorem read_perm (given : pool.residents = some residents) (sound : residents.IsSound)
    (key : String) : (pool.afterCall (.read key)).entries.Perm pool.entries := by
  obtain ⟨outcome, after, result, how⟩ := exists_reads given key
  rw [afterCall, result, entries_eq given]
  cases how with
  | hit found => exact sound.used_perm _ (Residents.mem_of_find? found).1
  | fetched | refused => exact .of_eq (entries_eq given)

end Entries

/-! ## Runs -/

section Runs

variable [BlockStorage σ]

/-- The sum over steps of what a measure says of each, in the buffer as it is then. -/
def total (measure : BufferPool σ → BufferStep σ → Nat) (pool : BufferPool σ) :
    List (BufferStep σ) → Nat
  | [] => 0
  | step :: steps => measure pool step + total measure (pool.afterStep step) steps

/-- One for a call of this kind that succeeds. -/
def succeeded (kind : BufferCall → Bool) (pool : BufferPool σ) : BufferStep σ → Nat
  | .call made => if kind made = true ∧ pool.failure? made = none then 1 else 0
  | .start | .cleanup | .storage _ => 0

/-- The entries that a call takes out: old entries of its key, and those that make room. -/
def removed (pool : BufferPool σ) : BufferStep σ → Nat
  | .call made => pool.entries.countP (pool.takesOut made)
  | .start | .cleanup | .storage _ => 0

/-- The entries that are dropped when the buffer is started again or cleaned up. -/
def abandoned (pool : BufferPool σ) : BufferStep σ → Nat
  | .start | .cleanup => pool.entries.length
  | .call _ | .storage _ => 0

/-- What each step adds to a level and takes from it makes up the level after all steps. -/
theorem level_afterSteps (level : BufferPool σ → Nat)
    (gain loss : BufferPool σ → BufferStep σ → Nat)
    (balance : ∀ pool step, pool.IsAccounted limit maxEntryBytes →
      level (pool.afterStep step) + loss pool step = level pool + gain pool step)
    (accounted : pool.IsAccounted limit maxEntryBytes) (steps : List (BufferStep σ)) :
    level (pool.afterSteps steps) + pool.total loss steps = level pool + pool.total gain steps := by
  induction steps generalizing pool with
  | nil => rfl
  | cons step steps ih =>
    have first := balance pool step accounted
    have rest := ih (afterStep_isAccounted accounted step)
    rw [total, total]
    change level ((pool.afterStep step).afterSteps steps) + _ = _
    omega

theorem total_eq_zero {measure : BufferPool σ → BufferStep σ → Nat} {steps : List (BufferStep σ)}
    (none : ∀ step ∈ steps, ∀ pool, measure pool step = 0) (pool : BufferPool σ) :
    pool.total measure steps = 0 := by
  induction steps generalizing pool with
  | nil => rfl
  | cons step steps ih =>
    rw [List.forall_mem_cons] at none
    rw [total, none.1, ih none.2]

theorem total_add (first second : BufferPool σ → BufferStep σ → Nat) (pool : BufferPool σ)
    (steps : List (BufferStep σ)) :
    pool.total (fun pool step => first pool step + second pool step) steps =
      pool.total first steps + pool.total second steps := by
  induction steps generalizing pool with
  | nil => rfl
  | cons step steps ih =>
    rw [total, total, total, ih]
    exact Nat.add_add_add_comm ..

theorem hits_afterStep (accounted : pool.IsAccounted limit maxEntryBytes) (step : BufferStep σ) :
    (pool.afterStep step).statistics.hits =
      pool.statistics.hits + pool.succeeded BufferCall.isRead step := by
  cases step with
  | start | cleanup | storage => rfl
  | call made =>
    cases given : pool.residents with
    | none =>
      obtain ⟨same, refused⟩ := afterCall_of_uninitialized given made
      simp [afterStep, succeeded, same, refused]
    | some residents =>
      exact (serves given (accounted.residents residents given).toIsSound made).hits_eq

/-- A write that succeeds and fits the limits puts an entry into the buffer. -/
theorem bufferWrites_afterCall (accounted : pool.IsAccounted limit maxEntryBytes)
    (call : BufferCall) :
    (pool.afterCall call).statistics.bufferWrites = pool.statistics.bufferWrites +
      pool.succeeded (BufferCall.isWithin limit maxEntryBytes) (.call call) := by
  cases given : pool.residents with
  | none =>
    obtain ⟨same, refused⟩ := afterCall_of_uninitialized given call
    simp [succeeded, same, refused]
  | some residents =>
    have sound := (accounted.residents residents given).toIsSound
    rw [succeeded, ← accounted.limit_eq, ← accounted.maxEntryBytes_eq]
    exact (serves given sound call).bufferWrites_eq

/-- A write puts an entry in if it succeeds and the block is not too large. -/
theorem length_of_write (accounted : pool.IsAccounted limit maxEntryBytes)
    (given : pool.residents = some residents) (key : String) (block : MatrixBlock) :
    (pool.afterCall (.write key block)).entries.length +
        pool.entries.countP (pool.takesOut (.write key block)) =
      pool.entries.length +
        pool.succeeded (BufferCall.isWithin limit maxEntryBytes) (.call (.write key block)) := by
  have held := accounted.residents residents given
  have nodup : (pool.entries.map BufferEntry.key).Nodup := entries_eq given ▸ held.nodup
  have beyond_iff := BufferCall.isWithin_write limit maxEntryBytes key block
  by_cases large : limit < block.encodedSize ∨ maxEntryBytes < block.encodedSize
  · have passed : (pool.afterCall (.write key block)).entries = (pool.others key).drop 0 :=
      (write_beyond given held.toIsSound
        (accounted.limit_eq ▸ accounted.maxEntryBytes_eq ▸ large) key).trans
          (others_eq given key).symm
    rw [length_of_shortening nodup rfl passed, succeeded, beyond_iff.mpr large]
    simp
  · have inside := not_or.mp large
    obtain ⟨outcome, after, count, written, ending⟩ := write_line given held.toIsSound
      (accounted.limit_eq ▸ Nat.not_lt.mp inside.1)
      (accounted.maxEntryBytes_eq ▸ Nat.not_lt.mp inside.2) key
    rw [← others_eq given] at ending
    have after_eq : pool.afterCall (.write key block) = after := by rw [afterCall, written]
    rw [succeeded, failure?, written, Bool.of_not_eq_false (mt beyond_iff.mp large)]
    -- A write that fails may have evicted some blocks all the same, but puts none in.
    obtain ⟨rfl, -, left, -⟩ | ⟨⟨cause, rfl⟩, left, -⟩ := ending
    · have own : ∀ entry ∈ [BufferEntry.ofBlock key block], entry.key = key := by
        simp [BufferEntry.ofBlock]
      rw [length_of_update nodup rfl own (after_eq ▸ left)]
      simp [Outcome.failure?]
    · rw [length_of_shortening nodup rfl (after_eq ▸ left)]
      simp [Outcome.failure?]

/-- The entries after a call: those before that it did not take out, and one that it put in. -/
theorem length_afterCall (accounted : pool.IsAccounted limit maxEntryBytes) (call : BufferCall) :
    (pool.afterCall call).entries.length + pool.removed (.call call) =
      pool.entries.length +
        pool.succeeded (BufferCall.isWithin limit maxEntryBytes) (.call call) := by
  rw [removed]
  cases given : pool.residents with
  | none =>
    obtain ⟨same, refused⟩ := afterCall_of_uninitialized given call
    have empty : pool.entries = [] := by rw [entries, given]; rfl
    rw [same, empty, succeeded, refused]
    simp
  | some residents =>
    have held := accounted.residents residents given
    cases call with
    | write key block => exact length_of_write accounted given key block
    | read key => exact length_of_read key (read_perm given held.toIsSound key)
    | delete key =>
      have left : (pool.afterCall (.delete key)).entries = (pool.others key).drop 0 :=
        (delete_line given held.toIsSound key).trans (others_eq given key).symm
      exact length_of_shortening (entries_eq given ▸ held.nodup) rfl left

/-- Writes that succeed either go around the buffer or into it. -/
theorem succeeded_isWrite (limit maxEntryBytes : Nat) (pool : BufferPool σ) (step : BufferStep σ) :
    pool.succeeded BufferCall.isWrite step =
      pool.succeeded (BufferCall.isWithin limit maxEntryBytes) step +
        pool.succeeded (BufferCall.isBeyond limit maxEntryBytes) step := by
  cases step with
  | start | cleanup | storage => rfl
  | call made =>
    cases made with
    | write key block =>
      cases beyond : (BufferCall.write key block).isBeyond limit maxEntryBytes with
      | _ => simp [succeeded, BufferCall.isWithin, BufferCall.isWrite, beyond]
    | read | delete =>
      simp [succeeded, BufferCall.isWithin, BufferCall.isWrite, BufferCall.isBeyond]

theorem bufferWrites_afterStep (accounted : pool.IsAccounted limit maxEntryBytes)
    (step : BufferStep σ) :
    (pool.afterStep step).statistics.bufferWrites = pool.statistics.bufferWrites +
      pool.succeeded (BufferCall.isWithin limit maxEntryBytes) step := by
  cases step with
  | start | cleanup | storage => rfl
  | call made => exact bufferWrites_afterCall accounted made

theorem length_afterStep (accounted : pool.IsAccounted limit maxEntryBytes)
    (step : BufferStep σ) :
    (pool.afterStep step).entries.length + (pool.removed step + pool.abandoned step) =
      pool.entries.length + pool.succeeded (BufferCall.isWithin limit maxEntryBytes) step := by
  cases step with
  | start | cleanup =>
    rw [removed, abandoned, Nat.zero_add]
    exact Nat.zero_add _
  | storage => rfl
  | call made => exact length_afterCall accounted made

section AfterSteps

variable (accounted : pool.IsAccounted limit maxEntryBytes) (steps : List (BufferStep σ))
include accounted

theorem hits_afterSteps :
    (pool.afterSteps steps).statistics.hits =
      pool.statistics.hits + pool.total (succeeded BufferCall.isRead) steps := by
  have level := level_afterSteps (fun pool => pool.statistics.hits) _ (fun _ _ => 0)
    (fun _ step accounted => hits_afterStep accounted step) accounted steps
  rwa [total_eq_zero fun _ _ _ => rfl] at level

theorem bufferWrites_afterSteps :
    (pool.afterSteps steps).statistics.bufferWrites = pool.statistics.bufferWrites +
      pool.total (succeeded (BufferCall.isWithin limit maxEntryBytes)) steps := by
  have level := level_afterSteps (fun pool => pool.statistics.bufferWrites) _ (fun _ _ => 0)
    (fun _ step accounted => bufferWrites_afterStep accounted step) accounted steps
  rwa [total_eq_zero fun _ _ _ => rfl] at level

theorem length_afterSteps :
    (pool.afterSteps steps).entries.length +
        (pool.total removed steps + pool.total abandoned steps) =
      pool.entries.length +
        pool.total (succeeded (BufferCall.isWithin limit maxEntryBytes)) steps := by
  rw [← total_add]
  exact level_afterSteps (fun pool => pool.entries.length) _ _
    (fun _ step accounted => length_afterStep accounted step) accounted steps

end AfterSteps

theorem total_isWrite (limit maxEntryBytes : Nat) (pool : BufferPool σ)
    (steps : List (BufferStep σ)) :
    pool.total (succeeded BufferCall.isWrite) steps =
      pool.total (succeeded (BufferCall.isWithin limit maxEntryBytes)) steps +
        pool.total (succeeded (BufferCall.isBeyond limit maxEntryBytes)) steps := by
  rw [← total_add]
  exact congrArg (pool.total · steps) (funext₂ (succeeded_isWrite limit maxEntryBytes))

/-- Once the buffer was started, it is neither started again nor cleaned up. -/
def StartsOnce : List (BufferStep σ) → Prop
  | [] => True
  | .start :: later => ∀ step ∈ later, step ≠ .start ∧ step ≠ .cleanup
  | .cleanup :: later | .call _ :: later | .storage _ :: later => StartsOnce later

/-- Before the start there are no entries, so nothing is ever abandoned. -/
theorem total_abandoned {steps : List (BufferStep σ)} (once : StartsOnce steps)
    (given : pool.residents = none) : pool.total abandoned steps = 0 := by
  have empty {pool : BufferPool σ} (given : pool.residents = none) : pool.entries.length = 0 := by
    rw [entries, given]
    rfl
  induction steps generalizing pool with
  | nil => rfl
  | cons step steps ih =>
    cases step with
    | start =>
      rw [total, abandoned, empty given, Nat.zero_add]
      -- The pool was started only now, and no later step starts it again or cleans it up.
      refine total_eq_zero (fun step there pool => ?_) _
      cases step with
      | start => exact absurd rfl (once _ there).1
      | cleanup => exact absurd rfl (once _ there).2
      | call | storage => rfl
    | cleanup =>
      rw [total, abandoned, empty given, Nat.zero_add]
      exact ih once rfl
    | call made =>
      rw [total, abandoned, Nat.zero_add, afterStep, (afterCall_of_uninitialized given made).1]
      exact ih once given
    | storage change =>
      rw [total, abandoned, Nat.zero_add]
      exact ih once given

/-- However a buffer is used and whatever its storage answers, the statistics are exact. Watching
the storage shows the same buffer. The two counters of the storage are the numbers of its calls that
stored something and that gave a block; the hits are the reads that succeeded; the writes into the
buffer and those around it are the writes that succeeded; and each entry that was written into the
buffer is there or was taken out, unless all were abandoned by a later start or a clean-up. -/
theorem statistics_afterSteps {α : Type} [Quantity α] (settings : BufferSettings α) (memory : Nat)
    (storage : σ) (steps : List (BufferStep σ)) :
    let start := new settings memory storage
    let pool := start.afterSteps steps
    let watched := (new settings memory (WatchedStorage.unused storage)).afterSteps
      (steps.map BufferStep.watched)
    let beyond := BufferCall.isBeyond (settings.limit memory) settings.maxEntryBytes
    watched.withStorage watched.storage.storage = pool ∧
    pool.statistics.storageWrites = watched.storage.calls.countP StorageCall.isStored ∧
    pool.statistics.storageHits = watched.storage.calls.countP StorageCall.isLoaded ∧
    pool.statistics.bufferHits + pool.statistics.storageHits =
      start.total (succeeded BufferCall.isRead) steps ∧
    pool.statistics.bufferWrites + start.total (succeeded beyond) steps =
      start.total (succeeded BufferCall.isWrite) steps ∧
    pool.statistics.bufferWrites =
      pool.entries.length + start.total removed steps + start.total abandoned steps ∧
    (StartsOnce steps →
      pool.statistics.bufferWrites = pool.entries.length + start.total removed steps) := by
  intro start pool watched beyond
  let within := BufferCall.isWithin (settings.limit memory) settings.maxEntryBytes
  have accounted : start.IsAccounted (settings.limit memory) settings.maxEntryBytes :=
    isAccounted_new settings memory storage
  have same : watched.withStorage watched.storage.storage = pool :=
    (isWatching_afterSteps start steps).withStorage_eq
  have statistics : pool.statistics = watched.statistics := by rw [← same]; rfl
  have settled : watched.IsSettled :=
    isSettled_afterSteps ⟨rfl, rfl⟩
      (isAccounted_new settings memory (WatchedStorage.unused storage)) steps
  -- At the start there is nothing yet: no hits, no writes, no entries.
  have hits : pool.statistics.hits = 0 + start.total (succeeded BufferCall.isRead) steps :=
    hits_afterSteps accounted steps
  have writes : pool.statistics.bufferWrites = 0 + start.total (succeeded within) steps :=
    bufferWrites_afterSteps accounted steps
  have length : pool.entries.length + (start.total removed steps + start.total abandoned steps) =
      0 + start.total (succeeded within) steps := length_afterSteps accounted steps
  have kinds : start.total (succeeded BufferCall.isWrite) steps =
      start.total (succeeded within) steps + start.total (succeeded beyond) steps :=
    total_isWrite _ _ start steps
  rw [Nat.zero_add] at hits writes length
  have flow : pool.statistics.bufferWrites =
      pool.entries.length + start.total removed steps + start.total abandoned steps := by
    rw [writes, ← length, Nat.add_assoc]
  refine ⟨same, ?_, ?_, hits, ?_, flow, fun once => ?_⟩
  · rw [statistics, settled.stored_eq]
  · rw [statistics, settled.loaded_eq]
  · rw [writes, kinds]
  · rw [flow, total_abandoned once rfl, Nat.add_zero]

/-- A second write evicts the first block, which is then read from storage, and the second one is
deleted. Two entries were put in and both were taken out. -/
theorem statistics_afterSteps_evicting :
    let settings : BufferSettings Rat :=
      { fraction := 1, policy := .fifo, pageCache := false, maxEntryBytes := 30 }
    let steps : List (BufferStep MemoryStorage) :=
      [.start, .call (.write "a" (cellBlock 1)), .call (.write "b" (cellBlock 9)),
        .call (.read "a"), .call (.delete "b")]
    let start := new settings 30 MemoryStorage.empty
    StartsOnce steps ∧ start.total removed steps = 2 ∧
      (start.afterSteps steps).statistics.bufferWrites =
        (start.afterSteps steps).entries.length + 2 := by
  intro settings steps start
  have once : StartsOnce steps := by simp [steps, StartsOnce]
  have two : start.total removed steps = 2 := by decide +kernel
  obtain ⟨-, -, -, -, -, -, flow⟩ := statistics_afterSteps settings 30 MemoryStorage.empty steps
  exact ⟨once, two, two ▸ flow once⟩

end Runs

end BufferPool

end ParallelLoop
