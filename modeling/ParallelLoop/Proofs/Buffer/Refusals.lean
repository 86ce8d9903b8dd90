/-
# A storage that refuses calls

A storage may refuse any call. A write buffer that is in the middle of an operation then
stops where it is, possibly after some of its entries went to storage. What a key shows, its
entry or else what storage holds under it, survives this for every key other than the one of
the operation: an entry is given up only after the storage has it, so these keys show the
same before and after, wherever the operation stops.

The key of the operation is not so lucky. Its old entry is given up before the call that may
be refused, and after a refusal the key shows what storage holds under it: nothing, or a
block that is out of date. `read_after_refusal_iff` says exactly when reading does not
notice.
-/

import ParallelLoop.Proofs.Buffer.Accounting

namespace ParallelLoop

namespace BufferCall

/-- The key that a call is about. -/
def key : BufferCall → String
  | write key _ | read key | delete key => key

/-- The call is meant to change what its key shows. -/
def IsUpdate : BufferCall → Prop
  | write .. | delete _ => True
  | read _ => False

end BufferCall

namespace BufferPool

variable {σ α : Type} {contents : σ → String → Option Bytes} {pool after : BufferPool σ}
  {residents : Residents} {key name : String} {fault : StorageFault}

/-! ## What a buffer shows -/

/-- The entry of a key. -/
def entry? (pool : BufferPool σ) (key : String) : Option BufferEntry :=
  pool.residents.bind fun residents => residents.find? key

/-- What a key shows in a buffer, be it initialized or not: the bytes of its entry, or else those
in storage. -/
def visible (contents : σ → String → Option Bytes) (pool : BufferPool σ) (key : String) :
    Option Bytes :=
  ((pool.entry? key).map BufferEntry.bytes).or (contents pool.storage key)

theorem visible_eq_shown (given : pool.residents = some residents) (key : String) :
    pool.visible contents key = shown contents pool.storage residents key := by
  rw [visible, entry?, given, Option.bind_some, shown]

/-! ## Other keys -/

variable [BlockStorage σ]

section Operations

variable {other : String} (isLocal : BlockStorage.IsLocal contents)
  (given : pool.residents = some residents)
include isLocal given

theorem Writes.visible_of_ne {block : MatrixBlock} {outcome : Except Failure Unit}
    (writes : Writes key block pool residents outcome after) (apart : other ≠ key) :
    after.visible contents other = pool.visible contents other := by
  rw [visible_eq_shown given]
  cases writes with
  | around _ called | refused _ called =>
    exact (visible_eq_shown rfl other).trans
      (shown_clear_of_ne apart (isLocal.write_other called apart))
  | into _ _ evicts pages =>
    -- The new entry is that of the key itself.
    have fresh := evicts.find?_eq_none (residents.find?_clear_self key)
    refine (visible_eq_shown rfl other).trans ?_
    dsimp only
    rw [shown_add fresh, if_neg apart, evicts.shown_eq isLocal]
    exact shown_clear_of_ne apart rfl
  | stuck _ _ evicts =>
    rw [visible_eq_shown evicts.residents_eq.2, evicts.shown_eq isLocal]
    exact shown_clear_of_ne apart rfl

theorem Deletes.visible_of_ne {outcome : Except Failure Unit}
    (deletes : Deletes key pool residents outcome after) (apart : other ≠ key) :
    after.visible contents other = pool.visible contents other := by
  rw [visible_eq_shown given]
  cases deletes with
  | removed called | refused called =>
    exact (visible_eq_shown rfl other).trans
      (shown_clear_of_ne apart (isLocal.delete_other called apart))

theorem Reads.visible_of_ne {outcome : Except Failure MatrixBlock}
    (reads : Reads key pool residents outcome after) (apart : other ≠ key) :
    after.visible contents other = pool.visible contents other := by
  cases reads with
  | hit found =>
    rw [visible_eq_shown given]
    exact (visible_eq_shown rfl other).trans (shown_used _ found other)
  | fetched _ called | refused _ called =>
    have same := isLocal.read_other called apart
    exact congrArg (((pool.entry? other).map BufferEntry.bytes).or ·) same

theorem Serves.visible_of_ne {call : BufferCall} {failure : Option Failure}
    (serves : Serves pool residents call failure after) (apart : other ≠ call.key) :
    after.visible contents other = pool.visible contents other := by
  cases serves with
  | write how => exact how.visible_of_ne isLocal given apart
  | read how => exact how.visible_of_ne isLocal given apart
  | delete how => exact how.visible_of_ne isLocal given apart

end Operations

/-- A call spares other keys when the buffer is accounted for. -/
theorem visible_afterCall {limit maxEntryBytes : Nat} (isLocal : BlockStorage.IsLocal contents)
    (accounted : pool.IsAccounted limit maxEntryBytes) (call : BufferCall) {other : String}
    (apart : other ≠ call.key) :
    (pool.afterCall call).visible contents other = pool.visible contents other := by
  cases given : pool.residents with
  | none => rw [(afterCall_of_uninitialized given call).1]
  | some residents =>
    have sound := (accounted.residents residents given).toIsSound
    exact (serves given sound call).visible_of_ne isLocal given apart

/-- However a buffer was used: whatever call is made next, and whichever calls of the storage are
refused meanwhile, every other key shows before and after the same, be it from an entry or from
storage. -/
theorem visible_afterCall_of_ne [Quantity α] (isLocal : BlockStorage.IsLocal contents)
    (settings : BufferSettings α) (memory : Nat) (storage : σ) (steps : List (BufferStep σ))
    (call : BufferCall) {other : String} (apart : other ≠ call.key) :
    let pool := (new settings memory storage).afterSteps steps
    (pool.afterCall call).visible contents other = pool.visible contents other := by
  have accounted := afterSteps_isAccounted (isAccounted_new settings memory storage) steps
  exact visible_afterCall isLocal accounted call apart

/-- A buffer for so many bytes over a blank storage that refuses writes to some keys. -/
def guardedPool (limit : Nat) (refused : List String) : BufferPool (GuardedStorage MemoryStorage) :=
  new ({ fraction := 1, policy := .fifo, pageCache := false, maxEntryBytes := limit } :
    BufferSettings Rat) limit { storage := .empty, refused }

/-- Two entries and a block that needs the room of both: the first entry goes to storage, the second
one is refused, and both keys show what they did. -/
theorem visible_afterCall_of_partial_eviction :
    let contents (guarded : GuardedStorage MemoryStorage) := guarded.storage.get?
    let small : MatrixBlock := { rows := 1, columns := 1, cells := .dense #[7] }
    let wide : MatrixBlock := { rows := 1, columns := 5, cells := .dense #[1, 2, 3, 4, 5] }
    let pool := (guardedPool 60 ["b"]).afterSteps
      [.start, .call (.write "a" small), .call (.write "b" small)]
    let after := pool.afterCall (.write "c" wide)
    pool.failure? (.write "c" wide) = some (.error (.storage "b" .refused)) ∧
      pool.contains "a" = true ∧ after.contains "a" = false ∧
      after.visible contents "a" = pool.visible contents "a" ∧
      after.visible contents "b" = pool.visible contents "b" := by
  intro contents small wide pool after
  have isLocal := MemoryStorage.isReadable.guarded.toIsLocal
  exact ⟨by decide +kernel, by decide +kernel, by decide +kernel,
    visible_afterCall_of_ne isLocal _ 60 _ _ (.write "c" wide) (by decide),
    visible_afterCall_of_ne isLocal _ 60 _ _ (.write "c" wide) (by decide)⟩

/-! ## The key of the operation -/

/-- The buffer has given up the entry of a key, and the storage has under the key what it had. -/
structure HasGivenUp (contents : σ → String → Option Bytes) (key : String)
    (pool after : BufferPool σ) : Prop where
  absent : ∃ kept, after.residents = some kept ∧ kept.find? key = none
  unchanged : contents after.storage key = contents pool.storage key

omit [BlockStorage σ] in
theorem HasGivenUp.visible_eq (given : HasGivenUp contents key pool after) :
    after.isInitialized = true ∧ after.visible contents key = contents pool.storage key := by
  obtain ⟨⟨kept, left, absent⟩, unchanged⟩ := given
  refine ⟨by rw [isInitialized, left, Option.isSome_some], ?_⟩
  rw [visible_eq_shown left, shown, absent, Option.map_none, Option.none_or, unchanged]

section Refused

variable (isLocal : BlockStorage.IsLocal contents)
include isLocal

theorem Writes.hasGivenUp {block : MatrixBlock} {outcome : Except Failure Unit}
    (writes : Writes key block pool residents outcome after) (failed : outcome ≠ .ok ()) :
    HasGivenUp contents key pool after := by
  have absent := residents.find?_clear_self key
  cases writes with
  | around | into => exact absurd rfl failed
  | refused _ called =>
    refine ⟨⟨_, rfl, absent⟩, ?_⟩
    dsimp only
    rw [isLocal.write_refused called]
  | stuck _ _ evicts =>
    -- The key is none of those that were evicted.
    have gone := evicts.find?_eq_none absent
    have unchanged := evicts.shown_eq isLocal key
    rw [shown_clear_self, shown, gone] at unchanged
    exact ⟨⟨_, evicts.residents_eq.2, gone⟩, unchanged⟩

theorem Deletes.hasGivenUp {outcome : Except Failure Unit}
    (deletes : Deletes key pool residents outcome after) (failed : outcome ≠ .ok ()) :
    HasGivenUp contents key pool after := by
  cases deletes with
  | removed => exact absurd rfl failed
  | refused called =>
    refine ⟨⟨_, rfl, residents.find?_clear_self key⟩, ?_⟩
    dsimp only
    rw [isLocal.delete_refused called]

/-- An update that failed has given up the old entry of its key. -/
theorem Serves.hasGivenUp {call : BufferCall} {cause : Failure}
    (serves : Serves pool residents call (some cause) after) (update : call.IsUpdate) :
    HasGivenUp contents call.key pool after := by
  generalize failed : some cause = failure at serves
  cases serves with
  | write how =>
    refine how.hasGivenUp isLocal ?_
    rintro rfl
    cases failed
  | delete how =>
    refine how.hasGivenUp isLocal ?_
    rintro rfl
    cases failed
  | read => exact update.elim

end Refused

/-- What reading under a key comes to that shows these bytes, or none. -/
def answer (absent : String → StorageFault) (key : String) (shows : Option Bytes) :
    Except Error MatrixBlock :=
  match shows with
  | some bytes => load key bytes
  | none => .error (.storage key (absent key))

/-- Reading tells what the key shows. -/
theorem read_eq_answer {absent : String → StorageFault}
    (readable : BlockStorage.IsReadable contents absent) (initialized : pool.isInitialized = true)
    (key : String) :
    ((read key).result pool).1 = orFailure (answer absent key (pool.visible contents key)) := by
  obtain ⟨residents, given⟩ := Option.isSome_iff_exists.mp initialized
  have told := readable.read_eq pool.storage key
  obtain ⟨outcome, after, result, how⟩ := exists_reads given key
  rw [result, visible_eq_shown given, shown]
  cases how with
  | hit found =>
    rw [found]
    rfl
  | fetched missing called | refused missing called =>
    rw [called] at told
    rw [missing]
    cases stored : contents pool.storage key with
    | some bytes | none =>
      rw [stored] at told
      cases told <;> rfl

/-- What reading under a key comes to does not depend on calls under other keys. -/
theorem read_afterCall_of_ne {absent : String → StorageFault} {limit maxEntryBytes : Nat}
    (readable : BlockStorage.IsReadable contents absent)
    (accounted : pool.IsAccounted limit maxEntryBytes) {call : BufferCall} {other : String}
    (apart : other ≠ call.key) :
    ((read other).result (pool.afterCall call)).1 = ((read other).result pool).1 := by
  cases given : pool.residents with
  | none => rw [(afterCall_of_uninitialized given call).1]
  | some residents =>
    have sound := (accounted.residents residents given).toIsSound
    obtain ⟨kept, left⟩ := ((serves given sound call).goesOn given).initialized
    have initialized : pool.isInitialized = true := by rw [isInitialized, given, Option.isSome_some]
    have initializedThen : (pool.afterCall call).isInitialized = true := by
      rw [isInitialized, left, Option.isSome_some]
    rw [read_eq_answer readable initializedThen, read_eq_answer readable initialized,
      visible_afterCall readable.toIsLocal accounted call apart]

omit [BlockStorage σ] in
/-- Bytes under a key load alike when they are alike to the decoder. -/
theorem load_eq_iff (key : String) (bytes other : Bytes) :
    load key bytes = load key other ↔ MatrixBlock.decode? bytes = MatrixBlock.decode? other := by
  unfold load
  cases MatrixBlock.decode? bytes <;> cases MatrixBlock.decode? other <;> simp

omit [BlockStorage σ] in
/-- Nothing in place of bytes is told from them, unless they cannot be told from nothing. -/
theorem answer_eq_iff {absent : String → StorageFault} (distinct : absent key ≠ .undecodable)
    (stored : Option Bytes) (bytes : Bytes) :
    answer absent key stored = answer absent key (some bytes) ↔
      ∃ found, stored = some found ∧ MatrixBlock.decode? found = MatrixBlock.decode? bytes := by
  cases stored with
  | some found => simp [answer, load_eq_iff]
  | none => cases loaded : MatrixBlock.decode? bytes <;> simp [answer, load, loaded, distinct]

/-- The exact condition under which reading does not notice that the storage refused a call of an
update of the key: the key had no entry, or the storage has bytes under it that load as the entry
does. For the entry is gone in any case, and the key shows what storage holds under it, however
old that is. -/
theorem read_after_refusal_iff [Quantity α] {absent : String → StorageFault}
    (readable : BlockStorage.IsReadable contents absent) (settings : BufferSettings α)
    (memory : Nat) (storage : σ) (steps : List (BufferStep σ)) {call : BufferCall}
    (update : call.IsUpdate) :
    let pool := (new settings memory storage).afterSteps steps
    let after := pool.afterCall call
    pool.failure? call = some (.error (.storage name fault)) →
      after.visible contents call.key = contents pool.storage call.key ∧
      (((read call.key).result after).1 = ((read call.key).result pool).1 ↔
        ∀ entry, pool.entry? call.key = some entry →
          ∃ bytes, contents pool.storage call.key = some bytes ∧
            MatrixBlock.decode? bytes = MatrixBlock.decode? entry.bytes) := by
  intro pool after refused
  have accounted := afterSteps_isAccounted (isAccounted_new settings memory storage) steps
  cases given : pool.residents with
  | none =>
    -- A buffer that is not initialized fails before it gets to the storage.
    rw [(afterCall_of_uninitialized given call).2] at refused
    cases refused
  | some residents =>
    have sound := (accounted.residents residents given).toIsSound
    have served := serves given sound call
    rw [refused] at served
    obtain ⟨initialized, shows⟩ := (served.hasGivenUp readable.toIsLocal update).visible_eq
    refine ⟨shows, ?_⟩
    have started : pool.isInitialized = true := by
      rw [isInitialized, given]
      rfl
    rw [read_eq_answer readable initialized, read_eq_answer readable started, shows,
      Outcome.orFailure_inj, visible]
    cases held : pool.entry? call.key with
    | none => simp
    | some entry =>
      rw [Option.map_some, Option.some_or, answer_eq_iff (readable.absent_ne call.key)]
      simp only [Option.some.injEq, forall_eq']

/-- A block of one cell. -/
def cellBlock (value : CellBits) : MatrixBlock :=
  { rows := 1, columns := 1, cells := .dense #[value] }

/-- A block that is too large for a buffer of thirty bytes. -/
def largeBlock : MatrixBlock := { rows := 2, columns := 2, cells := .dense #[3, 4, 5, 6] }

/-- A buffer with room for one entry, which is that of "a". The storage has an older block under
"a", as the key was evicted before, and takes no other one. -/
def outdated : BufferPool (GuardedStorage MemoryStorage) :=
  (guardedPool 30 []).afterSteps
    [.start, .call (.write "a" (cellBlock 1)), .call (.write "b" (cellBlock 9)),
      .call (.write "a" (cellBlock 2)), .storage fun storage => { storage with refused := ["a"] }]

theorem read_after_refusal_iff_outdated :
    let call := BufferCall.write "a" largeBlock
    outdated.failure? call = some (.error (.storage "a" .refused)) ∧
      (outdated.afterCall call).visible (fun guarded => guarded.storage.get?) "a" =
        some (cellBlock 1).encode ∧
      ((read "a").result (outdated.afterCall call)).1 ≠ ((read "a").result outdated).1 := by
  intro call
  have refused : outdated.failure? call = some (.error (.storage "a" .refused)) := by
    decide +kernel
  obtain ⟨shows, noticed⟩ :=
    read_after_refusal_iff MemoryStorage.isReadable.guarded _ 30 _ _
      (show call.IsUpdate from trivial) refused
  refine ⟨refused, shows.trans (by decide +kernel), fun same => ?_⟩
  obtain ⟨bytes, stored, alike⟩ := noticed.mp same
    { key := "a", size := 28, sparse := false, bytes := (cellBlock 2).encode } (by decide +kernel)
  have older : bytes = (cellBlock 1).encode :=
    Option.some.inj (stored.symm.trans (by decide +kernel))
  rw [older, MatrixBlock.decode?_encode (by decide), MatrixBlock.decode?_encode (by decide)] at alike
  cases alike

/-- Reading gives the older block in place of the entry after the storage refused a block. -/
theorem not_read_after_refusal_eq :
    outdated.failure? (.write "a" largeBlock) = some (.error (.storage "a" .refused)) ∧
      ((read "a").result outdated).1.toOption = some (cellBlock 2) ∧
      ((read "a").result (outdated.afterCall (.write "a" largeBlock))).1.toOption =
        some (cellBlock 1) := by
  decide +kernel

end BufferPool

end ParallelLoop
