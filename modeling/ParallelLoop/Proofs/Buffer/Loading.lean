/-
# Blocks that are read

A read loads the bytes that its key shows, those of the entry or those that storage gives. The
buffer makes no difference between bytes that it stored itself and bytes that were put into
storage by others or were changed there, so what it gives is a well-formed block exactly if the
bytes start with the stored form of one (`read_isWellFormed_iff`). As long as nothing but the
buffer writes to storage, and what it is given to write comes from the constructors, that is so
(`read_isWellFormed_of_written`).
-/

import ParallelLoop.Proofs.Buffer.Accounting
import ParallelLoop.Proofs.Matrix.WellFormed

namespace ParallelLoop

/-- The block that was written last was written by one of the calls. -/
theorem BufferCall.mem_of_lastWritten {calls : List BufferCall} {key : String}
    {block : MatrixBlock} (written : lastWritten calls key = some block) :
    .write key block ∈ calls := by
  -- From whatever blocks the fold starts, what it ends with was there before or was written.
  suffices ∀ blocks : String → Option MatrixBlock, calls.foldl apply blocks key = some block →
      blocks key = some block ∨ .write key block ∈ calls by
    simpa using this _ written
  clear written
  induction calls with
  | nil => exact fun _ held => .inl held
  | cons call rest ih =>
    intro blocks held
    rcases ih _ held with before | later
    · cases call with
      | write other value =>
        by_cases same : key = other
        · subst same
          rw [apply, Function.update_self, Option.some.injEq] at before
          exact .inr (before ▸ List.mem_cons_self)
        · rw [apply, Function.update_of_ne same] at before
          exact .inl before
      | read other => exact .inl before
      | delete other =>
        by_cases same : key = other
        · subst same
          simp [apply] at before
        · rw [apply, Function.update_of_ne same] at before
          exact .inl before
    · exact .inr (List.mem_cons_of_mem _ later)

namespace BufferPool

variable {σ : Type} [BlockStorage σ] {pool : BufferPool σ} {key : String} {block : MatrixBlock}

/-! ## One read -/

/-- The bytes that storage gives under a key when it does not refuse to. -/
def readable (storage : σ) (key : String) : Option Bytes :=
  (BlockStorage.read storage key).1.toOption

omit [BlockStorage σ] in
theorem load_eq_ok_iff {bytes : Bytes} :
    orFailure (load key bytes) = .ok block ↔ MatrixBlock.decode? bytes = some block := by
  unfold load
  cases MatrixBlock.decode? bytes <;> simp

/-- Reading gives a block exactly if the bytes that the key shows load as that block. -/
theorem read_eq_ok_iff {residents : Residents} (given : pool.residents = some residents) :
    ((read key).result pool).1 = .ok block ↔ ∃ bytes,
      shown readable pool.storage residents key = some bytes ∧
        MatrixBlock.decode? bytes = some block := by
  obtain ⟨outcome, after, result, how⟩ := exists_reads given key
  rw [result, shown]
  cases how with
  | hit found => simp [found, load_eq_ok_iff]
  | fetched absent called => simp [absent, readable, called, Except.toOption, load_eq_ok_iff]
  | refused absent called => simp [absent, readable, called, Except.toOption]

/-- A buffer that gives a block is initialized. -/
theorem exists_residents_of_read (done : ((read key).result pool).1 = .ok block) :
    ∃ residents, pool.residents = some residents := by
  cases given : pool.residents with
  | some residents => exact ⟨residents, rfl⟩
  | none =>
    rw [result_read_none given] at done
    cases done

/-- A block that was read is well-formed exactly if the bytes that the key shows start with the
stored form of a block that a constructor made. Then every position of it can be read and no stored
cell is missed. -/
theorem read_isWellFormed_iff (done : ((read key).result pool).1 = .ok block) :
    ∃ residents bytes, pool.residents = some residents ∧
      shown readable pool.storage residents key = some bytes ∧
      MatrixBlock.decode? bytes = some block ∧
      (block.IsWellFormed ↔ MatrixBlock.StartsBuilt bytes) ∧
      (block.IsWellFormed → block.IsReadable) := by
  obtain ⟨residents, given⟩ := exists_residents_of_read done
  obtain ⟨bytes, shows, loaded⟩ := (read_eq_ok_iff given).mp done
  exact ⟨residents, bytes, given, shows, loaded, MatrixBlock.isWellFormed_iff_startsBuilt loaded,
    MatrixBlock.IsWellFormed.isReadable⟩

/-- A buffer with no entries over a storage that has these bytes under a key. -/
def overBytes (bytes : Bytes) : BufferPool MemoryStorage :=
  { limit := 150, maxEntryBytes := 150, policy := .fifo, residents := some .empty, pages := none
    statistics := .zero, storage := .insert .empty "k" bytes, log := [] }

/-- Two nonzero cells in the order of their positions. -/
def orderedCells : MatrixBlock :=
  ⟨2, 2, .sparse #[⟨0, 0, 0x3FF0000000000000⟩, ⟨1, 0, 0x4014000000000000⟩]⟩

theorem read_isWellFormed_iff_orderedCells :
    ((read "k").result (overBytes (orderedCells.encode ++ [7]))).1 = .ok orderedCells ∧
      MatrixBlock.StartsBuilt (orderedCells.encode ++ [7]) ∧ orderedCells.IsReadable := by
  have done : ((read "k").result (overBytes (orderedCells.encode ++ [7]))).1 = .ok orderedCells := by
    decide +kernel
  have wellFormed : orderedCells.IsWellFormed := by decide
  obtain ⟨residents, bytes, given, shows, -, startsBuilt, isReadable⟩ := read_isWellFormed_iff done
  cases given
  cases shows
  exact ⟨done, startsBuilt.mp wellFormed, isReadable wellFormed⟩

/-- A block that should have one cell, stored without it. -/
def noCell : Bytes := [1, 0, 0, 0, 1, 0, 0, 0, 0, 0, 0, 0, 0, 0, 0, 0, 0, 0, 0, 0]

/-- The two cells in the other order. -/
def swappedCells : MatrixBlock :=
  ⟨2, 2, .sparse #[⟨1, 0, 0x4014000000000000⟩, ⟨0, 0, 0x3FF0000000000000⟩]⟩

/-- Bytes that no constructor's block has load as well. One of the blocks then cannot be read at
its only position, and the other one has a cell that reading its position does not find. -/
theorem not_isWellFormed_noCell :
    (∃ block, ((read "k").result (overBytes noCell)).1 = .ok block ∧ ¬block.IsWellFormed ∧
      block.get 0 0 = .error (.abort .outOfBounds)) ∧
    ∃ block, ((read "k").result (overBytes swappedCells.encode)).1 = .ok block ∧
      ¬block.IsWellFormed ∧
      block.cells = .sparse #[⟨1, 0, 0x4014000000000000⟩, ⟨0, 0, 0x3FF0000000000000⟩] ∧
      block.get 1 0 = .ok 0 := by
  refine ⟨⟨⟨1, 1, .dense #[]⟩, ?_, ?_, ?_⟩, ⟨swappedCells, ?_, ?_, rfl, ?_⟩⟩ <;> decide +kernel

/-! ## Runs -/

/-- Over a storage that is a map and was blank, an initialized buffer that is given only blocks
from the constructors gives only well-formed blocks. -/
theorem read_isWellFormed_of_written {contents : σ → String → Option Bytes}
    (isMap : BlockStorage.IsMap contents) (blank : contents pool.storage = fun _ => none)
    {calls : List BufferCall} (storable : ∀ call ∈ calls, call.IsStorable)
    (built : ∀ key block, .write key block ∈ calls → block.IsBuilt)
    (done : ((read key).result ((initializeBuffer.result pool).2.afterCalls calls)).1 =
      .ok block) :
    block.IsWellFormed := by
  obtain ⟨started, initialized, mirrors⟩ := initializeBuffer_mirrors blank
  rw [initialized] at done
  obtain ⟨outcome, after, result, answers, -⟩ :=
    read_mirrors isMap (afterCalls_mirrors isMap mirrors storable) key
  rw [result] at done
  change outcome = .ok block at done
  subst done
  -- What is found under the key is what was written there last.
  have written : BufferCall.lastWritten calls key = some block := by
    change Answers key (BufferCall.lastWritten calls key) (.ok block) at answers
    cases last : BufferCall.lastWritten calls key with
    | none =>
      rw [last] at answers
      obtain ⟨fault, failed, -⟩ := answers
      cases failed
    | some other =>
      rw [last] at answers
      rw [Except.ok.inj answers]
  exact MatrixBlock.isWellFormed_iff_isBuilt.mpr
    (built key block (BufferCall.mem_of_lastWritten written))

end BufferPool

end ParallelLoop
