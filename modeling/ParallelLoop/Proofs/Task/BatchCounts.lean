/-
# What a factoring schedule counts

A factoring schedule works on words. It reads the number of iterations as a signed word, divides by
twice the number of workers, multiplies the size of a batch by the number of workers, reads this
product as a signed word and takes it off. `Partitioner.CountsExactly` says that none of this shows:
every batch has the size that goes with the number of iterations that are really left, up to the
last batch and beyond it, because the shapes never end.

This is not true of every loop and every number of workers that are accepted.
`Partitioner.countsExactly_iff` has the condition: the number of iterations, the number of workers
and the product of the least size and the number of workers have to be signed words. The first
batch shows that it is needed. That it is enough takes the whole run of the schedule, since the
count may go below zero after the last iteration, and stays there.
-/

import ParallelLoop.Proofs.Task.Factoring

namespace ParallelLoop

/-- The least size of the tasks that a kind of factoring is built with, if it has one. -/
def PartitionerKind.leastBatch? (kind : PartitionerKind) (taskSize : Nat) : Option Nat :=
  if kind.needsSize then some taskSize else none

/-! ## One batch -/

/-- The batch that a schedule starts when it counts `remaining` iterations and `left` are left is
computed as on unbounded integers: nothing overflows, and what the batch covers reads as it is. -/
structure StartsExactly (workers : Nat) (minBatch : Option Nat) (remaining : Int) (left : Nat) :
    Prop where
  doubled_le : batchShare * workers ≤ Word.maxCount
  size_eq : nextBatchSize remaining workers minBatch = .ok (factoringSize left workers minBatch)
  covered_le : factoringSize left workers minBatch * workers ≤ Word.maxCount
  covered_eq : Word.reinterpret (factoringSize left workers minBatch * workers) =
    (factoringSize left workers minBatch * workers : Nat)

section Batch

variable {workers left : Nat} {minBatch : Option Nat} {remaining : Int}

/-- The least size of a batch is one of the bounds on its size. -/
theorem le_factoringSize (remaining workers : Nat) :
    ∀ least ∈ minBatch, least ≤ factoringSize remaining workers minBatch := by
  rintro least ⟨rfl⟩
  exact Nat.le_max_right ..

/-- A batch is computed exactly as long as its own numbers are signed words. -/
theorem startsExactly_toNat (counted : remaining.toNat < 2 ^ 63) (few : workers < 2 ^ 63)
    (product : ∀ least ∈ minBatch, least * workers < 2 ^ 63) :
    StartsExactly workers minBatch remaining remaining.toNat := by
  have covered := factoringSize_mul_lt counted few product
  exact {
    doubled_le := by unfold batchShare Word.maxCount; omega
    size_eq := nextBatchSize_eq_factoringSize few remaining minBatch
    covered_le := by unfold Word.maxCount; omega
    covered_eq := Word.reinterpret_of_le (by unfold Word.maxSigned; omega) }

namespace StartsExactly

/-- What a batch covers is a signed word, and no smaller than the workers alone or the workers with
tasks of the least size. -/
theorem fits (exact : StartsExactly workers minBatch remaining left) :
    workers ≤ Word.maxSigned ∧ ∀ least ∈ minBatch, (least * workers : Nat) ≤ Word.maxSigned := by
  have signed := (Word.reinterpret_inSigned (factoringSize left workers minBatch * workers)).2
  rw [exact.covered_eq] at signed
  refine ⟨?_, fun least given => ?_⟩
  · have alone := Nat.le_mul_of_pos_left workers (factoringSize_pos left workers minBatch)
    omega
  · have product := Nat.mul_le_mul_right workers (le_factoringSize left workers least given)
    omega

/-- The batch that is started. -/
theorem startBatch_eq (exact : StartsExactly workers minBatch remaining left)
    (partitioner : Partitioner) :
    partitioner.startBatch workers minBatch remaining = .ok
      { left := workers, shape := partitioner.shape (factoringSize left workers minBatch)
        remaining := Word.clamp
          (remaining - (factoringSize left workers minBatch * workers : Nat)) } := by
  have word := Word.count?_eq_some_iff.mpr ⟨exact.covered_le, rfl⟩
  rw [Partitioner.startBatch, exact.size_eq, Outcome.ok_bind, word, Outcome.orOverflow_some,
    Outcome.ok_bind, exact.covered_eq]
  rfl

end StartsExactly

end Batch

/-! ## The run of a schedule -/

namespace Partitioner

variable {partitioner : Partitioner} {cursor : TaskCursor} {workers : Nat} {minBatch : Option Nat}

/-- The cursors that come one after the other, and go on when all iterations are handed out. -/
inductive Reaches (partitioner : Partitioner) : TaskCursor → Prop
  | start : Reaches partitioner partitioner.start
  | next {cursor : TaskCursor} {shape : TaskShape} {rest : ShapeState}
    (reached : Reaches partitioner cursor)
    (found : partitioner.nextShape cursor.shapes = .ok (some (shape, rest))) :
    Reaches partitioner
      { shapes := rest
        handedOut := cursor.handedOut +
          min (max shape.size 1) (partitioner.total - cursor.handedOut) }

/-- The schedule reads the number of iterations as it is, and starts every batch exactly, with as
many iterations as are left then. -/
structure CountsExactly (partitioner : Partitioner) (workers : Nat) (minBatch : Option Nat) :
    Prop where
  total_eq : Word.reinterpret partitioner.total = partitioner.total
  starts : ∀ cursor, partitioner.Reaches cursor →
    ∃ batch, cursor.shapes = .batches workers minBatch batch ∧
      (batch.left = 0 → StartsExactly workers minBatch batch.remaining
        (partitioner.total - cursor.handedOut))

/-- The schedule is in a batch, and what is left is what it counts and what its batch still has to
hand out, or nothing if this is negative. -/
structure InStep (partitioner : Partitioner) (workers : Nat) (minBatch : Option Nat)
    (cursor : TaskCursor) (batch : Batch) : Prop where
  shapes_eq : cursor.shapes = .batches workers minBatch batch
  nonempty : 0 < batch.left → 0 < batch.shape.size
  left_eq : partitioner.total - cursor.handedOut =
    (batch.remaining + (batch.left * batch.shape.size : Nat)).toNat

section Run

variable (positive : 0 < workers) (counted : partitioner.total < 2 ^ 63)
  (few : workers < 2 ^ 63) (product : ∀ least ∈ minBatch, least * workers < 2 ^ 63)
include positive counted few product

omit positive in
theorem InStep.startsExactly {batch : Batch}
    (inStep : partitioner.InStep workers minBatch cursor batch) (ended : batch.left = 0) :
    StartsExactly workers minBatch batch.remaining (partitioner.total - cursor.handedOut) := by
  have left_eq := inStep.left_eq
  rw [ended, Nat.zero_mul, Int.natCast_zero, Int.add_zero] at left_eq
  rw [left_eq]
  exact startsExactly_toNat (by omega) few product

/-- A shape goes from the schedule to the tasks, so the schedule stays in step with them. -/
theorem InStep.next {batch : Batch} (inStep : partitioner.InStep workers minBatch cursor batch)
    {shape : TaskShape} {rest : ShapeState}
    (found : partitioner.nextShape cursor.shapes = .ok (some (shape, rest))) :
    ∃ later, partitioner.InStep workers minBatch
      { shapes := rest
        handedOut := cursor.handedOut +
          min (max shape.size 1) (partitioner.total - cursor.handedOut) } later := by
  have left_eq := inStep.left_eq
  rw [inStep.shapes_eq, nextShape] at found
  dsimp only at found
  by_cases ended : batch.left = 0
  · have exact := inStep.startsExactly counted few product ended
    have nonempty := factoringSize_pos (partitioner.total - cursor.handedOut) workers minBatch
    have covered : factoringSize (partitioner.total - cursor.handedOut) workers minBatch *
        workers < 2 ^ 63 := factoringSize_mul_lt (by omega) few product
    have started := exact.startBatch_eq partitioner
    generalize factoringSize (partitioner.total - cursor.handedOut) workers minBatch = size at *
    rw [if_pos ended, started, Outcome.ok_bind] at found
    cases found
    rw [ended, Nat.zero_mul, Int.natCast_zero, Int.add_zero] at left_eq
    refine ⟨_, rfl, fun _ => nonempty, ?_⟩
    -- Of the whole batch one task is handed out, and the others are still to come.
    obtain ⟨others, rfl⟩ : ∃ others, workers = others + 1 := ⟨workers - 1, by omega⟩
    have parts : size * (others + 1) = others * size + size := by
      rw [Nat.mul_comm, Nat.succ_mul]
    simp only [Partitioner.shape, Nat.add_sub_cancel, Word.clamp, Word.minSigned, Word.maxSigned]
    omega
  · have nonempty := inStep.nonempty (Nat.pos_of_ne_zero ended)
    rw [if_neg ended] at found
    cases found
    obtain ⟨others, others_eq⟩ : ∃ others, batch.left = others + 1 := ⟨batch.left - 1, by omega⟩
    refine ⟨_, rfl, fun _ => nonempty, ?_⟩
    rw [others_eq, Nat.succ_mul] at left_eq
    simp only [others_eq, Nat.add_sub_cancel]
    omega

/-- The schedule is in step wherever it comes. -/
theorem Reaches.exists_inStep (strategy_eq : partitioner.strategy = .factoring workers minBatch)
    (reached : partitioner.Reaches cursor) :
    ∃ batch, partitioner.InStep workers minBatch cursor batch := by
  induction reached with
  | start =>
    have total_eq : Word.reinterpret partitioner.total = partitioner.total :=
      Word.reinterpret_of_le (by unfold Word.maxSigned; omega)
    refine ⟨{ left := 0, shape := { size := 0, ranged := false }
              remaining := Word.reinterpret partitioner.total }, ?_, by simp, ?_⟩
    · rw [Partitioner.start, initialShapes, strategy_eq]
    · simp [Partitioner.start, total_eq]
  | next reached found ih =>
    obtain ⟨batch, inStep⟩ := ih
    exact inStep.next positive counted few product found

theorem countsExactly_of_lt (strategy_eq : partitioner.strategy = .factoring workers minBatch) :
    partitioner.CountsExactly workers minBatch where
  total_eq := Word.reinterpret_of_le (by unfold Word.maxSigned; omega)
  starts := fun cursor reached => by
    obtain ⟨batch, inStep⟩ := reached.exists_inStep positive counted few product strategy_eq
    exact ⟨batch, inStep.shapes_eq, inStep.startsExactly counted few product⟩

end Run

/-- The count itself and the first batch show what has to be a signed word. -/
theorem CountsExactly.fits (exact : partitioner.CountsExactly workers minBatch)
    (strategy_eq : partitioner.strategy = .factoring workers minBatch) :
    partitioner.total ≤ Word.maxSigned ∧ workers ≤ Word.maxSigned ∧
      ∀ least ∈ minBatch, (least * workers : Nat) ≤ Word.maxSigned := by
  have signed := (Word.reinterpret_inSigned partitioner.total).2
  rw [exact.total_eq] at signed
  obtain ⟨batch, shapes_eq, starts⟩ := exact.starts partitioner.start .start
  rw [Partitioner.start, initialShapes, strategy_eq] at shapes_eq
  cases shapes_eq
  exact ⟨signed, (starts rfl).fits⟩

/-! ## Factoring partitioners that can be built -/

section Build

variable {kind : PartitionerKind} {space : IterationSpace} {taskSize : Nat}

/-- The strategy of a factoring partitioner that was built. -/
theorem strategy_of_build (chosen : kind = .factoring ∨ kind = .constrainedFactoring)
    (built : build kind space taskSize workers = .ok partitioner) :
    0 < workers ∧ partitioner.space = space ∧
      partitioner.strategy = .factoring workers (kind.leastBatch? taskSize) := by
  unfold build at built
  split at built
  next => cases built
  next workersGiven =>
    split at built
    next => cases built
    next =>
      have positive : 0 < workers := by
        obtain rfl | rfl := chosen
        · simpa [PartitionerKind.needsWorkers, Nat.pos_iff_ne_zero] using workersGiven
        · simpa [PartitionerKind.needsWorkers, Nat.pos_iff_ne_zero] using workersGiven
      have partitioner_eq : partitioner = factoring space workers (kind.leastBatch? taskSize) := by
        obtain rfl | rfl := chosen
        · exact (Except.ok.inj built).symm
        · exact (Except.ok.inj built).symm
      rw [partitioner_eq, factoring_eq positive]
      exact ⟨positive, rfl, rfl⟩

/-- The arithmetic of a factoring schedule is exact for every batch if and only if the number of
iterations, the number of workers and, with a least size, the product of the two are signed
words. -/
theorem countsExactly_iff (chosen : kind = .factoring ∨ kind = .constrainedFactoring)
    (built : build kind space taskSize workers = .ok partitioner) :
    partitioner.CountsExactly workers (kind.leastBatch? taskSize) ↔
      space.range.size ≤ Word.maxSigned ∧ workers ≤ Word.maxSigned ∧
        ∀ least ∈ kind.leastBatch? taskSize, (least * workers : Nat) ≤ Word.maxSigned := by
  obtain ⟨positive, rfl, strategy_eq⟩ := strategy_of_build chosen built
  refine ⟨fun exact => exact.fits strategy_eq, fun ⟨counted, few, product⟩ => ?_⟩
  unfold Word.maxSigned at counted few product
  refine countsExactly_of_lt positive (Nat.lt_succ_of_le ?_) (by omega) ?_ strategy_eq
  · change partitioner.total ≤ 2 ^ 63 - 1
    unfold total
    omega
  · intro least given
    have := product least given
    omega

/-- With tasks of four iterations or more, four workers share one hundred and one iterations
exactly; with as many workers as have the sign bit set, nothing is exact. -/
theorem countsExactly_hundredOne :
    ∃ few many, build .constrainedFactoring hundredOne 4 4 = .ok few ∧
      build .factoring hundredOne 0 (2 ^ 63) = .ok many ∧
      few.CountsExactly 4 (some 4) ∧ ¬ many.CountsExactly (2 ^ 63) none := by
  have few : build .constrainedFactoring hundredOne 4 4 =
      .ok (factoring hundredOne 4 (some 4)) := rfl
  have many : build .factoring hundredOne 0 (2 ^ 63) =
      .ok (factoring hundredOne (2 ^ 63) none) := rfl
  refine ⟨_, _, few, many, ?_, ?_⟩
  · exact (countsExactly_iff (.inr rfl) few).mpr
      ⟨by decide, by decide, by rintro least ⟨rfl⟩; decide⟩
  · exact mt (countsExactly_iff (.inl rfl) many).mp fun ⟨_, signed, _⟩ => absurd signed (by decide)

/-- A loop whose iterations can be counted, but not with a signed word. -/
def hugeSpan : IterationSpace :=
  { var := "i", range := { first := -2 ^ 63, last := 2 ^ 63 - 1, step := 2 },
    encoding := .disabled }

/-- Its schedule reads the count as a negative one. Four workers get tasks of one iteration, instead
of an eighth of all. -/
theorem not_countsExactly_hugeSpan :
    IterationSpace.ofBounds "i" (-2 ^ 63) (2 ^ 63 - 1) 2 .disabled = .ok hugeSpan ∧
      hugeSpan.range.size = 2 ^ 63 ∧ factoringSize (2 ^ 63) 4 none = 2 ^ 60 ∧
      ∃ partitioner, build .factoring hugeSpan 0 4 = .ok partitioner ∧
        partitioner.shapesUpTo 1 = .ok [{ size := 1, ranged := false }] ∧
        ¬ partitioner.CountsExactly 4 none := by
  refine ⟨rfl, by decide, by decide, _, rfl, by decide +kernel, fun exact => ?_⟩
  exact absurd (exact.fits rfl).1 (by decide)

end Build

end Partitioner

end ParallelLoop
