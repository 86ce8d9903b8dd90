/-
# Batches of a factoring schedule

A factoring schedule counts for itself how many iterations remain: when a batch starts, it takes
off what the whole batch covers, and this count is a signed word that is clamped. The tasks are cut
to what is left of the loop, which is counted apart from it. The two counts stay in step: as long
as iterations are left, what remains for the schedule is what is left without the tasks of the batch
that are still to come. So every batch starts with the exact number of iterations left, and only
the last task of all is cut.

`Task.InBatches` says what such tasks look like. Every batch takes at least half of what is left,
which bounds the number of batches by a logarithm, and with less left a batch has no larger tasks.
-/

import Mathlib.Algebra.Order.Floor.Div
import ParallelLoop.Proofs.Task.Partition

namespace ParallelLoop

/-! ## The size of a batch -/

/-- The size of the tasks of a batch that starts with so many iterations left: half of them divided
among the workers, rounded up, and no less than one and the least size, if there is one. -/
def factoringSize (remaining workers : Nat) (minBatch : Option Nat) : Nat :=
  max (max (remaining ⌈/⌉ (2 * workers)) 1) (minBatch.getD 0)

section Size

variable {remaining fewer workers : Nat} {minBatch : Option Nat}

theorem factoringSize_pos (remaining workers : Nat) (minBatch : Option Nat) :
    0 < factoringSize remaining workers minBatch :=
  Nat.lt_of_lt_of_le (Nat.lt_of_lt_of_le Nat.one_pos (Nat.le_max_right ..)) (Nat.le_max_left ..)

/-- Fewer iterations do not make a batch of larger tasks. -/
theorem factoringSize_mono (le : fewer ≤ remaining) (workers : Nat) (minBatch : Option Nat) :
    factoringSize fewer workers minBatch ≤ factoringSize remaining workers minBatch := by
  have share : fewer ⌈/⌉ (2 * workers) ≤ remaining ⌈/⌉ (2 * workers) := by
    simp only [Nat.ceilDiv_eq_add_pred_div]
    exact Nat.div_le_div_right (by omega)
  unfold factoringSize
  omega

/-- A whole batch takes at least half of what is left. -/
theorem le_two_mul_factoringSize (positive : 0 < workers) (remaining : Nat)
    (minBatch : Option Nat) :
    remaining ≤ 2 * (workers * factoringSize remaining workers minBatch) := by
  have doubled : 0 < 2 * workers := by omega
  have half : remaining ≤ 2 * workers * (remaining ⌈/⌉ (2 * workers)) := le_smul_ceilDiv doubled
  have share : remaining ⌈/⌉ (2 * workers) ≤ factoringSize remaining workers minBatch :=
    Nat.le_trans (Nat.le_max_left ..) (Nat.le_max_left ..)
  rw [← Nat.mul_assoc]
  exact Nat.le_trans half (Nat.mul_le_mul_left _ share)

/-- What a whole batch covers is a signed word. -/
theorem factoringSize_mul_lt (counted : remaining < 2 ^ 63) (few : workers < 2 ^ 63)
    (product : ∀ least ∈ minBatch, least * workers < 2 ^ 63) :
    factoringSize remaining workers minBatch * workers < 2 ^ 63 := by
  have share : remaining ⌈/⌉ (2 * workers) * workers < 2 ^ 63 := by
    have quotient := Nat.div_mul_le_self (remaining + 2 * workers - 1) (2 * workers)
    rw [← Nat.ceilDiv_eq_add_pred_div, Nat.mul_comm 2 workers, ← Nat.mul_assoc] at quotient
    rw [Nat.mul_comm 2 workers]
    generalize remaining ⌈/⌉ (workers * 2) = size at *
    -- A second task for every worker means that more is left than there are workers.
    by_cases single : size ≤ 1
    · have := Nat.mul_le_mul_right workers single
      omega
    · have := Nat.mul_le_mul_right workers (show 2 ≤ size by omega)
      omega
  have least : minBatch.getD 0 * workers < 2 ^ 63 := by
    cases minBatch with
    | none => simp
    | some least => exact product least rfl
  rw [factoringSize, ← Nat.mul_max_mul_right, ← Nat.mul_max_mul_right]
  omega

/-- The schedule computes this size, and a size for nothing when its count is negative. -/
theorem nextBatchSize_eq_factoringSize (few : workers < 2 ^ 63) (remaining : Int)
    (minBatch : Option Nat) :
    nextBatchSize remaining workers minBatch =
      .ok (factoringSize remaining.toNat workers minBatch) := by
  have counted : Word.count? (batchShare * workers) = Option.some (2 * workers) :=
    Word.count?_eq_some_iff.mpr ⟨by unfold Word.maxCount batchShare; omega, rfl⟩
  by_cases ended : remaining ≤ 0
  · rw [nextBatchSize, if_pos ended, Int.toNat_of_nonpos ended]
    cases minBatch with
    | none => simp [factoringSize]
    | some least => simp [factoringSize]
  · rw [nextBatchSize, if_neg ended, counted]
    cases minBatch with
    | none => simp [factoringSize, Nat.ceilDiv_eq_add_pred_div]
    | some least => simp [factoringSize, Nat.ceilDiv_eq_add_pred_div]

end Size

/-! ## Tasks in batches -/

namespace Task

/-- The task has as many iterations as the shape says, and they are given as it says. -/
structure HasShape (task : Task) (shape : TaskShape) : Prop where
  size_eq : task.size = shape.size
  typeName_eq : task.typeName = if shape.ranged then "RANGE" else "SET"

/-- The tasks come in batches of one task for each worker. All tasks of a batch have the size that
goes with the number of iterations left when it starts, and are given as a range if this size is.
Only the last task of all may be smaller. -/
inductive InBatches (workers : Nat) (minBatch : Option Nat) (encoding : RangeEncoding) :
    Nat → List Task → Prop
  /-- The last batch has all that is left, and it may end before every worker has a task. -/
  | last {remaining size left : Nat} {batch : List Task} {task : Task}
    (size_eq : size = factoringSize remaining workers minBatch)
    (room : batch.length < workers)
    (alike : ∀ other ∈ batch, other.HasShape { size, ranged := encoding.applies size })
    (cut : task.HasShape { size := left, ranged := encoding.applies size })
    (some : 0 < left) (left_le : left ≤ size)
    (sum : batch.length * size + left = remaining) :
    InBatches workers minBatch encoding remaining (batch ++ [task])
  /-- A batch that others follow has a task for every worker, and takes at least half. -/
  | whole {remaining size : Nat} {batch rest : List Task}
    (size_eq : size = factoringSize remaining workers minBatch)
    (length_eq : batch.length = workers)
    (alike : ∀ other ∈ batch, other.HasShape { size, ranged := encoding.applies size })
    (half : remaining ≤ 2 * (workers * size))
    (more : workers * size < remaining)
    (others : InBatches workers minBatch encoding (remaining - workers * size) rest) :
    InBatches workers minBatch encoding remaining (batch ++ rest)

namespace InBatches

variable {workers remaining : Nat} {minBatch : Option Nat} {encoding : RangeEncoding}
  {tasks : List Task} {task : Task}

/-- No task is larger than those of the first batch. -/
theorem size_le (batches : InBatches workers minBatch encoding remaining tasks)
    (member : task ∈ tasks) : task.size ≤ factoringSize remaining workers minBatch := by
  induction batches with
  | last size_eq room alike cut some left_le sum =>
    rcases List.mem_append.mp member with early | final
    · exact Nat.le_of_eq ((alike task early).size_eq.trans size_eq)
    · rw [List.mem_singleton.mp final, cut.size_eq, ← size_eq]
      exact left_le
  | whole size_eq length_eq alike half more others ih =>
    rcases List.mem_append.mp member with early | later
    · exact Nat.le_of_eq ((alike task early).size_eq.trans size_eq)
    · exact Nat.le_trans (ih later) (factoringSize_mono (Nat.sub_le ..) workers minBatch)

/-- Task sizes never increase. -/
theorem pairwise_size (batches : InBatches workers minBatch encoding remaining tasks) :
    tasks.Pairwise fun earlier later => later.size ≤ earlier.size := by
  -- Within a batch all sizes are the same.
  have within {batch : List Task} {shape : TaskShape}
      (alike : ∀ task ∈ batch, task.HasShape shape) :
      batch.Pairwise fun earlier later => later.size ≤ earlier.size :=
    List.pairwise_of_forall_mem_list fun earlier first later second =>
      Nat.le_of_eq ((alike later second).size_eq.trans (alike earlier first).size_eq.symm)
  induction batches with
  | last size_eq room alike cut some left_le sum =>
    refine List.pairwise_append.mpr ⟨within alike, List.pairwise_singleton .., ?_⟩
    intro earlier first later final
    rw [List.mem_singleton.mp final, cut.size_eq, (alike earlier first).size_eq]
    exact left_le
  | whole size_eq length_eq alike half more others ih =>
    refine List.pairwise_append.mpr ⟨within alike, ih, ?_⟩
    intro earlier first later second
    rw [(alike earlier first).size_eq, size_eq]
    exact Nat.le_trans (others.size_le second) (factoringSize_mono (Nat.sub_le ..) workers minBatch)

/-- What is left halves from batch to batch, so there are no more batches than it has binary
digits. -/
theorem length_le (batches : InBatches workers minBatch encoding remaining tasks) :
    tasks.length ≤ workers * (remaining.log2 + 1) := by
  induction batches with
  | @last remaining size left batch task size_eq room alike cut some left_le sum =>
    rw [List.length_append, List.length_singleton]
    exact Nat.le_trans room (Nat.le_mul_of_pos_right _ (Nat.succ_pos _))
  | @whole remaining size batch rest size_eq length_eq alike half more others ih =>
    -- A full batch takes at least half of what remains, so its logarithm drops by one.
    have fewer : (remaining - workers * size).log2 + 1 ≤ remaining.log2 := by
      rw [Nat.le_log2 (by omega), Nat.pow_succ]
      have below := Nat.log2_self_le (n := remaining - workers * size) (by omega)
      omega
    calc (batch ++ rest).length
        = workers + rest.length := by rw [List.length_append, length_eq]
      _ ≤ workers + workers * ((remaining - workers * size).log2 + 1) := by omega
      _ ≤ workers + workers * remaining.log2 := by
        exact Nat.add_le_add_left (Nat.mul_le_mul_left _ fewer) _
      _ = workers * (remaining.log2 + 1) := by rw [Nat.mul_succ, Nat.add_comm]

end InBatches

end Task

/-! ## The two counts -/

namespace Partitioner

variable {partitioner : Partitioner} {cursor next : TaskCursor} {shape : TaskShape} {task : Task}
  {tasks : List Task} {workers left size remaining : Nat} {minBatch : Option Nat} {after : Int}

/-- A task is given as its shape says. -/
theorem hasShape_of_taskAt {start : Nat} (created : partitioner.taskAt start shape = .ok task)
    (covers : task.Covers partitioner.space.range start shape.size) : task.HasShape shape where
  size_eq := covers.size_eq
  typeName_eq := by
    unfold taskAt at created
    dsimp only at created
    split at created
    next ranged =>
      obtain ⟨iterations, given, created⟩ := Outcome.of_bind created
      obtain ⟨slice, -, rfl⟩ := Outcome.of_map given
      cases created
      rw [if_pos ranged]
      rfl
    next listed =>
      obtain ⟨iterations, given, created⟩ := Outcome.of_bind created
      obtain ⟨values, -, rfl⟩ := Outcome.of_map given
      cases created
      rw [if_neg listed]
      rfl

/-- The batch of a schedule that counts the iterations that are left. -/
theorem startBatch_eq_factoringSize (partitioner : Partitioner) (counted : remaining < 2 ^ 63)
    (few : workers < 2 ^ 63)
    (product : ∀ least ∈ minBatch, least * workers < 2 ^ 63) :
    let size := factoringSize remaining workers minBatch
    partitioner.startBatch workers minBatch remaining = .ok
      { left := workers, shape := partitioner.shape size
        remaining := (remaining : Int) - (workers * size : Nat) } := by
  intro size
  have covered : size * workers < 2 ^ 63 := factoringSize_mul_lt counted few product
  have word : Word.count? (size * workers) = Option.some (size * workers) :=
    Word.count?_eq_some_iff.mpr ⟨by unfold Word.maxCount; omega, rfl⟩
  have plain : Word.reinterpret (size * workers) = (size * workers : Nat) :=
    Word.reinterpret_of_le (by unfold Word.maxSigned; omega)
  have within : Word.InSigned ((remaining : Int) - (size * workers : Nat)) := by
    simp only [Word.InSigned, Word.minSigned, Word.maxSigned]
    omega
  rw [startBatch, nextBatchSize_eq_factoringSize few, Int.toNat_natCast, Outcome.ok_bind, word,
    Outcome.orOverflow_some, Outcome.ok_bind, plain, Word.clamp_of_inSigned within,
    Nat.mul_comm workers]
  rfl

/-- Within a batch the next task has the size of the batch, or what is left. -/
theorem nextCut_of_batch
    (shapes_eq : cursor.shapes = .batches workers minBatch
      { left := left + 1, shape := partitioner.shape size, remaining := after })
    (positive : 0 < size) (some : cursor.handedOut < partitioner.total) :
    let count := min size (partitioner.total - cursor.handedOut)
    partitioner.nextCut cursor = .ok (Option.some
      ({ size := count, ranged := partitioner.space.encoding.applies size },
        { shapes := .batches workers minBatch
            { left, shape := partitioner.shape size, remaining := after }
          handedOut := cursor.handedOut + count })) := by
  have least : max size 1 = size := Nat.max_eq_left positive
  have shaped : partitioner.nextShape cursor.shapes = .ok (Option.some (partitioner.shape size,
      .batches workers minBatch
        { left, shape := partitioner.shape size, remaining := after })) := by
    rw [shapes_eq]
    rfl
  rw [nextCut, if_neg (Nat.not_le.mpr some), shaped]
  simp only [Outcome.ok_bind, Partitioner.shape, least]
  rfl

namespace Streams

theorem eq_nil (stream : partitioner.Streams cursor tasks)
    (ended : partitioner.total ≤ cursor.handedOut) : tasks = [] := by
  cases stream with
  | done => rfl
  | step cut created covers nonempty advance within others => omega

/-- Cursors that cut the same next task are followed by the same tasks. -/
theorem congr {other : TaskCursor} (stream : partitioner.Streams cursor tasks)
    (same : partitioner.nextCut other = partitioner.nextCut cursor)
    (handedOut_eq : other.handedOut = cursor.handedOut) : partitioner.Streams other tasks := by
  cases stream with
  | done ended => exact .done (handedOut_eq ▸ ended)
  | step cut created covers nonempty advance within others =>
    rw [← handedOut_eq] at created covers advance
    exact .step (same.trans cut) created covers nonempty advance within others

/-- A batch is started before its first task is cut. -/
theorem of_start (stream : partitioner.Streams cursor tasks)
    (shapes_eq : cursor.shapes = .batches workers minBatch { left := 0, shape, remaining := after })
    {batch : Batch} (started : partitioner.startBatch workers minBatch after = .ok batch)
    (some : batch.left ≠ 0) :
    partitioner.Streams { cursor with shapes := .batches workers minBatch batch } tasks := by
  refine stream.congr ?_ rfl
  have same : partitioner.nextShape (.batches workers minBatch batch) =
      partitioner.nextShape cursor.shapes := by
    rw [shapes_eq, nextShape, nextShape, if_neg some, if_pos rfl, started]
    rfl
  rw [nextCut, nextCut, same]

/-- Within a batch the next task has the size of the batch, unless the loop ends with it. -/
theorem of_task (stream : partitioner.Streams cursor tasks)
    (shapes_eq : cursor.shapes = .batches workers minBatch
      { left := left + 1, shape := partitioner.shape size, remaining := after })
    (positive : 0 < size) (some : cursor.handedOut < partitioner.total) :
    ∃ task rest, tasks = task :: rest ∧
      ((task.HasShape (partitioner.shape size) ∧ ∃ next, partitioner.Streams next rest ∧
          next.handedOut = cursor.handedOut + size ∧ next.handedOut < partitioner.total ∧
          next.shapes = .batches workers minBatch
            { left, shape := partitioner.shape size, remaining := after }) ∨
        (rest = [] ∧ partitioner.total - cursor.handedOut ≤ size ∧
          task.HasShape { partitioner.shape size with
            size := partitioner.total - cursor.handedOut })) := by
  have computed := nextCut_of_batch shapes_eq positive some
  cases stream with
  | done ended => omega
  | @step _ next shape task rest cut created covers nonempty advance within others =>
    have shaped := hasShape_of_taskAt created covers
    rw [computed] at cut
    cases cut
    refine ⟨task, rest, rfl, ?_⟩
    -- The batch goes on with tasks of one size, unless this one takes all that was left.
    by_cases more : cursor.handedOut + size < partitioner.total
    · have full : min size (partitioner.total - cursor.handedOut) = size := by omega
      rw [full] at shaped others
      exact .inl ⟨shaped, _, others, rfl, more, rfl⟩
    · have cut : min size (partitioner.total - cursor.handedOut) =
          partitioner.total - cursor.handedOut := by omega
      rw [cut] at shaped
      exact .inr ⟨others.eq_nil (by dsimp only; omega), by omega, shaped⟩

/-- From within a batch on come the other tasks of the batch, and then what follows it, unless the
loop ends with one of them. -/
theorem of_batch (stream : partitioner.Streams cursor tasks)
    (shapes_eq : cursor.shapes = .batches workers minBatch
      { left, shape := partitioner.shape size, remaining := after })
    (opened : 0 < left) (positive : 0 < size) (some : cursor.handedOut < partitioner.total) :
    ∃ batch rest, tasks = batch ++ rest ∧
      (∀ task ∈ batch, task.HasShape (partitioner.shape size)) ∧
      ((batch.length = left ∧ ∃ next, partitioner.Streams next rest ∧
          next.handedOut = cursor.handedOut + left * size ∧
          next.handedOut < partitioner.total ∧
          next.shapes = .batches workers minBatch
            { left := 0, shape := partitioner.shape size, remaining := after }) ∨
        ∃ task count, rest = [task] ∧ batch.length < left ∧
          task.HasShape { partitioner.shape size with size := count } ∧ 0 < count ∧ count ≤ size ∧
          batch.length * size + count = partitioner.total - cursor.handedOut) := by
  -- One task after the other; the loop may end with each of them.
  induction left generalizing cursor tasks with
  | zero => exact absurd opened (Nat.lt_irrefl 0)
  | succ left ih =>
    have distributed : (left + 1) * size = left * size + size := Nat.succ_mul ..
    obtain ⟨task, rest, rfl, ⟨shaped, next, others, advance, more, next_eq⟩ |
      ⟨rfl, cut, shaped⟩⟩ := stream.of_task shapes_eq positive some
    · obtain rfl | opened := Nat.eq_zero_or_pos left
      · refine ⟨[task], rest, rfl, by simpa using shaped, .inl ⟨rfl, next, others, ?_⟩⟩
        exact ⟨by omega, more, next_eq⟩
      · obtain ⟨batch, rest, rfl, alike, ending⟩ := ih others next_eq opened more
        refine ⟨task :: batch, rest, rfl, List.forall_mem_cons.mpr ⟨shaped, alike⟩, ?_⟩
        obtain ⟨length_eq, last, final, reached, ends⟩ |
          ⟨final, count, rfl, few, cut, nonempty, small, sum⟩ := ending
        · exact .inl ⟨congrArg Nat.succ length_eq, last, final, by omega, ends⟩
        · refine .inr ⟨final, count, rfl, Nat.succ_lt_succ few, cut, nonempty, small, ?_⟩
          rw [List.length_cons, Nat.succ_mul]
          omega
    · refine ⟨[], [task], rfl, by simp, .inr ⟨task, _, rfl, Nat.succ_pos _, shaped, ?_, cut, ?_⟩⟩
      · omega
      · simp

/-- From the end of a batch on the tasks come in batches, as long as the schedule counts what is
left. -/
theorem inBatches (stream : partitioner.Streams cursor tasks) {shape : TaskShape}
    (shapes_eq : cursor.shapes = .batches workers minBatch
      { left := 0, shape, remaining := (partitioner.total - cursor.handedOut : Nat) })
    (some : cursor.handedOut < partitioner.total) (counted : partitioner.total < 2 ^ 63)
    (positive : 0 < workers) (few : 2 * workers < 2 ^ 63)
    (product : ∀ least ∈ minBatch, least * workers < 2 ^ 63) :
    Task.InBatches workers minBatch partitioner.space.encoding
      (partitioner.total - cursor.handedOut) tasks := by
  -- Along the batches: each leaves less than there was before.
  induction rest : partitioner.total - cursor.handedOut using Nat.strong_induction_on
    generalizing cursor tasks shape with
  | _ remaining ih =>
    have started := partitioner.startBatch_eq_factoringSize (show remaining < 2 ^ 63 by omega)
      (by omega) product
    have nonempty := factoringSize_pos remaining workers minBatch
    have half := le_two_mul_factoringSize positive remaining minBatch
    obtain ⟨size, size_eq⟩ : ∃ size, size = factoringSize remaining workers minBatch := ⟨_, rfl⟩
    rw [← size_eq] at nonempty half started
    have within := stream.of_start (rest ▸ shapes_eq) started (Nat.ne_of_gt positive)
    obtain ⟨batch, later, rfl, alike, ending⟩ := within.of_batch rfl positive nonempty some
    dsimp only at ending
    rw [rest] at ending
    obtain ⟨length_eq, next, others, advance, more, next_eq⟩ |
      ⟨task, left, rfl, room, cut, some, left_le, sum⟩ := ending
    · have less : 0 < workers * size := Nat.mul_pos positive nonempty
      have left_eq : partitioner.total - next.handedOut = remaining - workers * size := by omega
      have counts : next.shapes = .batches workers minBatch
          { left := 0, shape := partitioner.shape size
            remaining := (partitioner.total - next.handedOut : Nat) } := by
        rw [next_eq, left_eq, Int.ofNat_sub (by omega)]
      exact .whole size_eq length_eq alike half (by omega)
        (ih _ (by omega) others counts more left_eq)
    · exact .last size_eq room alike cut some left_le sum

end Streams

/-! ## Factoring -/

section Factoring

variable {var : String} {first last step : Int} {encoding : RangeEncoding} {space : IterationSpace}

theorem factoring_eq (positive : 0 < workers) :
    factoring space workers minBatch = { space, strategy := .factoring workers minBatch } := by
  rw [factoring, Nat.max_eq_left positive]

/-- The tasks of a factoring schedule come in batches of a task for each worker, each batch with
tasks of the size that goes with what is left when it starts. So their sizes never increase, and
there are at most as many batches as the number of iterations has binary digits. -/
theorem factoring_inBatches (firstSigned : Word.InSigned first) (lastSigned : Word.InSigned last)
    (accepted : IterationSpace.ofBounds var first last step encoding = .ok space)
    (span : last - first ≤ Word.maxSigned) (some : 0 < space.range.size)
    (counted : space.range.size ≤ Word.maxSigned) (positive : 0 < workers)
    (few : 2 * workers < 2 ^ 63) (product : ∀ least ∈ minBatch, least * workers < 2 ^ 63) :
    let partitioner := factoring space workers minBatch
    ∃ tasks, Task.InBatches workers minBatch encoding partitioner.total tasks ∧
      (tasks.Pairwise fun earlier later => later.size ≤ earlier.size) ∧
      tasks.length ≤ workers * (partitioner.total.log2 + 1) ∧
      ∀ limit, partitioner.total ≤ limit → partitioner.createTasks limit = .ok tasks := by
  intro partitioner
  obtain ⟨forward, rfl⟩ := ofBounds_eq_ok accepted
  have modest : partitioner.IsModest := by
    rw [show partitioner = _ from factoring_eq positive]
    refine ⟨⟨forward, firstSigned, lastSigned, span⟩, positive, by omega, fun least given => ?_⟩
    have := product least given
    omega
  obtain ⟨tasks, stream, produced⟩ := exists_tasks modest
  have within : partitioner.total < 2 ^ 63 := by
    change ((partitioner.total : Nat) : Int) ≤ Word.maxSigned at counted
    unfold Word.maxSigned at counted
    omega
  -- The schedule starts with the count itself, as this is a signed word.
  have start : partitioner.start.shapes = .batches workers minBatch
      { left := 0, shape := { size := 0, ranged := false }
        remaining := (partitioner.total - partitioner.start.handedOut : Nat) } := by
    have word : Word.reinterpret partitioner.total = partitioner.total :=
      Word.reinterpret_of_le counted
    rw [show partitioner.start.handedOut = 0 from rfl, Nat.sub_zero, ← word,
      show partitioner = _ from factoring_eq positive]
    rfl
  have batches := stream.inBatches start some within positive few product
  exact ⟨tasks, batches, batches.pairwise_size, batches.length_le, produced⟩

/-- The loop from 1 to 101. -/
def hundredOne : IterationSpace :=
  { var := "i", range := { first := 1, last := 101, step := 1 }, encoding := .disabled }

/-- Four workers get batches of tasks of the sizes 13, 7, 3 and 2, and a last task. -/
theorem factoring_inBatches_hundredOne :
    IterationSpace.ofBounds "i" 1 101 1 .disabled = .ok hundredOne ∧
      ∃ tasks, (factoring hundredOne 4 none).createTasks 101 = .ok tasks ∧
        Task.InBatches 4 none .disabled 101 tasks ∧
        tasks.map Task.size = [13, 13, 13, 13, 7, 7, 7, 7, 3, 3, 3, 3, 2, 2, 2, 2, 1] := by
  have accepted : IterationSpace.ofBounds "i" 1 101 1 .disabled = .ok hundredOne := rfl
  obtain ⟨tasks, batches, -, -, produced⟩ :=
    factoring_inBatches (by decide) (by decide) accepted (by decide) (by decide) (by decide)
      (show 0 < 4 by decide) (by decide) (show ∀ least ∈ none, least * 4 < 2 ^ 63 by simp)
  have created := produced 101 (by decide)
  have sizes : List.map Task.size <$> (factoring hundredOne 4 none).createTasks 101 =
      .ok [13, 13, 13, 13, 7, 7, 7, 7, 3, 3, 3, 3, 2, 2, 2, 2, 1] := by
    decide +kernel
  rw [created] at sizes
  exact ⟨accepted, tasks, created, batches, Except.ok.inj sizes⟩

end Factoring

end Partitioner

end ParallelLoop
