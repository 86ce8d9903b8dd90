/-
# Tasks partition the iterations

A partitioner proposes shapes, and tasks follow the shapes until all iterations are
handed out. `ShapeState.Supplies` is the invariant of the shapes: they do not run out
before the iterations do, and their arithmetic stays within the words.
`Partitioner.Streams` relates a cursor to the tasks from there on. Every cursor that
supplies shapes has such a stream, and all that is said about tasks goes by induction
along it:

* the tasks run the iterations of the loop, in order, without gap or repetition;
* what a task is given as, listed values or a range, does not show in its values;
* creating the tasks gives exactly the stream.
-/

import ParallelLoop.Proofs.Task.Values
import ParallelLoop.Task.Partitioner

namespace ParallelLoop

namespace Task

/-- The task runs the `count` iterations of a range that follow the first `start` ones. -/
structure Covers (task : Task) (range : IterationRange) (start count : Nat) : Prop where
  size_eq : task.size = count
  values_eq : task.values = .ok ((List.range' start count).map range.point)

/-- The tasks share out the iterations of a loop in order: none is empty, each has the size that
it says, and together they run all values of the loop. -/
structure Partition (tasks : List Task) (first last step : Int) : Prop where
  nonempty : ∀ task ∈ tasks, task.isEmpty = false
  size_eq : ∀ task ∈ tasks, ∃ values, task.values = .ok values ∧ task.size = values.length
  values_eq : List.flatten <$> tasks.mapM Task.values = .ok (loopValues first last step)

end Task

/-- The workers of a strategy can be counted together with their tasks. -/
def Strategy.IsModest : Strategy → Prop
  | .naive | .fixed _ => True
  | .static workers => 0 < workers
  | .factoring workers minBatch =>
    0 < workers ∧ workers < 2 ^ 63 ∧ ∀ least ∈ minBatch, least * workers < 2 ^ 64

namespace ShapeState

/-- There will be shapes until all of `total` iterations are handed out. The shares of the workers
before this one add up to what was handed out, and a batch leaves a signed word. -/
def Supplies (total handedOut : Nat) : ShapeState → Prop
  | .repeating _ => True
  | .perWorker workers worker =>
    0 < workers ∧ worker ≤ workers ∧
      handedOut = worker * (total / workers) + min worker (total % workers)
  | .batches workers minBatch batch =>
    (Strategy.factoring workers minBatch).IsModest ∧ Word.InSigned batch.remaining

/-- The shapes from two states on differ in nothing but their encoding. -/
def SameSizes : ShapeState → ShapeState → Prop
  | .repeating shape, .repeating other => shape.size = other.size
  | .perWorker workers worker, .perWorker others other => workers = others ∧ worker = other
  | .batches workers minBatch batch, .batches others otherMin other =>
    workers = others ∧ minBatch = otherMin ∧ batch.left = other.left ∧
      batch.shape.size = other.shape.size ∧ batch.remaining = other.remaining
  | _, _ => False

end ShapeState

/-! ## Shapes -/

/-- The task size of the next batch can be computed, and so can what the batch covers. -/
theorem nextBatchSize_eq {remaining : Int} {workers : Nat} {minBatch : Option Nat}
    (modest : (Strategy.factoring workers minBatch).IsModest) (within : Word.InSigned remaining) :
    ∃ size, nextBatchSize remaining workers minBatch = .ok size ∧
      size * workers ≤ Word.maxCount := by
  obtain ⟨positive, few, product⟩ := modest
  -- First without a least size, as the product with that one fits by assumption.
  have share : ∃ size, size * workers ≤ Word.maxCount ∧ ∀ minBatch,
      nextBatchSize remaining workers minBatch = .ok (minBatch.elim size (max size)) := by
    by_cases ended : remaining ≤ 0
    · refine ⟨1, by unfold Word.maxCount; omega, fun minBatch => ?_⟩
      cases minBatch <;> simp [nextBatchSize, ended]
    · have counted : Word.count? (batchShare * workers) = some (batchShare * workers) :=
        Word.count?_eq_some_iff.mpr ⟨by unfold Word.maxCount batchShare; omega, rfl⟩
      refine ⟨max ((remaining.toNat + batchShare * workers - 1) / (batchShare * workers)) 1, ?_,
        fun minBatch => ?_⟩
      · -- A share is at most half of what is left and one round of tasks of size one.
        have half := Nat.div_mul_le_self (remaining.toNat + batchShare * workers - 1)
          (batchShare * workers)
        have upper := within.2
        unfold batchShare at *
        rw [Nat.mul_comm 2 workers, ← Nat.mul_assoc] at half
        rw [Nat.mul_comm 2 workers, ← Nat.mul_max_mul_right]
        unfold Word.maxSigned at upper
        unfold Word.maxCount
        omega
      · cases minBatch <;> simp [nextBatchSize, ended, counted]
  obtain ⟨size, small, sized⟩ := share
  refine ⟨_, sized minBatch, ?_⟩
  cases minBatch with
  | none => exact small
  | some least =>
    have := product least rfl
    rw [Option.elim_some, ← Nat.mul_max_mul_right]
    unfold Word.maxCount at *
    omega

namespace Partitioner

variable {partitioner other : Partitioner} {shape otherShape : TaskShape}
  {shapes rest otherShapes otherRest : ShapeState} {handedOut : Nat}

/-- The iterations of the partitioner can be counted and cut within the words. -/
structure IsModest (partitioner : Partitioner) : Prop where
  narrow : partitioner.space.range.IsNarrow
  strategy : partitioner.strategy.IsModest

/-- A batch can be started wherever the schedule stands. -/
theorem startBatch_eq (partitioner : Partitioner) {workers : Nat} {minBatch : Option Nat}
    {remaining : Int} (modest : (Strategy.factoring workers minBatch).IsModest)
    (within : Word.InSigned remaining) :
    ∃ batch, partitioner.startBatch workers minBatch remaining = .ok batch ∧
      Word.InSigned batch.remaining := by
  obtain ⟨size, sized, covered⟩ := nextBatchSize_eq modest within
  have counted : Word.count? (size * workers) = some (size * workers) :=
    Word.count?_eq_some_iff.mpr ⟨covered, rfl⟩
  rw [startBatch, sized, Outcome.ok_bind, counted, Outcome.orOverflow_some]
  refine ⟨_, rfl, ?_⟩
  simp only [Word.InSigned, Word.clamp, Word.minSigned, Word.maxSigned]
  omega

/-- The shares of the workers up to this one, as long as something is left: the share is not
empty, and it does not reach beyond the end. -/
theorem evenShare_spec {total workers worker : Nat} (positive : 0 < workers)
    (within : worker ≤ workers)
    (left : worker * (total / workers) + min worker (total % workers) < total) :
    worker < workers ∧ 0 < evenShare total workers worker ∧
      worker * (total / workers) + min worker (total % workers) + evenShare total workers worker =
        (worker + 1) * (total / workers) + min (worker + 1) (total % workers) ∧
      (worker + 1) * (total / workers) + min (worker + 1) (total % workers) ≤ total := by
  have division := Nat.div_add_mod total workers
  have remainder := Nat.mod_lt total positive
  unfold evenShare
  generalize total / workers = base at *
  generalize total % workers = extra at *
  -- After the last worker nothing would be left.
  have inside : worker < workers := by
    by_contra outside
    obtain rfl : worker = workers := by omega
    omega
  have monotone : (worker + 1) * base ≤ workers * base := Nat.mul_le_mul_right _ inside
  have added : (worker + 1) * base = worker * base + base := Nat.succ_mul _ _
  have share : 0 < base + if worker < extra then 1 else 0 := by
    by_contra empty
    obtain rfl : base = 0 := by omega
    rw [Nat.mul_zero] at left division
    split at empty <;> omega
  refine ⟨inside, share, ?_, by omega⟩
  split <;> omega

/-- Shapes come until all iterations are handed out. -/
theorem nextShape_of_supplies (supplies : shapes.Supplies partitioner.total handedOut)
    (left : handedOut < partitioner.total) :
    ∃ shape rest, partitioner.nextShape shapes = .ok (some (shape, rest)) ∧
      rest.Supplies partitioner.total
        (handedOut + min (max shape.size 1) (partitioner.total - handedOut)) := by
  cases shapes with
  | repeating shape => exact ⟨shape, .repeating shape, rfl, trivial⟩
  -- The share of a worker is what its task is cut to, so the sum goes on to the next worker.
  | perWorker workers worker =>
    obtain ⟨positive, within, sum⟩ := supplies
    obtain ⟨inside, share, next, reach⟩ := evenShare_spec positive within (sum ▸ left)
    refine ⟨_, _, if_pos ⟨inside, share⟩, positive, inside, ?_⟩
    dsimp only [Partitioner.shape]
    omega
  | batches workers minBatch batch =>
    obtain ⟨modest, signed⟩ := supplies
    rw [nextShape]
    split
    -- The batch is used up, and the next one starts with what is left for it.
    next =>
      obtain ⟨fresh, started, within⟩ := partitioner.startBatch_eq modest signed
      rw [started]
      exact ⟨_, _, rfl, modest, within⟩
    next => exact ⟨_, _, rfl, modest, signed⟩

/-- Shapes of the same sizes go on with the same sizes. -/
theorem nextShape_sameSizes (same : shapes.SameSizes otherShapes)
    (total_eq : partitioner.total = other.total)
    (next : partitioner.nextShape shapes = .ok (some (shape, rest)))
    (otherNext : other.nextShape otherShapes = .ok (some (otherShape, otherRest))) :
    shape.size = otherShape.size ∧ rest.SameSizes otherRest := by
  cases shapes with
  | repeating given =>
    cases otherShapes with
    | repeating _ =>
      cases next
      cases otherNext
      exact ⟨same, same⟩
    | perWorker | batches => exact same.elim
  | perWorker workers worker =>
    cases otherShapes with
    | perWorker others otherWorker =>
      obtain ⟨rfl, rfl⟩ := same
      simp only [nextShape, total_eq] at next otherNext
      split at next
      next inside =>
        rw [if_pos inside] at otherNext
        cases next
        cases otherNext
        exact ⟨rfl, rfl, rfl⟩
      next => simp at next
    | repeating | batches => exact same.elim
  | batches workers minBatch batch =>
    cases otherShapes with
    | batches others otherMin otherBatch =>
      obtain ⟨rfl, rfl, left_eq, size_eq, remaining_eq⟩ := same
      -- A new batch is as large as the other one, since as many iterations remain.
      simp only [nextShape, left_eq, remaining_eq, Outcome.pure_eq, Outcome.ok_bind]
        at next otherNext
      split at next
      next fresh =>
        rw [if_pos fresh] at otherNext
        obtain ⟨started, batch_eq, next⟩ := Outcome.of_bind next
        obtain ⟨otherStarted, otherBatch_eq, otherNext⟩ := Outcome.of_bind otherNext
        obtain ⟨size, sized, rest_eq⟩ := Outcome.of_bind batch_eq
        obtain ⟨covered, counted, rest_eq⟩ := Outcome.of_bind rest_eq
        rw [startBatch, sized, Outcome.ok_bind, counted, Outcome.ok_bind] at otherBatch_eq
        cases rest_eq
        cases otherBatch_eq
        cases next
        cases otherNext
        exact ⟨rfl, rfl, rfl, rfl, rfl, rfl⟩
      next =>
        rw [if_neg (by assumption)] at otherNext
        cases next
        cases otherNext
        exact ⟨size_eq, rfl, rfl, rfl, size_eq, rfl⟩
    | repeating | perWorker => exact same.elim

/-! ## Tasks of one shape -/

/-- The task of a shape runs the iterations it is cut to. -/
theorem taskAt_eq (partitioner : Partitioner) {start : Nat}
    (narrow : partitioner.space.range.IsNarrow) (nonempty : 0 < shape.size)
    (within : start + shape.size ≤ partitioner.total) :
    ∃ task, partitioner.taskAt start shape = .ok task ∧
      task.Covers partitioner.space.range start shape.size := by
  unfold taskAt
  by_cases ranged : shape.ranged
  · simp only [ranged, if_true, narrow.slice_eq nonempty within]
    exact ⟨_, rfl, narrow.size_slice nonempty within, narrow.values_slice nonempty within⟩
  · simp only [ranged, Bool.false_eq_true, if_false, narrow.valuesFrom_eq within]
    exact ⟨_, rfl, by simp [Task.size], rfl⟩

/-! ## The stream of tasks -/

variable {cursor next otherCursor : TaskCursor} {task : Task} {tasks otherTasks : List Task}
  {limit : Nat}

/-- As long as iterations are left, there is a shape for some of them. -/
theorem nextCut_of_supplies (supplies : cursor.shapes.Supplies partitioner.total cursor.handedOut)
    (left : cursor.handedOut < partitioner.total) :
    ∃ shape next, partitioner.nextCut cursor = .ok (some (shape, next)) ∧ 0 < shape.size ∧
      next.handedOut = cursor.handedOut + shape.size ∧ next.handedOut ≤ partitioner.total ∧
      next.shapes.Supplies partitioner.total next.handedOut := by
  obtain ⟨shape, rest, found, supplied⟩ := nextShape_of_supplies supplies left
  refine ⟨{ shape with size := min (max shape.size 1) (partitioner.total - cursor.handedOut) },
    { shapes := rest
      handedOut := cursor.handedOut +
        min (max shape.size 1) (partitioner.total - cursor.handedOut) },
    ?_, ?_, rfl, ?_, supplied⟩
  · rw [nextCut, if_neg (by omega), found]
    rfl
  · dsimp only
    omega
  · dsimp only
    omega

theorem nextCut_of_ended (ended : partitioner.total ≤ cursor.handedOut) :
    partitioner.nextCut cursor = .ok none := by
  rw [nextCut, if_pos ended]
  rfl

/-- The tasks that follow a cursor, up to the last iteration. -/
inductive Streams (partitioner : Partitioner) : TaskCursor → List Task → Prop
  | done {cursor : TaskCursor} (ended : partitioner.total ≤ cursor.handedOut) :
    Streams partitioner cursor []
  | step {cursor next : TaskCursor} {shape : TaskShape} {task : Task} {tasks : List Task}
    (cut : partitioner.nextCut cursor = .ok (some (shape, next)))
    (created : partitioner.taskAt cursor.handedOut shape = .ok task)
    (covers : task.Covers partitioner.space.range cursor.handedOut shape.size)
    (nonempty : 0 < shape.size)
    (advance : next.handedOut = cursor.handedOut + shape.size)
    (within : next.handedOut ≤ partitioner.total)
    (others : Streams partitioner next tasks) : Streams partitioner cursor (task :: tasks)

/-- A cursor that supplies shapes is followed by tasks. -/
theorem exists_streams (narrow : partitioner.space.range.IsNarrow)
    (supplies : cursor.shapes.Supplies partitioner.total cursor.handedOut) :
    ∃ tasks, partitioner.Streams cursor tasks := by
  -- Every task hands out at least one iteration, so there are fewer left.
  induction left : partitioner.total - cursor.handedOut using Nat.strong_induction_on
    generalizing cursor with
  | _ left ih =>
    by_cases ended : partitioner.total ≤ cursor.handedOut
    · exact ⟨[], .done ended⟩
    · obtain ⟨shape, next, cut, nonempty, advance, within, supplied⟩ :=
        nextCut_of_supplies supplies (by omega)
      obtain ⟨task, created, covers⟩ :=
        taskAt_eq partitioner narrow nonempty (advance ▸ within)
      obtain ⟨tasks, others⟩ := ih _ (by omega) supplied rfl
      exact ⟨task :: tasks, .step cut created covers nonempty advance within others⟩

namespace Streams

/-- Creating tasks ends with the stream. -/
theorem tasksFrom_eq (stream : partitioner.Streams cursor tasks)
    (enough : partitioner.total - cursor.handedOut ≤ limit) :
    partitioner.tasksFrom cursor limit = .ok tasks := by
  induction stream generalizing limit with
  | @done cursor ended =>
    cases limit with
    | zero => rfl
    | succ limit =>
      rw [tasksFrom, nextTask, nextCut_of_ended ended]
      rfl
  | @step cursor next shape task tasks cut created covers nonempty advance within others ih =>
    obtain ⟨rest, rfl⟩ : ∃ rest, limit = rest + 1 := ⟨limit - 1, by omega⟩
    have later := @ih rest (by omega)
    rw [tasksFrom, nextTask, cut, Outcome.ok_bind]
    dsimp only
    rw [created, Outcome.ok_bind, Outcome.pure_eq, Outcome.ok_bind]
    dsimp only
    rw [later]
    rfl

/-- Every task of a stream runs at least one iteration of those left, and as many as it says. -/
theorem mem_covers (stream : partitioner.Streams cursor tasks) (member : task ∈ tasks) :
    ∃ start count, cursor.handedOut ≤ start ∧ 0 < count ∧
      task.Covers partitioner.space.range start count := by
  induction stream with
  | done => simp at member
  | step cut created covers nonempty advance within others ih =>
    rcases List.mem_cons.mp member with rfl | later
    · exact ⟨_, _, Nat.le_refl _, nonempty, covers⟩
    · obtain ⟨start, count, behind, positive, covers⟩ := ih later
      exact ⟨start, count, by omega, positive, covers⟩

/-- No task of a stream comes twice, as each starts with a value of its own. -/
theorem nodup (stream : partitioner.Streams cursor tasks)
    (forward : 0 < partitioner.space.range.step) : tasks.Nodup := by
  induction stream with
  | done => exact List.nodup_nil
  | @step cursor next shape task tasks cut created covers nonempty advance within others ih =>
    refine List.nodup_cons.mpr ⟨fun again => ?_, ih⟩
    obtain ⟨start, count, behind, positive, covers'⟩ := others.mem_covers again
    have values := Except.ok.inj (covers.values_eq.symm.trans covers'.values_eq)
    have heads := congrArg List.head? values
    simp only [List.head?_map, List.head?_range', Nat.ne_of_gt nonempty, Nat.ne_of_gt positive,
      if_false, Option.map_some, Option.some.injEq, IterationRange.point] at heads
    have same : (cursor.handedOut : Int) = start :=
      Int.eq_of_mul_eq_mul_right (Int.ne_of_gt forward) (Int.add_left_cancel heads)
    omega

/-- Together the tasks of a stream have all iterations that are left. -/
theorem sum_sizes (stream : partitioner.Streams cursor tasks) :
    (tasks.map Task.size).sum = partitioner.total - cursor.handedOut := by
  induction stream with
  | done ended => simp [Nat.sub_eq_zero_of_le ended]
  | step cut created covers nonempty advance within others ih =>
    rw [List.map_cons, List.sum_cons, ih, covers.size_eq]
    omega

/-- Together the tasks of a stream run all iterations that are left. -/
theorem values_eq (stream : partitioner.Streams cursor tasks) :
    List.flatten <$> tasks.mapM Task.values =
      .ok ((List.range' cursor.handedOut (partitioner.total - cursor.handedOut)).map
        partitioner.space.range.point) := by
  induction stream with
  | done ended =>
    rw [Nat.sub_eq_zero_of_le ended]
    rfl
  | @step cursor next shape task tasks cut created covers nonempty advance within others ih =>
    obtain ⟨lists, collected, flat⟩ : ∃ lists, tasks.mapM Task.values = .ok lists ∧
        lists.flatten = (List.range' next.handedOut (partitioner.total - next.handedOut)).map
          partitioner.space.range.point := by
      cases collected : tasks.mapM Task.values with
      | error cause => simp [collected, Functor.map, Except.map] at ih
      | ok lists => exact ⟨lists, rfl, by simpa [collected] using ih⟩
    -- The first task runs the front of what is left, and the others run the rest.
    have split : partitioner.total - cursor.handedOut =
        shape.size + (partitioner.total - next.handedOut) := by omega
    rw [List.mapM_cons, covers.values_eq, Outcome.ok_bind, collected, split,
      ← List.range'_append_1, ← advance, List.map_append, ← flat]
    rfl

/-- The values of the tasks do not depend on how they are given. -/
theorem map_values_eq (stream : partitioner.Streams cursor tasks)
    (otherStream : other.Streams otherCursor otherTasks)
    (range_eq : partitioner.space.range = other.space.range)
    (handedOut_eq : cursor.handedOut = otherCursor.handedOut)
    (same : cursor.shapes.SameSizes otherCursor.shapes) :
    otherTasks.map Task.values = tasks.map Task.values := by
  have total_eq : partitioner.total = other.total := congrArg IterationRange.size range_eq
  induction stream generalizing otherCursor otherTasks with
  | done ended =>
    cases otherStream with
    | done => rfl
    | step cut created covers nonempty advance within others => omega
  | @step cursor next shape task tasks cut created covers nonempty advance within others ih =>
    cases otherStream with
    | done => omega
    | @step _ otherNext otherShape otherTask otherTasks otherCut _ otherCovers _ otherAdvance _
        otherOthers =>
      -- Both cursors cut shapes of the same size, and go on with shapes of the same sizes.
      obtain ⟨size_eq, rest_same⟩ :
          shape.size = otherShape.size ∧ next.shapes.SameSizes otherNext.shapes := by
        rw [nextCut, if_neg (by omega)] at cut otherCut
        obtain ⟨found, shaped, cut⟩ := Outcome.of_bind cut
        obtain ⟨otherFound, otherShaped, otherCut⟩ := Outcome.of_bind otherCut
        cases found with
        | none => simp at cut
        | some pair =>
          cases otherFound with
          | none => simp at otherCut
          | some otherPair =>
            obtain ⟨sizes, rests⟩ := nextShape_sameSizes same total_eq shaped otherShaped
            cases cut
            cases otherCut
            exact ⟨by simp only [sizes, total_eq, handedOut_eq], rests⟩
      rw [List.map_cons, List.map_cons, covers.values_eq, otherCovers.values_eq, range_eq,
        handedOut_eq, size_eq, ih otherOthers (by omega) rest_same]

end Streams

/-! ## Partitioners that can be built -/

/-- A modest partitioner supplies shapes for all of its iterations. -/
theorem supplies_initialShapes (modest : partitioner.IsModest) :
    partitioner.initialShapes.Supplies partitioner.total 0 := by
  obtain ⟨narrow, strategy⟩ := modest
  unfold initialShapes
  cases chosen : partitioner.strategy with
  | naive => trivial
  | fixed size => trivial
  | static workers =>
    rw [chosen] at strategy
    exact ⟨strategy, Nat.zero_le _, by simp⟩
  | factoring workers minBatch =>
    rw [chosen] at strategy
    -- The count is read as a signed word, which may be negative but is one.
    refine ⟨strategy, ?_⟩
    dsimp only
    exact Word.reinterpret_inSigned partitioner.total

/-- The encoding of a space only shows in what is given as a range. -/
theorem sameSizes_initialShapes (strategy_eq : partitioner.strategy = other.strategy)
    (total_eq : partitioner.total = other.total) :
    partitioner.initialShapes.SameSizes other.initialShapes := by
  unfold initialShapes
  rw [← strategy_eq, ← total_eq]
  cases partitioner.strategy with
  | naive => exact rfl
  | fixed size => exact rfl
  | static workers => exact ⟨rfl, rfl⟩
  | factoring workers minBatch => exact ⟨rfl, rfl, rfl, rfl, rfl⟩

/-- The tasks of a modest partitioner. -/
theorem exists_tasks (modest : partitioner.IsModest) :
    ∃ tasks, partitioner.Streams partitioner.start tasks ∧
      ∀ limit, partitioner.total ≤ limit → partitioner.createTasks limit = .ok tasks := by
  obtain ⟨tasks, stream⟩ :=
    @exists_streams partitioner partitioner.start modest.narrow (supplies_initialShapes modest)
  exact ⟨tasks, stream,
    fun limit enough => stream.tasksFrom_eq (Nat.le_trans (Nat.sub_le ..) enough)⟩

/-- All tasks of a modest partitioner share out the values of its loop. -/
theorem Streams.partition (modest : partitioner.IsModest)
    (stream : partitioner.Streams partitioner.start tasks) :
    Task.Partition tasks partitioner.space.range.first partitioner.space.range.last
      partitioner.space.range.step where
  nonempty := by
    intro task member
    obtain ⟨start, count, -, positive, covers⟩ := stream.mem_covers member
    rw [Task.isEmpty, covers.size_eq, beq_eq_false_iff_ne]
    omega
  size_eq := by
    intro task member
    obtain ⟨start, count, -, -, covers⟩ := stream.mem_covers member
    exact ⟨_, covers.values_eq, by rw [covers.size_eq, List.length_map, List.length_range']⟩
  values_eq := by
    rw [stream.values_eq, loopValues_eq_map modest.narrow.isCounted, List.range_eq_range']
    rfl

section Build

variable {kind : PartitionerKind} {var : String} {first last step : Int}
  {encoding : RangeEncoding} {space : IterationSpace} {taskSize workers : Nat}

/-- What an accepted space is. -/
theorem ofBounds_eq_ok
    (accepted : IterationSpace.ofBounds var first last step encoding = .ok space) :
    0 < step ∧ space = { var, range := { first, last, step }, encoding } := by
  unfold IterationSpace.ofBounds IterationRange.ofBounds at accepted
  cases counted : iterationCount first last step with
  | error cause => simp [counted, Except.map] at accepted
  | ok count =>
    refine ⟨?_, by simpa [counted, Except.map, eq_comm] using accepted⟩
    -- Counting refuses steps that do not move forward.
    by_contra backward
    rw [iterationCount, if_pos (by omega)] at counted
    simp at counted

/-- What a partitioner that was built is. -/
theorem build_eq_ok (built : build kind space taskSize workers = .ok partitioner) :
    partitioner = { space, strategy := partitioner.strategy } ∧
      (workers < 2 ^ 63 → taskSize * workers < 2 ^ 64 → partitioner.strategy.IsModest) ∧
      ∀ otherSpace, build kind otherSpace taskSize workers =
        .ok { space := otherSpace, strategy := partitioner.strategy } := by
  unfold build at *
  split at built
  next => simp at built
  next workersGiven =>
    split at built
    next => simp at built
    next sizeGiven =>
      simp only [if_neg workersGiven, if_neg sizeGiven]
      cases built
      cases kind with
      | naive => exact ⟨rfl, fun _ _ => trivial, fun _ => rfl⟩
      | fixed => exact ⟨rfl, fun _ _ => trivial, fun _ => rfl⟩
      | static =>
        have positive : 0 < workers := by
          simp only [PartitionerKind.needsWorkers, true_and] at workersGiven
          omega
        exact ⟨rfl, fun _ _ => positive, fun _ => rfl⟩
      | factoring =>
        exact ⟨rfl, fun few _ => ⟨by omega, by omega, by simp⟩, fun _ => rfl⟩
      | constrainedFactoring =>
        have positive : max workers 1 = workers := by
          simp only [PartitionerKind.needsWorkers, true_and] at workersGiven
          omega
        refine ⟨rfl, fun few product => ⟨by omega, by omega, ?_⟩, fun _ => rfl⟩
        intro least given
        cases given
        rwa [positive]

/-- What a partitioner of an accepted space with signed bounds is modest about. -/
theorem isModest_of_build (firstSigned : Word.InSigned first) (lastSigned : Word.InSigned last)
    (accepted : IterationSpace.ofBounds var first last step encoding = .ok space)
    (span : last - first ≤ Word.maxSigned)
    (built : build kind space taskSize workers = .ok partitioner)
    (few : workers < 2 ^ 63) (product : taskSize * workers < 2 ^ 64) :
    partitioner.IsModest := by
  obtain ⟨forward, rfl⟩ := ofBounds_eq_ok accepted
  obtain ⟨parts, modest, -⟩ := build_eq_ok built
  rw [parts]
  exact ⟨⟨forward, firstSigned, lastSigned, span⟩, modest few product⟩

/-- Every partitioner shares out the values of its loop exactly: creating its tasks comes to an end
and gives a partition, and another encoding gives tasks with the same values. -/
theorem createTasks_partition (firstSigned : Word.InSigned first) (lastSigned : Word.InSigned last)
    (accepted : IterationSpace.ofBounds var first last step encoding = .ok space)
    (span : last - first ≤ Word.maxSigned)
    (built : build kind space taskSize workers = .ok partitioner)
    (few : workers < 2 ^ 63) (product : taskSize * workers < 2 ^ 64) :
    ∃ tasks, Task.Partition tasks first last step ∧
      (∀ limit, partitioner.total ≤ limit → partitioner.createTasks limit = .ok tasks) ∧
      ∀ otherEncoding otherSpace other,
        IterationSpace.ofBounds var first last step otherEncoding = .ok otherSpace →
        build kind otherSpace taskSize workers = .ok other →
        ∃ otherTasks, other.createTasks other.total = .ok otherTasks ∧
          otherTasks.map Task.values = tasks.map Task.values := by
  have modest := isModest_of_build firstSigned lastSigned accepted span built few product
  obtain ⟨tasks, stream, produced⟩ := exists_tasks modest
  have shared := stream.partition modest
  obtain ⟨forward, rfl⟩ := ofBounds_eq_ok accepted
  obtain ⟨parts, -, elsewhere⟩ := build_eq_ok built
  have space_eq := congrArg Partitioner.space parts
  rw [space_eq] at shared
  refine ⟨tasks, shared, produced, ?_⟩
  intro otherEncoding otherSpace other otherAccepted otherBuilt
  -- With another encoding the partitioner has the same strategy, and shapes of the same sizes.
  have otherModest :=
    isModest_of_build firstSigned lastSigned otherAccepted span otherBuilt few product
  obtain ⟨otherTasks, otherStream, otherProduced⟩ := exists_tasks otherModest
  obtain ⟨-, rfl⟩ := ofBounds_eq_ok otherAccepted
  rw [elsewhere] at otherBuilt
  cases otherBuilt
  have range_eq : partitioner.space.range = { first, last, step } :=
    congrArg IterationSpace.range space_eq
  refine ⟨otherTasks, otherProduced _ (Nat.le_refl _), ?_⟩
  exact stream.map_values_eq otherStream range_eq rfl
    (sameSizes_initialShapes rfl (congrArg IterationRange.size range_eq))

/-- Two workers share the values 1, 4 and 7. -/
theorem partition_of_three_values :
    ∃ space partitioner, IterationSpace.ofBounds "i" 1 8 3 .disabled = .ok space ∧
      build .static space 0 2 = .ok partitioner ∧
      ∃ tasks, Task.Partition tasks 1 8 3 ∧
        partitioner.createTasks partitioner.total = .ok tasks := by
  refine ⟨_, _, rfl, rfl, ?_⟩
  obtain ⟨tasks, shared, produced, -⟩ :=
    @createTasks_partition _ .static "i" 1 8 3 .disabled _ 0 2 (by decide) (by decide) rfl
      (by decide) rfl (by decide) (by decide)
  exact ⟨tasks, shared, produced _ (Nat.le_refl _)⟩

end Build

end Partitioner

end ParallelLoop
