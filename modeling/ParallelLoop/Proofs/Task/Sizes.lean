/-
# Sizes of tasks

Three strategies propose their task sizes without looking at what was handed out before. A naive
partitioner lists the iterations one by one, a fixed one cuts them into tasks of one size and leaves
the rest to the last task, and a static one divides them among the workers, so that the first ones
get an iteration more if they cannot be divided evenly.

Shapes are proposed in one place and cut to what is left in another. `Streams.of_shape` takes both
steps together, and `Streams.of_repeating` and `Streams.of_perWorker` follow them along a stream of
tasks. No shape of a static partitioner is ever cut, because the shares of the workers up to any one
of them add up to no more than all iterations.
-/

import ParallelLoop.Proofs.Task.Factoring

namespace ParallelLoop

/-! ## Quotients -/

section Quotient

variable {total size index workers worker : Nat}

theorem lt_ceilDiv_iff (positive : 0 < size) : index < total ⌈/⌉ size ↔ index * size < total := by
  rw [← Nat.not_le, ceilDiv_le_iff_le_mul positive, Nat.not_le, Nat.mul_comm]

/-- One part is taken off, and the others are left. -/
theorem ceilDiv_eq_succ (positive : 0 < size) (some : 0 < total) :
    total ⌈/⌉ size = (total - size) ⌈/⌉ size + 1 := by
  refine eq_of_forall_lt_iff fun index => ?_
  cases index with
  | zero => rw [lt_ceilDiv_iff positive]; omega
  | succ index =>
    rw [Nat.succ_lt_succ_iff, lt_ceilDiv_iff positive, lt_ceilDiv_iff positive, Nat.succ_mul]
    omega

/-- As long as a worker and an iteration are left, the shares of the workers so far are not all. -/
theorem sum_shares_lt (positive : 0 < workers) (left : worker < min total workers) :
    worker * (total / workers) + min worker (total % workers) < total := by
  have division := Nat.div_add_mod total workers
  by_cases few : total < workers
  · rw [Nat.div_eq_of_lt few, Nat.mod_eq_of_lt few]
    omega
  · have base : 0 < total / workers := Nat.div_pos (Nat.not_lt.mp few) positive
    have shares := Nat.mul_lt_mul_of_pos_right (show worker < workers by omega) base
    omega

/-- When no worker or no iteration is left, the shares of the workers are all. -/
theorem sum_shares_min (positive : 0 < workers) (total : Nat) :
    min total workers * (total / workers) + min (min total workers) (total % workers) = total := by
  have division := Nat.div_add_mod total workers
  have remainder := Nat.mod_lt total positive
  by_cases few : total < workers
  · rw [Nat.div_eq_of_lt few, Nat.mod_eq_of_lt few]
    omega
  · rw [Nat.min_eq_right (Nat.not_lt.mp few)]
    omega

end Quotient

/-! ## Lists of tasks by their sizes -/

namespace Task

/-- Every task lists one value, and there is one for every iteration. -/
structure ListsSingly (tasks : List Task) (total : Nat) : Prop where
  length_eq : tasks.length = total
  single : ∀ task ∈ tasks, ∃ value, task.iterations = .listed [value]

/-- The iterations are cut into tasks of this size, and the last task has what is left. -/
structure CutsToSize (tasks : List Task) (total size : Nat) : Prop where
  length_eq : tasks.length = total ⌈/⌉ size
  full : ∀ task ∈ tasks.dropLast, task.size = size
  last : ∀ task ∈ tasks.getLast?, 0 < task.size ∧ task.size ≤ size
  sum_eq : (tasks.map Task.size).sum = total

/-- The iterations are divided among the workers. Nobody gets a task without iterations, the first
workers get one iteration more if there is a remainder, and no task is larger than one before it or
smaller by more than one iteration. -/
structure DividesEvenly (tasks : List Task) (total workers : Nat) : Prop where
  length_eq : tasks.length = min total workers
  size_eq : ∀ index task, tasks[index]? = some task →
    task.size = total / workers + if index < total % workers then 1 else 0
  pairwise_size : tasks.Pairwise fun earlier later =>
    later.size ≤ earlier.size ∧ earlier.size ≤ later.size + 1

variable {tasks : List Task} {task : Task} {total size workers : Nat}

/-- A task that lists one value. -/
theorem HasShape.single (shaped : task.HasShape { size := 1, ranged := false }) :
    ∃ value, task.iterations = .listed [value] := by
  obtain ⟨size_eq, typeName_eq⟩ := shaped
  obtain ⟨var, iterations⟩ := task
  cases iterations with
  | listed values =>
    obtain ⟨value, rfl⟩ := List.length_eq_one_iff.mp size_eq
    exact ⟨value, rfl⟩
  | ranged range => simp [typeName] at typeName_eq

/-- Sizes that are found from the place of a task are those of evenly divided iterations. -/
theorem DividesEvenly.of_sizes (length_eq : tasks.length = min total workers)
    (size_eq : ∀ index task, tasks[index]? = some task →
      task.size = total / workers + if index < total % workers then 1 else 0) :
    DividesEvenly tasks total workers where
  length_eq
  size_eq
  pairwise_size := by
    refine List.pairwise_iff_getElem.mpr fun earlier later before after order => ?_
    rw [size_eq later _ (List.getElem?_eq_getElem after),
      size_eq earlier _ (List.getElem?_eq_getElem before)]
    split <;> split <;> omega

/-- Sizes that are cut to what the tasks before have left are those of iterations that are cut to
one size. -/
theorem CutsToSize.of_sizes (positive : 0 < size) (length_eq : tasks.length = total ⌈/⌉ size)
    (size_eq : ∀ index task, tasks[index]? = some task →
      task.size = min size (total - index * size))
    (sum_eq : (tasks.map Task.size).sum = total) : CutsToSize tasks total size where
  length_eq
  sum_eq
  full := by
    intro task member
    obtain ⟨index, inside, rfl⟩ := List.mem_iff_getElem.mp member
    rw [List.length_dropLast] at inside
    rw [List.getElem_dropLast, size_eq index _ (List.getElem?_eq_getElem (by omega))]
    -- Another task follows, so more than one size is left.
    have more := (lt_ceilDiv_iff positive).mp (show index + 1 < total ⌈/⌉ size by omega)
    rw [Nat.succ_mul] at more
    omega
  last := by
    intro task final
    rw [List.getLast?_eq_getElem?] at final
    have inside : tasks.length - 1 < total ⌈/⌉ size := by
      rw [← length_eq]
      exact (List.getElem?_eq_some_iff.mp final).1
    have some := (lt_ceilDiv_iff positive).mp inside
    rw [size_eq _ _ final]
    omega

end Task

/-! ## Streams of tasks -/

namespace Partitioner

variable {partitioner : Partitioner} {cursor : TaskCursor} {shape : TaskShape} {rest : ShapeState}
  {tasks : List Task} {workers worker : Nat}

/-- What a partitioner yields: all the tasks that it creates, none of them empty. -/
structure Yields (partitioner : Partitioner) (tasks : List Task) : Prop where
  nonempty : ∀ task ∈ tasks, task.isEmpty = false
  tasks_eq : ∀ limit, partitioner.total ≤ limit → partitioner.createTasks limit = .ok tasks

theorem exists_yields (modest : partitioner.IsModest) :
    ∃ tasks, partitioner.Streams partitioner.start tasks ∧ partitioner.Yields tasks := by
  obtain ⟨tasks, stream, produced⟩ := exists_tasks modest
  exact ⟨tasks, stream, (stream.partition modest).nonempty, produced⟩

namespace Streams

theorem ended_of_nil (stream : partitioner.Streams cursor []) :
    partitioner.total ≤ cursor.handedOut := by
  cases stream with
  | done ended => exact ended

theorem lt_total_of_cons {task : Task} (stream : partitioner.Streams cursor (task :: tasks)) :
    cursor.handedOut < partitioner.total := by
  cases stream with
  | step cut created covers nonempty advance within others => omega

/-- The first task has the shape that is proposed, cut to what is left, and the others follow. -/
theorem of_shape {task : Task} (stream : partitioner.Streams cursor (task :: tasks))
    (found : partitioner.nextShape cursor.shapes = .ok (some (shape, rest)))
    (positive : 0 < shape.size) :
    task.HasShape { shape with size := min shape.size (partitioner.total - cursor.handedOut) } ∧
      ∃ next, partitioner.Streams next tasks ∧ next.shapes = rest ∧ next.handedOut =
        cursor.handedOut + min shape.size (partitioner.total - cursor.handedOut) := by
  have some := stream.lt_total_of_cons
  cases stream with
  | @step _ next own _ _ cut created covers nonempty advance within others =>
    have shaped := hasShape_of_taskAt created covers
    rw [nextCut, if_neg (Nat.not_le.mpr some), found] at cut
    obtain ⟨rfl, rfl⟩ := Prod.mk.inj (Option.some.inj (Except.ok.inj cut))
    have least : max shape.size 1 = shape.size := Nat.max_eq_left positive
    rw [least] at shaped others
    exact ⟨shaped, _, others, rfl, rfl⟩

/-- From a shape that is proposed again and again come tasks of its size, cut to what is left. -/
theorem of_repeating (stream : partitioner.Streams cursor tasks)
    (shapes_eq : cursor.shapes = .repeating shape) (positive : 0 < shape.size) :
    tasks.length = (partitioner.total - cursor.handedOut) ⌈/⌉ shape.size ∧
      ∀ index (task : Task), tasks[index]? = some task → task.HasShape { shape with
        size := min shape.size (partitioner.total - cursor.handedOut - index * shape.size) } := by
  induction tasks generalizing cursor with
  | nil =>
    have ended := stream.ended_of_nil
    rw [Nat.sub_eq_zero_of_le ended, zero_ceilDiv]
    exact ⟨rfl, by simp⟩
  | cons task tasks ih =>
    have found : partitioner.nextShape cursor.shapes = .ok (some (shape, .repeating shape)) := by
      rw [shapes_eq]
      rfl
    obtain ⟨shaped, next, others, next_eq, advance⟩ := stream.of_shape found positive
    obtain ⟨length_eq, later⟩ := ih others next_eq
    have some := stream.lt_total_of_cons
    -- The other tasks come from a cursor that has handed out the iterations of the first one.
    have left_eq : partitioner.total - next.handedOut =
        partitioner.total - cursor.handedOut - shape.size := by omega
    rw [left_eq] at length_eq later
    refine ⟨?_, fun index other here => ?_⟩
    · rw [List.length_cons, length_eq]
      exact (ceilDiv_eq_succ positive (by omega)).symm
    · cases index with
      | zero =>
        cases here
        simpa using shaped
      | succ index =>
        have shape_eq := later index other here
        rwa [Nat.sub_sub, Nat.add_comm shape.size, ← Nat.succ_mul] at shape_eq

/-- From a worker on every worker has a task with its share, as long as there are iterations. -/
theorem of_perWorker (stream : partitioner.Streams cursor tasks)
    (shapes_eq : cursor.shapes = .perWorker workers worker) (positive : 0 < workers)
    (within : worker ≤ min partitioner.total workers)
    (sum : cursor.handedOut = worker * (partitioner.total / workers) +
      min worker (partitioner.total % workers)) :
    worker + tasks.length = min partitioner.total workers ∧
      ∀ index task, tasks[index]? = some task →
        task.size = evenShare partitioner.total workers (worker + index) := by
  induction tasks generalizing cursor worker with
  | nil =>
    have ended := stream.ended_of_nil
    rw [sum] at ended
    have last := mt (sum_shares_lt positive) (Nat.not_lt.mpr ended)
    exact ⟨by rw [List.length_nil]; omega, by simp⟩
  | cons task tasks ih =>
    -- Something is left, so there is a worker, and its share is part of what is left.
    have some := stream.lt_total_of_cons
    have inside : worker < min partitioner.total workers := by
      refine Nat.lt_of_le_of_ne within fun all => ?_
      rw [sum, all, sum_shares_min positive] at some
      exact Nat.lt_irrefl _ some
    obtain ⟨manned, share, next_sum, reach⟩ :=
      evenShare_spec positive (show worker ≤ workers by omega) (sum ▸ some)
    have found : partitioner.nextShape cursor.shapes = .ok (Option.some
        (partitioner.shape (evenShare partitioner.total workers worker),
          .perWorker workers (worker + 1))) := by
      rw [shapes_eq]
      exact if_pos ⟨manned, share⟩
    obtain ⟨shaped, next, others, next_eq, advance⟩ := stream.of_shape found share
    have uncut : min (evenShare partitioner.total workers worker)
        (partitioner.total - cursor.handedOut) = evenShare partitioner.total workers worker := by
      omega
    have size_eq := shaped.size_eq
    dsimp only [Partitioner.shape] at size_eq advance
    rw [uncut] at size_eq advance
    obtain ⟨length_eq, later⟩ := ih others next_eq inside (by omega)
    refine ⟨by rw [List.length_cons]; omega, fun index other here => ?_⟩
    cases index with
    | zero =>
      cases here
      exact size_eq
    | succ index =>
      rw [Nat.add_succ, ← Nat.succ_add]
      exact later index other here

end Streams

/-! ## Partitioners that can be built -/

section Build

variable {var : String} {first last step : Int} {encoding : RangeEncoding} {space : IterationSpace}
  {size : Nat}

/-- A partitioner for a loop between bounds that are a signed word apart. -/
theorem isModest_of_span (firstSigned : Word.InSigned first) (lastSigned : Word.InSigned last)
    (accepted : IterationSpace.ofBounds var first last step encoding = .ok space)
    (span : last - first ≤ Word.maxSigned) {strategy : Strategy} (modest : strategy.IsModest) :
    IsModest { space, strategy } := by
  obtain ⟨forward, rfl⟩ := ofBounds_eq_ok accepted
  exact ⟨⟨forward, firstSigned, lastSigned, span⟩, modest⟩

theorem listsSingly (stream : partitioner.Streams partitioner.start tasks)
    (strategy_eq : partitioner.strategy = .naive) : Task.ListsSingly tasks partitioner.total := by
  have shapes_eq : partitioner.start.shapes = .repeating { size := 1, ranged := false } := by
    rw [start, initialShapes, strategy_eq]
  obtain ⟨length_eq, shaped⟩ := stream.of_repeating shapes_eq Nat.one_pos
  rw [show partitioner.start.handedOut = 0 from rfl, Nat.sub_zero] at length_eq shaped
  refine ⟨length_eq.trans (ceilDiv_one _), fun task member => ?_⟩
  obtain ⟨index, here⟩ := List.mem_iff_getElem?.mp member
  have own := shaped index task here
  -- A task that exists has an iteration, so its shape is cut to one and not to none.
  have inside := (List.getElem?_eq_some_iff.mp here).1
  rw [length_eq, lt_ceilDiv_iff Nat.one_pos] at inside
  dsimp only at inside own
  rw [show min 1 (partitioner.total - index * 1) = 1 by omega] at own
  exact own.single

theorem cutsToSize (stream : partitioner.Streams partitioner.start tasks)
    (strategy_eq : partitioner.strategy = .fixed size) (positive : 0 < size) :
    Task.CutsToSize tasks partitioner.total size := by
  have shapes_eq : partitioner.start.shapes = .repeating (partitioner.shape size) := by
    rw [start, initialShapes, strategy_eq]
  obtain ⟨length_eq, shaped⟩ := stream.of_repeating shapes_eq positive
  exact .of_sizes positive length_eq (fun index task here => (shaped index task here).size_eq)
    stream.sum_sizes

theorem dividesEvenly (stream : partitioner.Streams partitioner.start tasks)
    (strategy_eq : partitioner.strategy = .static workers) (positive : 0 < workers) :
    Task.DividesEvenly tasks partitioner.total workers := by
  have shapes_eq : partitioner.start.shapes = .perWorker workers 0 := by
    rw [start, initialShapes, strategy_eq]
  have sum : partitioner.start.handedOut = 0 * (partitioner.total / workers) +
      min 0 (partitioner.total % workers) := by
    rw [Nat.zero_mul, Nat.zero_min]
    rfl
  obtain ⟨length_eq, shared⟩ := stream.of_perWorker shapes_eq positive (Nat.zero_le _) sum
  rw [Nat.zero_add] at length_eq
  refine .of_sizes length_eq fun index task here => ?_
  rw [shared index task here, Nat.zero_add]
  rfl

/-- A static partitioner divides the iterations evenly among its workers, a fixed one cuts them to
its size, and a naive one lists them one by one. All of them can be built for every loop between
bounds that are a signed word apart, and none of their tasks is empty. -/
theorem tasks_have_sizes (firstSigned : Word.InSigned first) (lastSigned : Word.InSigned last)
    (accepted : IterationSpace.ofBounds var first last step encoding = .ok space)
    (span : last - first ≤ Word.maxSigned) (taskSize workers : Nat) :
    (0 < workers → ∃ partitioner tasks, build .static space taskSize workers = .ok partitioner ∧
      partitioner.Yields tasks ∧ Task.DividesEvenly tasks space.range.size workers) ∧
    (0 < taskSize → ∃ partitioner tasks, build .fixed space taskSize workers = .ok partitioner ∧
      partitioner.Yields tasks ∧ Task.CutsToSize tasks space.range.size taskSize) ∧
    ∃ partitioner tasks, build .naive space taskSize workers = .ok partitioner ∧
      partitioner.Yields tasks ∧ Task.ListsSingly tasks space.range.size := by
  have yields (strategy : Strategy) (modest : strategy.IsModest) :=
    exists_yields (isModest_of_span firstSigned lastSigned accepted span modest)
  refine ⟨fun positive => ?_, fun positive => ?_, ?_⟩
  · obtain ⟨tasks, stream, yielded⟩ := yields (.static workers) positive
    refine ⟨_, tasks, ?_, yielded, dividesEvenly stream rfl positive⟩
    simp [build, PartitionerKind.needsWorkers, PartitionerKind.needsSize, Nat.ne_of_gt positive]
  · obtain ⟨tasks, stream, yielded⟩ := yields (.fixed taskSize) trivial
    refine ⟨_, tasks, ?_, yielded, cutsToSize stream rfl positive⟩
    simp [build, PartitionerKind.needsWorkers, PartitionerKind.needsSize, Nat.ne_of_gt positive]
  · obtain ⟨tasks, stream, yielded⟩ := yields .naive trivial
    exact ⟨_, tasks, rfl, yielded, listsSingly stream rfl⟩

/-- Four workers share one hundred and one iterations, and one of them gets one more. -/
theorem tasks_have_sizes_hundredOne :
    IterationSpace.ofBounds "i" 1 101 1 .disabled = .ok hundredOne ∧
      ∃ partitioner tasks, build .static hundredOne 0 4 = .ok partitioner ∧
        partitioner.createTasks 101 = .ok tasks ∧ Task.DividesEvenly tasks 101 4 ∧
        tasks.map Task.size = [26, 25, 25, 25] := by
  have accepted : IterationSpace.ofBounds "i" 1 101 1 .disabled = .ok hundredOne := rfl
  obtain ⟨static, -, -⟩ := tasks_have_sizes (by decide) (by decide) accepted (by decide) 0 4
  obtain ⟨partitioner, tasks, built, yielded, divided⟩ := static (by decide)
  have produced := yielded.tasks_eq 101 (by cases built; decide)
  have sizes : List.map Task.size <$> partitioner.createTasks 101 = .ok [26, 25, 25, 25] := by
    cases built
    decide +kernel
  rw [produced] at sizes
  exact ⟨accepted, partitioner, tasks, built, produced, divided, Except.ok.inj sizes⟩

end Build

end Partitioner

end ParallelLoop
