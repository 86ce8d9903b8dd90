/-
# Tasks that were created

The bounds of a loop may be too far apart for its values to be computed. Creating the tasks then
stops with the first of them that cannot be created. `Partitioner.createRest` is what is still to
be created from a cursor on: one task and then the others, whatever comes of them.

When all tasks are created nothing went wrong on the way. They are the stream of tasks of the
partitioner then, also for bounds and workers for which this cannot be told beforehand.
-/

import ParallelLoop.Proofs.Task.Partition

namespace ParallelLoop

namespace ShapeState

/-- The shapes last until all of `total` iterations are handed out, if they can be computed. -/
def Lasts (total handedOut : Nat) : ShapeState → Prop
  | .repeating _ | .batches .. => True
  | .perWorker workers worker =>
    0 < workers ∧ worker ≤ workers ∧
      handedOut = worker * (total / workers) + min worker (total % workers)

end ShapeState

namespace Partitioner

variable {partitioner : Partitioner} {cursor next : TaskCursor} {shape : TaskShape} {task : Task}
  {tasks : List Task} {limit : Nat}

/-! ## One task after the other -/

theorem nextTask_of_ended (ended : partitioner.total ≤ cursor.handedOut) :
    partitioner.nextTask cursor = .ok none := by
  rw [nextTask, nextCut_of_ended ended]
  rfl

/-- What a shape is cut to. -/
theorem of_nextCut (cut : partitioner.nextCut cursor = .ok (some (shape, next))) :
    0 < shape.size ∧ next.handedOut = cursor.handedOut + shape.size ∧
      next.handedOut ≤ partitioner.total := by
  unfold nextCut at cut
  split at cut
  next => cases cut
  next left =>
    obtain ⟨found, -, cut⟩ := Outcome.of_bind cut
    cases found with
    | none => cases cut
    | some pair =>
      cases cut
      dsimp only
      omega

/-- The steps of creating a task. -/
theorem of_nextTask (created : partitioner.nextTask cursor = .ok (some (task, next))) :
    ∃ shape, partitioner.nextCut cursor = .ok (some (shape, next)) ∧
      partitioner.taskAt cursor.handedOut shape = .ok task := by
  obtain ⟨found, cut, created⟩ := Outcome.of_bind created
  cases found with
  | none => cases created
  | some pair =>
    obtain ⟨own, done, returned⟩ := Outcome.of_bind created
    cases returned
    exact ⟨pair.1, cut, done⟩

/-- A task that is created hands out iterations. -/
theorem lt_of_nextTask (created : partitioner.nextTask cursor = .ok (some (task, next))) :
    cursor.handedOut < next.handedOut ∧ next.handedOut ≤ partitioner.total := by
  obtain ⟨shape, cut, -⟩ := of_nextTask created
  obtain ⟨nonempty, advance, within⟩ := of_nextCut cut
  omega

/-- Limits that are high enough make no difference. -/
theorem tasksFrom_congr {other : Nat} (enough : partitioner.total - cursor.handedOut ≤ limit)
    (alsoEnough : partitioner.total - cursor.handedOut ≤ other) :
    partitioner.tasksFrom cursor limit = partitioner.tasksFrom cursor other := by
  -- Where all is handed out nothing is created, whatever the limit.
  have stops {cursor : TaskCursor} (ended : partitioner.total ≤ cursor.handedOut) (limit : Nat) :
      partitioner.tasksFrom cursor limit = .ok [] := by
    cases limit with
    | zero => rfl
    | succ limit => rw [tasksFrom, nextTask_of_ended ended]; rfl
  induction limit generalizing cursor other with
  | zero =>
    have ended : partitioner.total ≤ cursor.handedOut := by omega
    rw [stops ended, stops ended]
  | succ limit ih =>
    cases other with
    | zero =>
      have ended : partitioner.total ≤ cursor.handedOut := by omega
      rw [stops ended, stops ended]
    | succ other =>
      rw [tasksFrom, tasksFrom]
      cases created : partitioner.nextTask cursor with
      | error cause => rfl
      | ok found =>
        cases found with
        | none => rfl
        | some pair =>
          obtain ⟨advance, -⟩ := lt_of_nextTask created
          simp only [Outcome.ok_bind]
          have same : partitioner.tasksFrom pair.2 limit = partitioner.tasksFrom pair.2 other :=
            ih (by omega) (by omega)
          rw [same]

/-- The tasks that are still to be created. -/
def createRest (partitioner : Partitioner) (cursor : TaskCursor) : Except Failure (List Task) :=
  partitioner.tasksFrom cursor (partitioner.total - cursor.handedOut)

theorem createTasks_eq (partitioner : Partitioner) :
    partitioner.createTasks partitioner.total = partitioner.createRest partitioner.start := rfl

theorem createRest_of_error {cause : Failure}
    (stopped : partitioner.nextTask cursor = .error cause) :
    partitioner.createRest cursor = .error cause := by
  by_cases ended : partitioner.total ≤ cursor.handedOut
  · rw [nextTask_of_ended ended] at stopped
    cases stopped
  · rw [createRest, tasksFrom_congr (Nat.le_refl _) (Nat.le_succ _), tasksFrom, stopped]
    rfl

theorem createRest_of_none (ended : partitioner.nextTask cursor = .ok none) :
    partitioner.createRest cursor = .ok [] := by
  rw [createRest, tasksFrom_congr (Nat.le_refl _) (Nat.le_succ _), tasksFrom, ended]
  rfl

theorem createRest_of_some (created : partitioner.nextTask cursor = .ok (some (task, next))) :
    partitioner.createRest cursor = (task :: ·) <$> partitioner.createRest next := by
  obtain ⟨advance, within⟩ := lt_of_nextTask created
  have enough : partitioner.total - next.handedOut ≤ partitioner.total - cursor.handedOut := by omega
  rw [createRest, tasksFrom_congr (Nat.le_refl _) (Nat.le_succ _), tasksFrom, created,
    createRest, tasksFrom_congr (Nat.le_refl _) enough]
  rfl

/-! ## What was created -/

section Created

variable {start : Nat} {shapes : ShapeState} {handedOut : Nat}

/-- Values that were computed one after the other. -/
theorem exists_valueAt_of_valuesFrom {range : IterationRange} {count : Nat} {values : List Int}
    (computed : range.valuesFrom start (count + 1) = .ok values) :
    ∃ value, range.valueAt (start + count) = .ok value := by
  induction count generalizing start values with
  | zero =>
    obtain ⟨value, found, -⟩ := Outcome.of_bind computed
    exact ⟨value, found⟩
  | succ count ih =>
    obtain ⟨_, -, more⟩ := Outcome.of_bind computed
    obtain ⟨others, rest, -⟩ := Outcome.of_bind more
    obtain ⟨value, found⟩ := ih rest
    exact ⟨value, by rwa [show start + (count + 1) = start + 1 + count by omega]⟩

/-- A slice looks up the value of its last iteration. -/
theorem exists_valueAt_of_slice {range slice : IterationRange} {count : Nat}
    (sliced : range.slice start count = .ok slice) :
    ∃ value, range.valueAt (start + max count 1 - 1) = .ok value := by
  obtain ⟨reach, reached, sliced⟩ := Outcome.of_bind sliced
  obtain ⟨first, -, sliced⟩ := Outcome.of_bind sliced
  obtain ⟨last, found, -⟩ := Outcome.of_bind sliced
  have reach_eq : reach = start + max count 1 := by
    unfold Word.count? at reached
    split at reached
    next => exact (Except.ok.inj reached).symm
    next => cases reached
  exact ⟨last, reach_eq ▸ found⟩

/-- The last value of a task that was created could be computed. -/
theorem exists_last_of_taskAt (nonempty : 0 < shape.size)
    (done : partitioner.taskAt start shape = .ok task) :
    ∃ value, partitioner.space.range.valueAt (start + shape.size - 1) = .ok value := by
  unfold taskAt at done
  dsimp only at done
  split at done
  next =>
    obtain ⟨iterations, given, -⟩ := Outcome.of_bind done
    obtain ⟨slice, sliced, -⟩ := Outcome.of_map given
    have most : max shape.size 1 = shape.size := by omega
    have found := exists_valueAt_of_slice sliced
    rwa [most] at found
  next =>
    -- Listed values are computed one after the other, up to the last one.
    obtain ⟨iterations, given, -⟩ := Outcome.of_bind done
    obtain ⟨values, computed, -⟩ := Outcome.of_map given
    obtain ⟨rest, size_eq⟩ : ∃ rest, shape.size = rest + 1 := ⟨shape.size - 1, by omega⟩
    rw [size_eq] at computed ⊢
    exact exists_valueAt_of_valuesFrom computed

/-- Where a range ends makes no difference to its single values. -/
theorem valuesFrom_of_last (range : IterationRange) (last : Int) (start count : Nat) :
    { range with last }.valuesFrom start count = range.valuesFrom start count := by
  induction count generalizing start with
  | zero => rfl
  | succ count ih =>
    rw [IterationRange.valuesFrom, IterationRange.valuesFrom, ih]
    rfl

theorem taskAt_of_last (partitioner : Partitioner) (last : Int) (start : Nat) (shape : TaskShape) :
    taskAt { partitioner with
      space := { partitioner.space with range := { partitioner.space.range with last } } }
      start shape = partitioner.taskAt start shape := by
  unfold taskAt
  dsimp only
  rw [valuesFrom_of_last]
  rfl

/-- A task is created if the distance to the last of its iterations is a signed word, and runs the
iterations that its shape is cut to. -/
theorem taskAt_of_near (counted : partitioner.space.range.IsCounted)
    (firstSigned : Word.InSigned partitioner.space.range.first)
    (lastSigned : Word.InSigned partitioner.space.range.last) (nonempty : 0 < shape.size)
    (within : start + shape.size ≤ partitioner.total)
    (near : (start + shape.size - 1 : Nat) * partitioner.space.range.step ≤ Word.maxSigned) :
    ∃ task, partitioner.taskAt start shape = .ok task ∧
      task.Covers partitioner.space.range start shape.size := by
  -- Up to the last value of the task the range is narrow, and the task is the same.
  let range := { partitioner.space.range with
    last := partitioner.space.range.point (start + shape.size - 1) }
  have narrow : range.IsNarrow := .of_near counted firstSigned lastSigned
    (show start + shape.size - 1 < partitioner.total by omega) near
  have whole : start + shape.size ≤ range.size := by
    have reached : start + shape.size - 1 < range.size := narrow.lt_size_of_near
    omega
  obtain ⟨task, task_eq, covers⟩ :=
    taskAt_eq { partitioner with space := { partitioner.space with range } } narrow nonempty whole
  rw [taskAt_of_last] at task_eq
  exact ⟨task, task_eq, covers.size_eq, covers.values_eq⟩

/-- A task that was created runs the iterations that its shape is cut to. -/
theorem of_taskAt (counted : partitioner.space.range.IsCounted)
    (firstSigned : Word.InSigned partitioner.space.range.first)
    (lastSigned : Word.InSigned partitioner.space.range.last) (nonempty : 0 < shape.size)
    (within : start + shape.size ≤ partitioner.total)
    (done : partitioner.taskAt start shape = .ok task) :
    task.Covers partitioner.space.range start shape.size := by
  obtain ⟨value, computed⟩ := exists_last_of_taskAt nonempty done
  obtain ⟨-, -, near⟩ := counted.of_valueAt lastSigned
    (show start + shape.size - 1 < partitioner.total by omega) computed
  obtain ⟨twin, twin_eq, covers⟩ :=
    taskAt_of_near counted firstSigned lastSigned nonempty within near
  obtain rfl := Except.ok.inj (done.symm.trans twin_eq)
  exact covers

/-- Shapes that last do not run out while iterations are left. -/
theorem of_nextShape (lasts : shapes.Lasts partitioner.total handedOut)
    (left : handedOut < partitioner.total) {found : Option (TaskShape × ShapeState)}
    (done : partitioner.nextShape shapes = .ok found) :
    ∃ shape rest, found = some (shape, rest) ∧
      rest.Lasts partitioner.total
        (handedOut + min (max shape.size 1) (partitioner.total - handedOut)) := by
  cases shapes with
  | repeating shape =>
    cases done
    exact ⟨shape, _, rfl, trivial⟩
  | perWorker workers worker =>
    -- As long as iterations are left, some worker is still to come, and has a share.
    obtain ⟨positive, within, sum⟩ := lasts
    obtain ⟨inside, share, next, reach⟩ := evenShare_spec positive within (sum ▸ left)
    rw [nextShape, if_pos ⟨inside, share⟩] at done
    cases done
    refine ⟨_, _, rfl, positive, inside, ?_⟩
    dsimp only [Partitioner.shape]
    omega
  | batches workers minBatch batch =>
    rw [nextShape] at done
    dsimp only at done
    split at done
    · obtain ⟨_, -, returned⟩ := Outcome.of_bind done
      cases returned
      exact ⟨_, _, rfl, trivial⟩
    · cases done
      exact ⟨_, _, rfl, trivial⟩

theorem of_nextCut_of_lasts (lasts : cursor.shapes.Lasts partitioner.total cursor.handedOut)
    (left : cursor.handedOut < partitioner.total) {found : Option (TaskShape × TaskCursor)}
    (cut : partitioner.nextCut cursor = .ok found) :
    ∃ shape next, found = some (shape, next) ∧
      next.shapes.Lasts partitioner.total next.handedOut := by
  rw [nextCut, if_neg (by omega)] at cut
  obtain ⟨shaped, done, returned⟩ := Outcome.of_bind cut
  obtain ⟨shape, rest, rfl, supplied⟩ := of_nextShape lasts left done
  cases returned
  exact ⟨_, _, rfl, supplied⟩

/-- What is created from a cursor on is its stream of tasks. -/
theorem streams_of_createRest (counted : partitioner.space.range.IsCounted)
    (firstSigned : Word.InSigned partitioner.space.range.first)
    (lastSigned : Word.InSigned partitioner.space.range.last)
    (lasts : cursor.shapes.Lasts partitioner.total cursor.handedOut)
    (done : partitioner.createRest cursor = .ok tasks) : partitioner.Streams cursor tasks := by
  -- Every task hands out at least one iteration, so there are fewer left.
  induction left : partitioner.total - cursor.handedOut using Nat.strong_induction_on
    generalizing cursor tasks with
  | _ left ih =>
    by_cases ended : partitioner.total ≤ cursor.handedOut
    · rw [createRest_of_none (nextTask_of_ended ended)] at done
      cases done
      exact .done ended
    obtain ⟨found, created⟩ : ∃ found, partitioner.nextTask cursor = .ok found := by
      cases created : partitioner.nextTask cursor with
      | error cause =>
        rw [createRest_of_error created] at done
        cases done
      | ok found => exact ⟨found, rfl⟩
    obtain ⟨shaped, cut, -⟩ := Outcome.of_bind created
    obtain ⟨shape, next, rfl, supplied⟩ := of_nextCut_of_lasts lasts (by omega) cut
    obtain ⟨nonempty, advance, within⟩ := of_nextCut cut
    cases found with
    | none =>
      -- There is a shape, so there is a task.
      rw [nextTask, cut, Outcome.ok_bind] at created
      obtain ⟨_, -, returned⟩ := Outcome.of_bind created
      cases returned
    | some pair =>
      obtain ⟨task, rest⟩ := pair
      obtain ⟨own, own_eq, made⟩ := of_nextTask created
      obtain ⟨rfl, rfl⟩ : own = shape ∧ rest = next := by
        have same := Except.ok.inj (own_eq.symm.trans cut)
        exact Prod.mk.inj (Option.some.inj same)
      have covers := of_taskAt counted firstSigned lastSigned nonempty (by omega) made
      rw [createRest_of_some created] at done
      obtain ⟨others, others_eq, rfl⟩ := Outcome.of_map done
      exact .step cut made covers nonempty advance within
        (ih _ (by omega) supplied others_eq rfl)

end Created

/-! ## All tasks -/

/-- What a partitioner is built with: a loop whose iterations can be counted, between signed
bounds, and workers if it divides the loop among them. -/
structure IsProper (partitioner : Partitioner) : Prop where
  counted : partitioner.space.range.IsCounted
  firstSigned : Word.InSigned partitioner.space.range.first
  lastSigned : Word.InSigned partitioner.space.range.last
  manned : partitioner.strategy.workers? ≠ some 0

theorem lasts_initialShapes (manned : partitioner.strategy.workers? ≠ some 0) :
    partitioner.initialShapes.Lasts partitioner.total 0 := by
  unfold initialShapes
  cases chosen : partitioner.strategy with
  | naive | fixed _ | factoring _ _ => trivial
  | static workers =>
    rw [chosen] at manned
    exact ⟨Nat.pos_of_ne_zero fun none => manned (congrArg some none), Nat.zero_le _, by simp⟩

/-- The tasks that are created are those that the partitioner streams. -/
theorem IsProper.streams (proper : partitioner.IsProper)
    (created : partitioner.createTasks partitioner.total = .ok tasks) :
    partitioner.Streams partitioner.start tasks :=
  streams_of_createRest proper.counted proper.firstSigned proper.lastSigned
    (lasts_initialShapes proper.manned) created

section Build

variable {var : String} {first last step : Int} {encoding : RangeEncoding} {space : IterationSpace}

theorem isCounted_of_ofBounds
    (accepted : IterationSpace.ofBounds var first last step encoding = .ok space) :
    space.range.IsCounted := by
  obtain ⟨forward, rfl⟩ := ofBounds_eq_ok accepted
  refine ⟨forward, ?_⟩
  dsimp only
  cases counted : iterationCount first last step with
  | ok count => exact ⟨count, rfl⟩
  | error cause =>
    simp [IterationSpace.ofBounds, IterationRange.ofBounds, counted, Except.map] at accepted

theorem isProper_factoring {workers : Nat} {minBatch : Option Nat} (counted : space.range.IsCounted)
    (firstSigned : Word.InSigned space.range.first) (lastSigned : Word.InSigned space.range.last) :
    (factoring space workers minBatch).IsProper :=
  ⟨counted, firstSigned, lastSigned, by simp [factoring, Strategy.workers?]⟩

theorem isProper_of_build {kind : PartitionerKind} {taskSize workers : Nat}
    (firstSigned : Word.InSigned first) (lastSigned : Word.InSigned last)
    (accepted : IterationSpace.ofBounds var first last step encoding = .ok space)
    (built : build kind space taskSize workers = .ok partitioner) : partitioner.IsProper := by
  have counted := isCounted_of_ofBounds accepted
  obtain ⟨-, rfl⟩ := ofBounds_eq_ok accepted
  unfold build at built
  split at built
  next => cases built
  next workersGiven =>
    split at built
    next => cases built
    next =>
      cases built
      cases kind with
      | naive | fixed => exact ⟨counted, firstSigned, lastSigned, nofun⟩
      | static =>
        refine ⟨counted, firstSigned, lastSigned, ?_⟩
        simpa [PartitionerKind.needsWorkers, Strategy.workers?] using workersGiven
      | factoring | constrainedFactoring => exact isProper_factoring counted firstSigned lastSigned

end Build

end Partitioner

end ParallelLoop
