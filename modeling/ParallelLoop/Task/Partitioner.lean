/-
# Task partitioners

A partitioner cuts an iteration space into consecutive tasks. Its strategy only
proposes shapes: how many iterations the next task should have, and whether its
values are given as a range. The tasks follow the shapes until every iteration is
handed out; the last one takes what is left.

Shapes and tasks are produced one at a time, because a space may have more
iterations than a list could hold. How much memory the values of a task would take is
not counted.

## Factoring

Factoring hands out batches of as many tasks as there are workers, and each batch
covers about half of the remaining iterations, so that late, small tasks even out
the differences between early, large ones.
-/

import ParallelLoop.Task.Basic

namespace ParallelLoop

/-- When the values of a task are given as a range. -/
structure RangeEncoding where
  enabled : Bool
  /-- Only tasks with more iterations than this are given as a range. -/
  minSize : Nat
  deriving DecidableEq, Repr

namespace RangeEncoding

/-- The encoding that lists all values. -/
def disabled : RangeEncoding := { enabled := false, minSize := 0 }

/-- A task of this size is given as a range. -/
def applies (encoding : RangeEncoding) (size : Nat) : Bool :=
  encoding.enabled && decide (encoding.minSize < size)

end RangeEncoding

/-- The iterations of a loop, to be cut into tasks. -/
structure IterationSpace where
  /-- The iteration variable. -/
  var : String
  range : IterationRange
  encoding : RangeEncoding
  deriving DecidableEq, Repr

/-- The space of a loop, if its iterations can be counted. -/
def IterationSpace.ofBounds (var : String) (first last step : Int) (encoding : RangeEncoding) :
    Except Error IterationSpace :=
  (IterationRange.ofBounds first last step).map fun range => { var, range, encoding }

/-- The kind that a text names. -/
def PartitionerKind.ofText (text : String) : Except Error PartitionerKind :=
  let name := spelled text
  match ofName? name with
  | some kind => .ok kind
  | none => .error (.unknownPartitioner name)

/-- How a partitioner proposes task sizes. -/
inductive Strategy
  /-- One iteration per task. -/
  | naive
  /-- Tasks of one size. -/
  | fixed (size : Nat)
  /-- One task per worker, with sizes that differ by at most one. -/
  | static (workers : Nat)
  /-- Batches of shrinking tasks, with a lower limit on the task size if there is one. -/
  | factoring (workers : Nat) (minBatch : Option Nat)
  deriving DecidableEq, Repr

/-- The kind of a strategy. -/
def Strategy.kind : Strategy → PartitionerKind
  | naive => .naive
  | fixed _ => .fixed
  | static _ => .static
  | factoring _ none => .factoring
  | factoring _ (some _) => .constrainedFactoring

/-- The number of workers that a strategy divides work among. -/
def Strategy.workers? : Strategy → Option Nat
  | naive | fixed _ => none
  | static workers | factoring workers _ => some workers

/-- A strategy for a space. -/
structure Partitioner where
  space : IterationSpace
  strategy : Strategy
  deriving DecidableEq, Repr

/-- The proposed size of a task, and whether it is given as a range. -/
structure TaskShape where
  size : Nat
  ranged : Bool
  deriving DecidableEq, Repr

/-- A batch of a factoring schedule. -/
structure Batch where
  /-- Number of tasks of the batch still to come. -/
  left : Nat
  /-- The shape of every task of the batch. -/
  shape : TaskShape
  /-- Number of iterations left after the batch, as the schedule counts them. -/
  remaining : Int
  deriving DecidableEq, Repr

/-- How far the shapes of a strategy have come. -/
inductive ShapeState
  /-- The same shape again and again. -/
  | repeating (shape : TaskShape)
  /-- One shape for each of the workers from this one on. -/
  | perWorker (workers worker : Nat)
  /-- In a batch of a factoring schedule. -/
  | batches (workers : Nat) (minBatch : Option Nat) (batch : Batch)
  deriving DecidableEq, Repr

/-- How far the tasks of a partitioner have come. -/
structure TaskCursor where
  shapes : ShapeState
  /-- Number of iterations handed out. -/
  handedOut : Nat
  deriving DecidableEq, Repr

/-- Each batch of a factoring schedule covers one part in `batchShare` of what is left. -/
def batchShare : Nat := 2

/-- The task size of the next batch for `workers` workers when `remaining` iterations are
left. -/
def nextBatchSize (remaining : Int) (workers : Nat) (minBatch : Option Nat) :
    Except Failure Nat := do
  let size ←
    if remaining ≤ 0 then pure 1
    else do
      -- The part of the batch, divided among the workers and rounded up.
      let shares ← orOverflow (Word.count? (batchShare * workers))
      pure (max ((remaining.toNat + shares - 1) / shares) 1)
  return match minBatch with
    | some least => max size least
    | none => size

namespace Partitioner

/-- The kind of the strategy. -/
def kind (partitioner : Partitioner) : PartitionerKind := partitioner.strategy.kind

/-- Number of iterations to be handed out. -/
def total (partitioner : Partitioner) : Nat := partitioner.space.range.size

/-- The factoring partitioner for these workers, at least one. -/
def factoring (space : IterationSpace) (workers : Nat) (minBatch : Option Nat) : Partitioner :=
  { space, strategy := .factoring (max workers 1) minBatch }

/-- The partitioner of a kind. The task size is that of all tasks for the fixed kind and the
least one for constrained factoring. -/
def build (kind : PartitionerKind) (space : IterationSpace) (taskSize workers : Nat) :
    Except Error Partitioner :=
  if kind.needsWorkers ∧ workers = 0 then .error (.workersRequired kind)
  else if kind.needsSize ∧ taskSize = 0 then .error (.taskSizeRequired kind)
  else .ok <| match kind with
    | .naive => { space, strategy := .naive }
    | .fixed => { space, strategy := .fixed taskSize }
    | .static => { space, strategy := .static workers }
    | .factoring => factoring space workers none
    | .constrainedFactoring => factoring space workers (some taskSize)

/-- The shape of a task of this size. -/
def shape (partitioner : Partitioner) (size : Nat) : TaskShape :=
  { size, ranged := partitioner.space.encoding.applies size }

/-- Before the first shape. -/
def initialShapes (partitioner : Partitioner) : ShapeState :=
  match partitioner.strategy with
  | .naive => .repeating { size := 1, ranged := false }
  | .fixed size => .repeating (partitioner.shape size)
  | .static workers => .perWorker workers 0
  | .factoring workers minBatch =>
    .batches workers minBatch
      { left := 0, shape := { size := 0, ranged := false }
        remaining := Word.reinterpret partitioner.total }

/-- The share of a worker when `total` iterations are divided evenly. -/
def evenShare (total workers worker : Nat) : Nat :=
  total / workers + if worker < total % workers then 1 else 0

/-- The batch that starts when `remaining` iterations are left. -/
def startBatch (partitioner : Partitioner) (workers : Nat) (minBatch : Option Nat)
    (remaining : Int) : Except Failure Batch := do
  let size ← nextBatchSize remaining workers minBatch
  let covered ← orOverflow (Word.count? (size * workers))
  return {
    left := workers
    shape := partitioner.shape size
    remaining := Word.clamp (remaining - Word.reinterpret covered)
  }

/-- The next shape, and how far the shapes have come with it. -/
def nextShape (partitioner : Partitioner) :
    ShapeState → Except Failure (Option (TaskShape × ShapeState))
  | .repeating shape => .ok (some (shape, .repeating shape))
  | .perWorker workers worker =>
    let size := evenShare partitioner.total workers worker
    if worker < workers ∧ 0 < size then
      .ok (some (partitioner.shape size, .perWorker workers (worker + 1)))
    else .ok none
  | .batches workers minBatch batch => do
    let batch ←
      if batch.left = 0 then partitioner.startBatch workers minBatch batch.remaining
      else pure batch
    let rest := { batch with left := batch.left - 1 }
    return some (batch.shape, .batches workers minBatch rest)

/-- The next `limit` shapes, or as many as there are. -/
def shapesFrom (partitioner : Partitioner) (state : ShapeState) :
    Nat → Except Failure (List TaskShape)
  | 0 => .ok []
  | limit + 1 => do
    match ← partitioner.nextShape state with
    | none => return []
    | some (shape, rest) => return shape :: (← partitioner.shapesFrom rest limit)

/-- The first `limit` shapes, or as many as there are. -/
def shapesUpTo (partitioner : Partitioner) (limit : Nat) : Except Failure (List TaskShape) :=
  partitioner.shapesFrom partitioner.initialShapes limit

/-- Before the first task. -/
def start (partitioner : Partitioner) : TaskCursor :=
  { shapes := partitioner.initialShapes, handedOut := 0 }

/-- The shape of the next task, cut to the iterations that are left, and how far the tasks have
come with it. -/
def nextCut (partitioner : Partitioner) (cursor : TaskCursor) :
    Except Failure (Option (TaskShape × TaskCursor)) := do
  if partitioner.total ≤ cursor.handedOut then return none
  let some (shape, shapes) ← partitioner.nextShape cursor.shapes | return none
  -- No task is empty, and the last one takes what is left.
  let size := min (max shape.size 1) (partitioner.total - cursor.handedOut)
  return some ({ shape with size }, { shapes, handedOut := cursor.handedOut + size })

/-- The task of this shape whose iterations follow the first `start` ones. -/
def taskAt (partitioner : Partitioner) (start : Nat) (shape : TaskShape) :
    Except Failure Task := do
  let range := partitioner.space.range
  let iterations ←
    if shape.ranged then Iterations.ranged <$> range.slice start shape.size
    else Iterations.listed <$> range.valuesFrom start shape.size
  return { var := partitioner.space.var, iterations }

/-- The next task, and how far the tasks have come with it. -/
def nextTask (partitioner : Partitioner) (cursor : TaskCursor) :
    Except Failure (Option (Task × TaskCursor)) := do
  let some (shape, rest) ← partitioner.nextCut cursor | return none
  return some (← partitioner.taskAt cursor.handedOut shape, rest)

/-- The next `limit` tasks, or as many as there are. -/
def tasksFrom (partitioner : Partitioner) (cursor : TaskCursor) :
    Nat → Except Failure (List Task)
  | 0 => .ok []
  | limit + 1 => do
    match ← partitioner.nextTask cursor with
    | none => return []
    | some (task, rest) => return task :: (← partitioner.tasksFrom rest limit)

/-- The first `limit` tasks, or as many as there are. Every task has an iteration of its own, so
there are no more tasks than iterations. -/
def createTasks (partitioner : Partitioner) (limit : Nat) : Except Failure (List Task) :=
  partitioner.tasksFrom partitioner.start limit

end Partitioner

end ParallelLoop
