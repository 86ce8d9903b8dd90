/-
# Where a loop runs

A loop runs as distributed tasks when that pays: when memory keeps the local machine
from using its parallelism, or when the loop is large and the cluster has more
parallelism than the machine. It has to run in the local process when an operator in
it is a distributed job, or when its footprint is too large for a remote task.

A remote loop may be split further into one chunk per cluster node, each chunk being
a local parallel loop inside its task.
-/

import ParallelLoop.Optimizer.Context

namespace ParallelLoop.PlanningRule

variable {α : Type} [Quantity α]

/-- Memory allows fewer local workers than there are, than there are iterations and than the
cluster has. -/
def memoryBound (context : PassContext α) : Bool :=
  let workers := min context.localParallelism (context.fittingWorkers context.localMemory)
  decide (workers < context.localParallelism) && decide (workers < context.iterations) &&
    decide (workers < context.remoteParallelism)

/-- The loop, or a loop in it, has many iterations. -/
def isLarge (context : PassContext α) : Bool :=
  let settings := context.settings
  decide (settings.sizeThreshold ≤ Quantity.ofNat context.iterations) ||
    decide (settings.nestedSizeFactor * settings.sizeThreshold ≤
      Quantity.ofNat context.problemSize)

/-- The cluster can run more of the iterations at once than the machine. -/
def gainsParallelism (context : PassContext α) : Bool :=
  decide (context.localParallelism < context.iterations) &&
    decide (context.localParallelism < context.remoteParallelism)

/-- Where a loop with this tree should run. -/
def choosePlacement (context : PassContext α) (tree : PlanTree) : Placement :=
  if tree.isLocalOnly ∧ context.footprint ≤ context.remoteMemory then
    if memoryBound context || (gainsParallelism context && isLarge context) then .remote
    else .inProcess
  else .inProcess

/-- The second rule: decides where the loop runs. -/
def runExecutionStrategy (context : PassContext α) : Pass α Unit := do
  let tree := (← Pass.plan).tree
  let placement := choosePlacement context tree
  Pass.onPlan (Plan.setPlacement tree.id placement)
  executionStrategy.report placement.modeName

/-- A remote loop without parallel loops in it is to be split: there is an iteration for every
cluster node, and a remote task can hold the footprints of all workers of a chunk. -/
def shouldSplit (context : PassContext α) (tree : PlanTree) : Bool :=
  context.settings.nestedParallelism && tree.root.placement == .remote &&
    decide (0 < context.remoteNodes) && decide (context.remoteNodes ≤ context.iterations) &&
    !tree.hasNestedParallelism &&
    decide (context.footprint * Quantity.ofNat context.localLimit ≤ context.remoteMemory)

/-- The fourth rule: splits the loop if that pays. Gives the context in which the loop is known
to be split. -/
def runNestedParallelism (context : PassContext α) : Pass α (PassContext α) := do
  let tree := (← Pass.plan).tree
  let context ←
    if shouldSplit context tree then do
      let chunk := divideUp context.iterations context.remoteNodes
      let _ ← Pass.onPlan (Plan.splitLoop tree.id chunk context.settings.nestedVar)
      pure { context with nested := true }
    else pure context
  nestedParallelism.report (toString context.nested)
  return context

end ParallelLoop.PlanningRule
