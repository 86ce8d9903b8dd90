/-
# Degrees of parallelism

The loop itself gets as many workers as it has iterations for and as its place
provides. What is left over is handed down to the parallel loops in it: of a budget
of `limit` workers, `k` of which are used by a loop, each gets an equal share, rounded
up, to use for the loops in its body. A share of one makes everything below serial.

Parallel loops inside that end up with one worker are demoted to sequential ones.
-/

import ParallelLoop.Optimizer.Context

namespace ParallelLoop.PlanningRule

variable {α : Type} [Quantity α]

/-- The share of each of `workers` workers in a budget that they do not exhaust. -/
def remainingShare (limit workers : Nat) : Except Failure Nat :=
  if workers ≤ limit then .ok (divideUp (limit - workers + 1) workers)
  else .error (.abort .overflow)

/-- The workers of a loop: as many as its iterations and the budget allow, at least one. -/
def workersFor (iterations limit : Nat) : Nat := max (min iterations limit) 1

mutual

/-- Distributes a budget of workers in a tree. -/
def distribute (limit : Nat) : PlanTree → Change (Plan α) Unit
  | .node root children =>
    if limit ≤ 1 then Plan.serialize root.id
    else if root.kind = .parfor then do
      let iterations ← Change.ofExcept root.tripCount
      let workers := workersFor iterations limit
      Plan.setWorkers root.id workers
      let share ← Change.ofOutcome (remainingShare limit workers)
      distributeAll share children
    else distributeAll limit children

/-- Distributes a budget of workers in each of the trees. -/
def distributeAll (limit : Nat) : List PlanTree → Change (Plan α) Unit
  | [] => pure ()
  | tree :: rest => do
    distribute limit tree
    distributeAll limit rest

end

/-- Most workers that a local loop with this tree may have: as the machine allows and as their
footprints fit into its memory. -/
def localBudget (context : PassContext α) (tree : PlanTree) : Nat :=
  let limit := if tree.isLocalOnly then context.localLimit else context.mixedLimit
  max (min limit (context.fittingWorkers context.localMemory)) 1

/-- The workers of a remote loop: one for each cluster node when it is split. -/
def remoteWorkers (context : PassContext α) : Nat :=
  if context.nested then max context.remoteNodes 1
  else max (min context.iterations context.remoteParallelism) 1

/-- Most workers inside each of the tasks of a remote loop. -/
def taskBudget (context : PassContext α) (workers : Nat) : Nat :=
  max (min (context.remoteLimit / workers) (context.fittingWorkers context.remoteMemory)) 1

/-- The fifth rule: decides the number of workers of the loop and of the loops in it. -/
def runDegreeOfParallelism (context : PassContext α) : Pass α Unit := do
  let tree := (← Pass.plan).tree
  match tree.root.placement with
  | .inProcess =>
    let limit := localBudget context tree
    let workers := workersFor context.iterations limit
    Pass.onPlan (Plan.setWorkers tree.id workers)
    let share ← Change.ofOutcome (remainingShare limit workers)
    Pass.onPlan (distributeAll share tree.children)
  | .remote =>
    let workers := remoteWorkers context
    Pass.onPlan (Plan.setWorkers tree.id workers)
    Pass.onPlan (distributeAll (taskBudget context workers) tree.children)
  let final := (← Pass.plan).tree
  degreeOfParallelism.report s!"k={final.root.workers} (total {final.totalWorkers})"

mutual

/-- Demotes the parallel loops with one worker below the topmost node. Counts them. -/
def demoteSerial : PlanTree → Change (Plan α) Nat
  | .node _ children => demoteSerialAll children

/-- Demotes the parallel loops with one worker in the trees. Counts them. -/
def demoteSerialAll : List PlanTree → Change (Plan α) Nat
  | [] => return 0
  | tree :: rest => do
    -- A loop is demoted before the loops in it.
    let own ←
      if tree.root.kind = .parfor ∧ tree.root.workers = 1 then do
        Plan.demote tree.id
        pure 1
      else pure 0
    let below ← demoteSerial tree
    let others ← demoteSerialAll rest
    return own + below + others

end

/-- The ninth rule: demotes the parallel loops in the loop that have one worker. Counts
them. -/
def runUnnecessaryLoops : Pass α Nat := do
  let removed ← Pass.onPlan (demoteSerial (← Pass.plan).tree)
  unnecessaryLoops.report (toString removed)
  return removed

end ParallelLoop.PlanningRule
