/-
# The optimizer pass

A pass optimizes one loop: it makes the loop serial, estimates its footprint, applies
the nine rules in order, with a new estimate after the first, and sums up what was
decided. A pass is no transaction: when a rule fails, what the rules before it
decided remains.
-/

import ParallelLoop.Optimizer.Execution
import ParallelLoop.Optimizer.Parallelism
import ParallelLoop.Optimizer.Placement

namespace ParallelLoop

/-- What was decided about one parallel loop. -/
structure LoopDecision where
  node : NodeId
  placement : Placement
  workers : Nat
  taskPartitioner : PartitionerKind
  resultMerge : ResultMerge
  deriving DecidableEq, Repr

/-- What a pass found and decided. -/
structure PassSummary (α : Type) where
  iterations : Nat
  problemSize : Nat
  /-- The serial footprint before any rule. -/
  initialFootprint : α
  /-- The serial footprint with partitioned inputs. -/
  footprint : α
  placement : Placement
  dataPartitioner : DataPartitioner
  colocated : Option String
  nested : Bool
  /-- The parallel loops that remain, the outermost first. -/
  decisions : List LoopDecision
  /-- Number of demoted loops. -/
  removed : Nat
  /-- Number of plans that were considered. -/
  evaluated : Nat
  deriving DecidableEq, Repr

/-- The services and settings of a pass. -/
structure Optimizer (α : Type) where
  settings : OptimizerSettings α
  probe : Probe
  estimator : Estimator α

namespace Optimizer

variable {α : Type} [Quantity α]

/-- The decisions about the parallel loops among the nodes. -/
def decisions : List PlanNode → Change (Plan α) (List LoopDecision)
  | [] => return []
  | node :: rest => do
    if node.kind = .parfor then
      let settings ← Change.inspect fun plan => plan.settings node.id
      let decision : LoopDecision :=
        { node := node.id
          placement := node.placement
          workers := node.workers
          taskPartitioner := settings.taskPartitioner
          resultMerge := settings.resultMerge }
      return decision :: (← decisions rest)
    else decisions rest

/-- Sums up a pass. -/
def summarize (context : PassContext α) (initialFootprint : α) (removed : Nat) :
    Pass α (PassSummary α) := do
  let tree := (← Pass.plan).tree
  let settings ← Change.inspect fun state => state.plan.settings tree.id
  let decisions ← Pass.onPlan (decisions tree.nodes)
  return {
    iterations := context.iterations
    problemSize := context.problemSize
    initialFootprint
    footprint := context.footprint
    placement := tree.root.placement
    dataPartitioner := settings.dataPartitioner
    colocated := settings.colocated
    nested := context.nested
    decisions, removed
    evaluated := 1
  }

/-- The footprint of the plan as it is now, when it was asked for so many times before. -/
def estimate (optimizer : Optimizer α) (asked : Nat) : Pass α α := do
  Change.ofExcept (optimizer.estimator.memory asked (← Pass.plan))

/-- Writes down which rule comes next. -/
def announce (rule : PlanningRule) : Pass α Unit :=
  Pass.say .trace ("rule-based optimizer: running rewrite '" ++ rule.name ++ "'")

/-- Looks at the infrastructure and at the plan, makes the loop serial and estimates it. -/
def prepare (optimizer : Optimizer α) (vars : Variables) : Pass α (PassContext α) := do
  let root := (← Pass.plan).tree.root
  if root.kind ≠ .parfor then Change.fail (.rootNotParallel root.id)
  Pass.report "analyze infrastructure properties"
  let infrastructure ← Change.ofExcept optimizer.probe.resolve
  let context ←
    Change.ofOutcome (PassContext.ofPlan optimizer.settings vars infrastructure (← Pass.plan))
  Pass.report ("optimize with local_max_mem=" ++ Quantity.megabytes context.localMemory ++
    " and remote_max_mem=" ++ Quantity.megabytes context.remoteMemory)
  Pass.onPlan (Plan.serialize root.id)
  let footprint ← optimizer.estimate 0
  Pass.report ("estimated mem (serial exec) M=" ++ Quantity.megabytes footprint)
  return { context with footprint }

/-- Estimates the loop once its inputs are partitioned. -/
def reestimate (optimizer : Optimizer α) (context : PassContext α) : Pass α (PassContext α) := do
  let footprint ← optimizer.estimate 1
  Pass.report ("re-estimated mem M=" ++ Quantity.megabytes footprint)
  return { context with footprint }

/-- Applies the rules. Gives the context at the end and the number of demoted loops. -/
def applyRules (optimizer : Optimizer α) (context : PassContext α) :
    Pass α (PassContext α × Nat) := do
  announce .dataPartitioner
  PlanningRule.runDataPartitioner context
  let context ← optimizer.reestimate context
  announce .executionStrategy
  PlanningRule.runExecutionStrategy context
  announce .colocation
  PlanningRule.runColocation context
  announce .nestedParallelism
  let context ← PlanningRule.runNestedParallelism context
  announce .degreeOfParallelism
  PlanningRule.runDegreeOfParallelism context
  announce .taskPartitioner
  PlanningRule.runTaskPartitioner context
  announce .resultMerge
  PlanningRule.runResultMerge context
  announce .recompileBudget
  PlanningRule.runRecompileBudget context
  announce .unnecessaryLoops
  let removed ← PlanningRule.runUnnecessaryLoops
  return (context, removed)

/-- One pass. -/
def pass (optimizer : Optimizer α) (vars : Variables) : Pass α (PassSummary α) := do
  let context ← optimizer.prepare vars
  let (final, removed) ← optimizer.applyRules context
  let summary ← summarize final context.footprint removed
  Pass.say .trace ("rule-based optimizer: final plan\n" ++ (← Pass.plan).tree.explain)
  return summary

/-- Optimizes a plan: the outcome, the plan that it leaves, and the log of the pass. -/
def optimize (optimizer : Optimizer α) (vars : Variables) (plan : Plan α) :
    Except Failure (PassSummary α) × PassState α :=
  (optimizer.pass vars).result { plan, log := [] }

end Optimizer

end ParallelLoop
