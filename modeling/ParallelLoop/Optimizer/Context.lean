/-
# The context of an optimizer pass

One pass decides about one loop. It looks at the size of the problem and at the
resources at hand, which do not change during the pass, and at the memory footprint
of the serial loop, which is estimated again once operators have moved.
-/

import ParallelLoop.Infrastructure
import ParallelLoop.Log
import ParallelLoop.Plan.Memory
import ParallelLoop.Plan.Nesting
import ParallelLoop.Plan.Variables
import ParallelLoop.Settings.Basic

namespace ParallelLoop

/-- What the rules of a pass share. -/
structure PassContext (α : Type) where
  settings : OptimizerSettings α
  vars : Variables
  /-- Trip count of the loop, as it was before any split. -/
  iterations : Nat
  /-- Largest trip count of the loop and the loops in it. -/
  problemSize : Nat
  localParallelism : Nat
  /-- Most local workers when all operators run in the process. -/
  localLimit : Nat
  /-- Most local workers when some operators run as distributed jobs. -/
  mixedLimit : Nat
  remoteNodes : Nat
  remoteParallelism : Nat
  /-- Most workers across the cluster. -/
  remoteLimit : Nat
  /-- Memory that local operators may use. -/
  localMemory : α
  /-- Memory that the operators of a remote task may use. -/
  remoteMemory : α
  /-- Memory of the loop when it runs serially. -/
  footprint : α
  /-- The loop is split. -/
  nested : Bool
  deriving DecidableEq, Repr

namespace PassContext

variable {α : Type} [Quantity α]

/-- A parallelism scaled by a factor and rounded up. -/
def scale (factor : α) (parallelism : Nat) : Nat :=
  Quantity.ceil (factor * Quantity.ofNat parallelism)

/-- The context of a plan. A loop that an earlier pass has split counts with the trip count that
it had before. -/
def ofPlan (settings : OptimizerSettings α) (vars : Variables) (infrastructure : Infrastructure)
    (plan : Plan α) : Except Failure (PassContext α) := do
  let root := plan.tree.root
  let split ← plan.splitTripCount root.id settings.nestedVar
  let iterations ← match split with
    | some count => pure count
    | none => orFailure root.tripCount
  return {
    settings, vars, iterations
    problemSize := max plan.tree.maxProblemSize iterations
    localParallelism := infrastructure.localParallelism
    localLimit := scale settings.workerFactor infrastructure.localParallelism
    mixedLimit := scale settings.mixedWorkerFactor infrastructure.localParallelism
    remoteNodes := infrastructure.remoteNodes
    remoteParallelism := infrastructure.remoteParallelism
    remoteLimit := scale settings.workerFactor infrastructure.remoteParallelism
    localMemory := settings.memoryShare * Quantity.ofNat infrastructure.localMemory
    remoteMemory := settings.memoryShare * Quantity.ofNat infrastructure.remoteMemory
    footprint := Quantity.zero
    nested := split.isSome
  }

/-- How many workers a budget of memory suffices for. -/
def fittingWorkers (context : PassContext α) (budget : α) : Nat :=
  Quantity.fits budget context.footprint

end PassContext

/-- What a pass works on: the plan, and the log of the pass so far. -/
structure PassState (α : Type) where
  plan : Plan α
  log : Log

/-- A step of a pass. -/
abbrev Pass (α β : Type) := Change (PassState α) β

namespace Pass

variable {α β : Type}

/-- A change of the plan. -/
def onPlan (change : Change (Plan α) β) : Pass α β :=
  ExceptT.mk fun state =>
    let (outcome, plan) := change.result state.plan
    (outcome, { state with plan })

/-- The current plan. -/
def plan : Pass α (Plan α) := do return (← get).plan

/-- Writes a line of the log. -/
def say (level : LogLevel) (text : String) : Pass α Unit :=
  modify fun state => { state with log := state.log ++ [{ level, text }] }

/-- Writes a line of the log about the pass as a whole. -/
def report (text : String) : Pass α Unit := say .debug ("rule-based optimizer: " ++ text)

end Pass

/-- The nine rules of a pass. -/
inductive PlanningRule
  | dataPartitioner | executionStrategy | colocation | nestedParallelism | degreeOfParallelism
  | taskPartitioner | resultMerge | recompileBudget | unnecessaryLoops
  deriving DecidableEq, Repr

namespace PlanningRule

/-- The rules in the order of their application. -/
def all : List PlanningRule :=
  [dataPartitioner, executionStrategy, colocation, nestedParallelism, degreeOfParallelism,
    taskPartitioner, resultMerge, recompileBudget, unnecessaryLoops]

/-- The name of a rule. -/
def name : PlanningRule → String
  | dataPartitioner => "set data partitioner"
  | executionStrategy => "set execution strategy"
  | colocation => "enable data colocation"
  | nestedParallelism => "enable nested parallelism"
  | degreeOfParallelism => "set degree of parallelism"
  | taskPartitioner => "set task partitioner"
  | resultMerge => "set result merge"
  | recompileBudget => "set recompile memory budget"
  | unnecessaryLoops => "remove unnecessary parfor"

/-- Writes down what a rule decided. -/
def report {α : Type} (rule : PlanningRule) (result : String) : Pass α Unit :=
  Pass.report ("rewrite '" ++ rule.name ++ "' - result=" ++ result)

end PlanningRule

end ParallelLoop
