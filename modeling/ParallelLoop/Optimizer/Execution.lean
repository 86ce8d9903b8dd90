/-
# How a loop is executed

Once the place and the parallelism of a loop are known, three decisions remain: how
its iterations are cut into tasks, how the results of its workers are put together,
and how much memory a worker may use when the body is compiled again.
-/

import ParallelLoop.Optimizer.Partitioning

namespace ParallelLoop.PlanningRule

variable {α : Type} [Quantity α]

/-- Decides how the iterations of one loop are cut into tasks. -/
def assignTaskPartitioner (node : PlanNode) (kind : PartitionerKind) : Pass α Unit := do
  if node.kind ≠ .parfor then
    Pass.say .warn
      ("task partitioner can only be set for a PARFOR node, got " ++ node.id.render)
  Pass.onPlan (Plan.setTaskPartitioner node.id kind)
  taskPartitioner.report (kind.name ++ " (" ++ node.id.render ++ ")")

/-- The sixth rule: factoring for every loop, except that the outer loop of a split hands out
one chunk per worker. -/
def runTaskPartitioner (context : PassContext α) : Pass α Unit := do
  let tree := (← Pass.plan).tree
  if context.nested then
    assignTaskPartitioner tree.root .static
    match tree.children with
    | inner :: _ => assignTaskPartitioner inner.root .factoring
    | [] => pure ()
  else assignTaskPartitioner tree.root .factoring

/-- One of the trees is a distributed operator that writes into one of these matrices. -/
def writesRemotely (resultVars : List String) : List PlanTree → Change (Plan α) Bool
  | [] => return false
  | tree :: rest => do
    if isOperator leftIndexing tree ∧ tree.root.placement = .remote then
      let hopId ← Change.inspect fun plan => plan.hopOf tree.id
      let hop ← Change.inspect fun plan => plan.program.hop hopId
      if (hop.inputName? 0).any resultVars.contains then return true
      else writesRemotely resultVars rest
    else writesRemotely resultVars rest

/-- All these matrices are live, in a cell format and without nonzero cells. -/
def allEmptyCells (vars : Variables) (resultVars : List String) : Bool :=
  resultVars.all fun name =>
    (vars.get? name).any fun matrix =>
      matrix.format != .binaryBlock && matrix.nonzeros == 0

/-- Decides how the results of one loop are put together: by a distributed job when distributed
operators write them, unless copying suffices. -/
def mergeResults (context : PassContext α) (tree : PlanTree) : Pass α Unit := do
  let settings ← Change.inspect fun state => state.plan.settings tree.id
  let remote ← Pass.onPlan (writesRemotely settings.resultVars tree.subtrees)
  -- Empty cell files can be copied together, even if distributed operators wrote them.
  let copies :=
    context.settings.copyCellFiles && allEmptyCells context.vars settings.resultVars
  let merge : ResultMerge := if remote && !copies then .remote else .localAutomatic
  Pass.onPlan (Plan.setResultMerge tree.id merge)
  resultMerge.report (merge.name ++ " (" ++ tree.id.render ++ ")")

mutual

/-- Decides how the results of the parallel loops in a tree are put together. -/
def mergeAllResults (context : PassContext α) : PlanTree → Pass α Unit
  | .node root children => do
    if root.kind = .parfor then mergeResults context (.node root children)
    mergeAllResultsBelow context children

/-- Decides how the results of the parallel loops in all trees are put together. -/
def mergeAllResultsBelow (context : PassContext α) : List PlanTree → Pass α Unit
  | [] => pure ()
  | tree :: rest => do
    mergeAllResults context tree
    mergeAllResultsBelow context rest

end

/-- The seventh rule: decides how the results of the loop and of the loops in it are put
together. -/
def runResultMerge (context : PassContext α) : Pass α Unit := do
  let tree := (← Pass.plan).tree
  mergeResults context tree
  mergeAllResultsBelow context tree.children

/-- The eighth rule: a worker of a local loop gets its share of the local memory for compiling
the body again. Remote tasks do not compile. -/
def runRecompileBudget (context : PassContext α) : Pass α Unit := do
  let tree := (← Pass.plan).tree
  let budget ←
    if tree.root.placement = .inProcess then do
      let workers ← Change.ofOutcome (orOverflow (Word.count? tree.totalWorkers))
      let budget := context.localMemory / Quantity.ofNat (max workers 1)
      Pass.onPlan (Plan.setRecompileBudget tree.id budget)
      pure budget
    else pure context.localMemory
  recompileBudget.report (Quantity.megabytes budget)

end ParallelLoop.PlanningRule
