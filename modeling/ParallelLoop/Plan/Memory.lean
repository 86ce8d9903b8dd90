/-
# Memory of plans

The memory model estimates the worst case. An operator that runs in the local
process needs the memory known for it, and one that runs as a distributed job needs
a fixed amount, because its data never reach the process. Of the nodes below another
one at a time is active, except that a parallel loop has as many copies of its body
active as it has workers.

Planning asks an estimator, which may be this model or any other.
-/

import ParallelLoop.Quantity
import ParallelLoop.Plan.Basic

namespace ParallelLoop

variable {α : Type} [Quantity α]

namespace Program

/-- The memory of an operator that a node without nodes below it stands for. -/
def hopMemory (program : Program α) (remoteCost : α) (node : PlanNode) : Except Error α :=
  if node.placement = .remote then .ok remoteCost
  else
    match node.hop with
    | none => .error (.operatorNotBound node.id)
    | some hop =>
      match (program.hop hop).toOption.bind Hop.memory with
      | some memory => .ok memory
      | none => .error (.operatorNotEstimated node.id)

mutual

/-- The memory of a tree. -/
def memory (program : Program α) (remoteCost : α) : PlanTree → Except Error α
  | .node root children => do
    if root.kind = .hop ∧ children.isEmpty then program.hopMemory remoteCost root
    else
      let largest ← program.memoryAll remoteCost Quantity.zero children
      return if root.kind = .parfor then Quantity.ofNat (max root.workers 1) * largest else largest

/-- The largest memory of the trees, if it is larger than the one found so far. -/
def memoryAll (program : Program α) (remoteCost largest : α) : List PlanTree → Except Error α
  | [] => .ok largest
  | tree :: rest => do
    let memory ← program.memory remoteCost tree
    program.memoryAll remoteCost (Quantity.larger largest memory) rest

end

end Program

/-- What the memory model says about the tree under a node. It knows no execution times. -/
def Plan.estimate (plan : Plan α) (remoteCost : α) (measure : Measure) (id : NodeId) :
    Except Failure α :=
  match measure with
  | .executionTime => .error (.error .executionTimeNotEstimated)
  | .memoryUsage =>
    match plan.tree.find? id with
    | none => .error (.abort .unknownNode)
    | some tree => orFailure (plan.program.memory remoteCost tree)

/-- Estimates the memory of a whole plan. Planning asks more than once, and the answer may depend
on how often it was asked before. -/
structure Estimator (α : Type) where
  memory : (asked : Nat) → Plan α → Except Error α

namespace Estimator

/-- The memory model. -/
def hops (remoteCost : α) : Estimator α where
  memory _ plan := plan.program.memory remoteCost plan.tree

/-- Answers from a list, the last answer again and again. A missing answer fails. -/
def scripted (answers : List (Option α)) : Estimator α where
  memory asked _ :=
    match (answers[asked]?.or answers.getLast?).join with
    | some answer => .ok answer
    | none => .error (.estimation "fixed")

end Estimator

end ParallelLoop
