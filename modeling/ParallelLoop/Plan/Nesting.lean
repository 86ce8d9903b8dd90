/-
# Splitting and demoting loops

A parallel loop can be split into an outer loop over chunks of iterations, to run as
distributed tasks, and an inner loop over the iterations of one chunk, to run in the
process of such a task. The inner loop takes over the body. A loop that was split is
recognised by the bounds of the two loops.

A parallel loop that has nothing to run in parallel can be demoted to a sequential
one with the same bounds and the same body.
-/

import ParallelLoop.Plan.Basic

namespace ParallelLoop

/-- The quotient rounded up. -/
def divideUp (num den : Nat) : Nat := (num + den - 1) / den

/-- The steps of the two loops that replace one: the outer one moves by a whole chunk, and the
last iteration of the chunk is `reach` beyond the first. -/
structure ChunkSteps where
  outer : Int
  reach : Int
  deriving DecidableEq, Repr

/-- The steps for chunks of this many iterations; each has to be a signed word. -/
def ChunkSteps.ofChunk (chunk : Nat) (step : Int) : Except Failure ChunkSteps := do
  let outer ← orOverflow (Word.signed? (Word.reinterpret chunk * step))
  let reach ← orOverflow (Word.signed? (outer - step))
  return { outer, reach }

namespace LoopBounds

/-- The limit that the iterations of a loop never exceed, if it is known beforehand. -/
def limit? (bounds : LoopBounds) : Option Int :=
  match bounds.last with
  | .const last => some last
  | .relative _ _ limit => limit

/-- The bounds of the loop over chunks. -/
def chunks (bounds : LoopBounds) (var : String) (steps : ChunkSteps) : LoopBounds :=
  { bounds with var, step := steps.outer }

/-- The bounds of the loop over the chunk that starts at the value of `var`. -/
def withinChunk (bounds : LoopBounds) (var : String) (steps : ChunkSteps) : LoopBounds :=
  { bounds with
    first := .relative var 0 none
    last := .relative var steps.reach bounds.limit? }

end LoopBounds

namespace Plan

variable {α : Type}

/-- Splits a parallel loop into a loop over chunks of `chunk` iterations, at least one, and a
loop over the iterations of a chunk. Gives the node of the inner loop. -/
def splitLoop (id : NodeId) (chunk : Nat) (outerVar : String) : Change (Plan α) NodeId := do
  let chunk := max chunk 1
  -- Whatever can fail is looked up before anything changes.
  let outerBlock ← Change.inspect fun plan => plan.blockOf id
  let node ← Change.ofOutcome ((← get).node id)
  let count ← Change.ofExcept node.tripCount
  let block ← Change.inspect fun plan => plan.program.block outerBlock
  let bounds ← Change.ofExcept (boundsOf id block)
  let settings ← Change.inspect fun plan => plan.settings id
  let steps ← Change.ofOutcome (ChunkSteps.ofChunk chunk bounds.step)
  let innerBlock := (← get).program.nextBlock
  let inner := (← get).tree.freshId
  modify fun plan =>
    let body := Block.parallel (bounds.withinChunk outerVar steps)
      { settings with mode := .inProcess } block.children
    let program := (plan.program.addBlock body).modifyBlock outerBlock fun outer =>
      { outer with
        bounds := some (bounds.chunks outerVar steps)
        children := [innerBlock]
        settings := outer.settings.map fun settings => { settings with mode := .remote } }
    let fresh : PlanNode :=
      { id := inner, kind := .parfor, placement := .inProcess
        parameters := { numIterations := some (toString chunk) }, block := some innerBlock }
    let tree := (plan.tree.insertBelow id fresh).update id fun node =>
      { node with placement := .remote }.setParam .numIterations (toString (divideUp count chunk))
    { tree, program }
  return inner

/-- The trip count that a loop had before it was split into chunks counted by `outerVar`, or
nothing for a loop that was not. -/
def splitTripCount (plan : Plan α) (id : NodeId) (outerVar : String) :
    Except Failure (Option Nat) := do
  let some tree := plan.tree.find? id | .error (.abort .unknownNode)
  match tree.children with
  | [inner] =>
    if inner.root.kind ≠ .parfor then return none
    else orFailure do
      let outer ← plan.program.block (← plan.blockOf id)
      let nested ← plan.program.block (← plan.blockOf inner.id)
      -- The outer loop counts chunks with this variable, and the inner one starts at it.
      match outer.bounds, nested.bounds with
      | some { var, first := .const first, last := .const last, .. },
          some { first := .relative base .., step, .. } =>
        if var = outerVar ∧ base = outerVar then (iterationCount first last step).map some
        else return none
      | _, _ => return none
  | _ => return none

/-- Demotes a parallel loop to a sequential one. -/
def demote (id : NodeId) : Change (Plan α) Unit := do
  let old ← Change.inspect fun plan => plan.blockOf id
  let block ← Change.inspect fun plan => plan.program.block old
  let bounds ← Change.ofExcept (boundsOf id block)
  let fresh := (← get).program.nextBlock
  -- The old block stays where it is and keeps its list.
  modify fun plan =>
    { plan with
      program := plan.program.replaceBlock old (.sequential bounds block.children) }
  updateNode id fun node =>
    { node with block := some fresh, kind := .for, placement := .inProcess }

end Plan

end ParallelLoop
