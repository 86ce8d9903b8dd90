/-
# Plans

A plan is a tree of decisions together with the program they are about. What is decided
about a parallel loop is recorded on both sides, in the node and in the settings of
its block; each such decision is made by one operation of this module, which first
looks up everything it needs and only then changes anything.
-/

import ParallelLoop.Change
import ParallelLoop.Plan.Program
import ParallelLoop.Plan.Tree
import ParallelLoop.Task.Iteration

namespace ParallelLoop

/-- A tree of decisions and the program they are about. -/
structure Plan (α : Type) where
  tree : PlanTree
  program : Program α

/-- The trip count of a loop with constant bounds. -/
def LoopBounds.constantTripCount? (bounds : LoopBounds) : Except Error (Option Nat) :=
  match bounds.first, bounds.last with
  | .const first, .const last => (iterationCount first last bounds.step).map some
  | _, _ => .ok none

namespace Plan

variable {α : Type}

/-- The node that a block gets: a loop runs where its settings say, and one with constant bounds
records its trip count. -/
def nodeOfBlock (id : NodeId) (blockId : BlockId) (block : Block α) : Except Error PlanNode := do
  let (kind, placement) : NodeKind × Placement := match block.kind with
    | .parfor => (.parfor, (block.settings.map ParallelSettings.mode).getD .inProcess)
    | .for => (.for, .inProcess)
    | .generic => (.generic, .inProcess)
  let count ← match block.bounds with
    | some bounds => bounds.constantTripCount?
    | none => .ok none
  return {
    id, kind, placement
    parameters := { numIterations := count.map toString }
    block := some blockId
  }

/-- The plan of a parallel loop, with one node for the loop itself. -/
def ofLoop (program : Program α) (root : BlockId) : Except Error (Plan α) := do
  let block ← program.block root
  if block.kind ≠ .parfor then .error (.rootBlockNotParallel root)
  else return { tree := .node (← nodeOfBlock ⟨0⟩ root block) [], program }

/-- The node with this id. -/
def node (plan : Plan α) (id : NodeId) : Except Failure PlanNode :=
  match plan.tree.node? id with
  | some node => .ok node
  | none => .error (.abort .unknownNode)

/-- The block that a node stands for. -/
def blockOf (plan : Plan α) (id : NodeId) : Except Error BlockId :=
  match (plan.tree.node? id).bind PlanNode.block with
  | some block => .ok block
  | none => .error (.nodeWithoutBlock id)

/-- The operator that a node stands for. -/
def hopOf (plan : Plan α) (id : NodeId) : Except Error HopId :=
  match (plan.tree.node? id).bind PlanNode.hop with
  | some hop => .ok hop
  | none => .error (.nodeWithoutHop id)

/-- The settings of a loop that a node stands for. -/
def settings (plan : Plan α) (id : NodeId) : Except Error (ParallelSettings α) := do
  let block ← plan.program.block (← plan.blockOf id)
  match block.settings with
  | some settings => return settings
  | none => .error (.blockNotParallel id)

/-- The bounds of a block that a node stands for. -/
def boundsOf (id : NodeId) (block : Block α) : Except Error LoopBounds :=
  match block.bounds with
  | some bounds => .ok bounds
  | none => .error (.blockWithoutBounds id)

/-- Changes the record of a node. -/
def updateNode (id : NodeId) (change : PlanNode → PlanNode) : Change (Plan α) Unit :=
  modify fun plan => { plan with tree := plan.tree.update id change }

/-- Changes the settings of the loop that a node stands for. -/
def updateSettings (id : NodeId) (change : ParallelSettings α → ParallelSettings α) :
    Change (Plan α) Unit := do
  let _ ← Change.inspect fun plan => plan.settings id
  let block ← Change.inspect fun plan => plan.blockOf id
  modify fun plan =>
    { plan with program := plan.program.modifyBlock block fun block =>
        { block with settings := block.settings.map change } }

/-! ## Growing a plan -/

/-- Adds a node for a block below another node. -/
def addBlockNode (parent : NodeId) (blockId : BlockId) : Change (Plan α) NodeId := do
  let block ← Change.inspect fun plan => plan.program.block blockId
  let fresh := (← get).tree.freshId
  let node ← Change.ofExcept (nodeOfBlock fresh blockId block)
  let _ ← Change.ofOutcome ((← get).node parent)
  modify fun plan => { plan with tree := plan.tree.addChild parent node }
  return fresh

/-- Adds a node for an operator below another node. -/
def addHopNode (parent : NodeId) (hop : HopId) (placement : Placement) :
    Change (Plan α) NodeId := do
  let fresh := (← get).tree.freshId
  let op := ((← get).program.hop hop).toOption.map Hop.op
  let _ ← Change.ofOutcome ((← get).node parent)
  let node : PlanNode :=
    { id := fresh, kind := .hop, placement, parameters := { opString := op }, hop := some hop }
  modify fun plan => { plan with tree := plan.tree.addChild parent node }
  return fresh

/-! ## Decisions -/

/-- Decides where a node runs. -/
def setPlacement (id : NodeId) (placement : Placement) : Change (Plan α) Unit := do
  match (← get).tree.node? id with
  | none => Change.fail (.nodeMissing id)
  | some node =>
    if node.kind = .parfor then
      updateSettings id fun settings => { settings with mode := placement }
    updateNode id fun node => { node with placement }

/-- Decides the number of workers of a parallel loop. -/
def setWorkers (id : NodeId) (workers : Nat) : Change (Plan α) Unit := do
  updateSettings id fun settings => { settings with workers }
  updateNode id fun node => { node with workers }

/-- Gives one worker to each of the nodes that are parallel loops. -/
def serializeNodes : List PlanNode → Change (Plan α) Unit
  | [] => pure ()
  | node :: rest => do
    if node.kind = .parfor then setWorkers node.id 1
    serializeNodes rest

/-- Gives one worker to a node and to every parallel loop below it. -/
def serialize (id : NodeId) : Change (Plan α) Unit := do
  match (← get).tree.find? id with
  | none => Change.abort .unknownNode
  | some tree => serializeNodes tree.nodes

/-- Decides how the iterations of a parallel loop are cut into tasks. -/
def setTaskPartitioner (id : NodeId) (kind : PartitionerKind) : Change (Plan α) Unit := do
  updateSettings id fun settings => { settings with taskPartitioner := kind }
  updateNode id fun node => node.setParam .taskPartitioner kind.name

/-- Decides how the inputs of a parallel loop are partitioned. -/
def setDataPartitioner (id : NodeId) (partitioner : DataPartitioner) :
    Change (Plan α) Unit := do
  updateSettings id fun settings => { settings with dataPartitioner := partitioner }
  updateNode id fun node => node.setParam .dataPartitioner partitioner.name

/-- Decides that an indexing operator reads one partition of its input: it runs in the local
process and needs the memory of a slice. -/
def setPartitionFormat (id : NodeId) (format : PartitionFormat) (slice : α) :
    Change (Plan α) Unit := do
  let hop ← Change.inspect fun plan => plan.hopOf id
  let _ ← Change.inspect fun plan => plan.program.hop hop
  modify fun plan =>
    { plan with program := plan.program.modifyHop hop fun hop => { hop with memory := some slice } }
  updateNode id fun node =>
    { node with placement := .inProcess }.setParam .dataPartitionFormat format.name

/-- Decides how the results of a parallel loop are put together. -/
def setResultMerge (id : NodeId) (merge : ResultMerge) : Change (Plan α) Unit := do
  updateSettings id fun settings => { settings with resultMerge := merge }
  updateNode id fun node => node.setParam .resultMerge merge.name

/-- Decides how much memory one worker may use when the body is compiled again. -/
def setRecompileBudget (id : NodeId) (budget : α) : Change (Plan α) Unit :=
  updateSettings id fun settings => { settings with recompileBudget := some budget }

/-- Decides which matrix the tasks of a parallel loop are placed next to. -/
def setColocated (id : NodeId) (matrix : String) : Change (Plan α) Unit :=
  updateSettings id fun settings => { settings with colocated := some matrix }

end Plan

end ParallelLoop
