/-
# Partitioned inputs

Matrices that a loop reads slice by slice can be partitioned beforehand, so that the
indexing operator reads one slice in the local process and needs no distributed job.
The first rule does so for every slice that fits into the local memory.

The tasks of a remote loop over partitioned inputs are best placed next to the
partitions they read. The third rule chooses, among the matrices that are indexed
by the iteration variable itself, the one with most nonzero cells.
-/

import ParallelLoop.Optimizer.Context

namespace ParallelLoop.PlanningRule

variable {α : Type} [Quantity α]

/-- Bytes of a cell of a dense matrix. -/
def cellBytes : α := Quantity.ofNat 8

/-- The memory of one slice of a matrix that is stored densely. -/
def sliceMemory (matrix : MatrixMeta) (format : PartitionFormat) (blockSize : Nat) : α :=
  let rows : α := Quantity.ofNat matrix.rows
  let columns : α := Quantity.ofNat matrix.columns
  let block : α := Quantity.ofNat blockSize
  match format with
  | .columnWise => rows * cellBytes
  | .rowWise => columns * cellBytes
  | .rowBlockWise => block * columns * cellBytes
  | .columnBlockWise => rows * block * cellBytes
  | .none => rows * columns * cellBytes

/-- The tree is a single operator of this name. -/
def isOperator (op : String) (tree : PlanTree) : Bool :=
  tree.isLeaf && tree.root.kind == .hop && tree.root.param? .opString == some op

/-- The tree is an indexing operator that is, or was, a distributed job. -/
def isPartitionable (tree : PlanTree) : Bool :=
  isOperator rightIndexing tree &&
    (tree.root.placement == .remote || (tree.root.param? .dataPartitionFormat).isSome)

/-- The slices in which the candidates are read. Of several entries for a matrix the last one
counts. -/
def sliceFormat? (candidates : List (String × PartitionFormat)) (matrix : String) :
    Option PartitionFormat :=
  (candidates.filter fun candidate => candidate.2 != .none).reverse.lookup matrix

/-- Partitions the input of one indexing operator if a slice fits. Tells whether it does. -/
def partitionInput (context : PassContext α) (candidates : List (String × PartitionFormat))
    (id : NodeId) : Change (Plan α) Bool := do
  let hopId ← Change.inspect fun plan => plan.hopOf id
  let hop ← Change.inspect fun plan => plan.program.hop hopId
  match hop.inputName? 0 with
  | none => Change.fail (.indexingWithoutMatrix id)
  | some name =>
    match sliceFormat? candidates name with
    | none => return false
    | some format =>
      match context.vars.get? name with
      | none => Change.fail (.partitionedNotLive name)
      | some matrix =>
        let slice := sliceMemory matrix format context.settings.blockSize
        if slice < context.localMemory then
          Plan.setPartitionFormat id format slice
          return true
        else return false

/-- Partitions the inputs of all indexing operators among the trees. Tells whether there are
any. -/
def partitionInputs (context : PassContext α) (candidates : List (String × PartitionFormat)) :
    List PlanTree → Change (Plan α) Bool
  | [] => return false
  | tree :: rest => do
    let applied ←
      if isPartitionable tree then partitionInput context candidates tree.id else pure false
    let others ← partitionInputs context candidates rest
    return applied || others

/-- The first rule: partitions the inputs of the loop where that helps. -/
def runDataPartitioner (context : PassContext α) : Pass α Unit := do
  let tree := (← Pass.plan).tree
  let settings ← Change.inspect fun state => state.plan.settings tree.id
  let applied ←
    if settings.candidates.any fun candidate => candidate.2 != .none then
      Pass.onPlan (partitionInputs context settings.candidates tree.subtrees)
    else pure false
  let partitioner : DataPartitioner := if applied then .remote else .none
  Pass.onPlan (Plan.setDataPartitioner tree.id partitioner)
  dataPartitioner.report partitioner.name

/-- The operand of an indexing operator that a slice of this format runs along. -/
def indexOperand? : PartitionFormat → Option Nat
  | .rowWise => some 1
  | .columnWise => some 3
  | .none | .rowBlockWise | .columnBlockWise => none

/-- The matrix that an indexing operator reads by slices at the value of a variable. -/
def directlyIndexed (var : String) (tree : PlanTree) : Change (Plan α) (Option String) := do
  if isOperator rightIndexing tree then
    match ((tree.root.param? .dataPartitionFormat).bind PartitionFormat.ofName?).bind
      indexOperand? with
    | none => return none
    | some operand =>
      let hopId ← Change.inspect fun plan => plan.hopOf tree.id
      let hop ← Change.inspect fun plan => plan.program.hop hopId
      let direct := hop.inputs[operand]?.any fun input => input.isData && input.name == var
      return if direct then hop.inputName? 0 else none
  else return none

/-- The matrices that any of the operators reads by slices at the value of a variable. -/
def directlyIndexedAll (var : String) : List PlanTree → Change (Plan α) (List String)
  | [] => return []
  | tree :: rest => do
    let matrix ← directlyIndexed var tree
    let others ← directlyIndexedAll var rest
    return matrix.toList ++ others

/-- The matrix with most nonzero cells, the first of several. All have to be live. -/
def heaviest (vars : Variables) (best : Option (String × Nat)) :
    List String → Except Error (Option (String × Nat))
  | [] => .ok best
  | name :: rest =>
    match vars.get? name with
    | none => .error (.colocatedNotLive name)
    | some matrix =>
      let heavier := match best with
        | none => true
        | some (_, nonzeros) => decide (nonzeros < matrix.nonzeros)
      heaviest vars (if heavier then some (name, matrix.nonzeros) else best) rest

/-- The loop whose variable indexes the body: the inner one of a split loop. -/
def indexingLoop (context : PassContext α) (tree : PlanTree) : NodeId :=
  if context.nested then (tree.children.head?.map PlanTree.id).getD tree.id else tree.id

/-- The third rule: places the tasks of a remote loop next to the partitions they read. -/
def runColocation (context : PassContext α) : Pass α Unit := do
  let tree := (← Pass.plan).tree
  let settings ← Change.inspect fun state => state.plan.settings tree.id
  if settings.dataPartitioner ≠ .remote ∨ tree.root.placement ≠ .remote then
    colocation.report "false"
  else
    let loop := indexingLoop context tree
    let blockId ← Change.inspect fun state => state.plan.blockOf loop
    let block ← Change.inspect fun state => state.plan.program.block blockId
    match block.bounds with
    | none => Change.fail (.nodeWithoutBounds tree.id)
    | some bounds =>
      let names ← Pass.onPlan (directlyIndexedAll bounds.var tree.subtrees)
      -- Of several matrices with as many cells the first name counts.
      let sorted := names.mergeSort fun a b => decide (a ≤ b)
      match ← Change.ofExcept (heaviest context.vars none sorted) with
      | none => colocation.report "false"
      | some (name, _) =>
        Pass.onPlan (Plan.setColocated tree.id name)
        colocation.report ("true (" ++ name ++ ")")

end ParallelLoop.PlanningRule
