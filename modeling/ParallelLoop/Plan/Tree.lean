/-
# Plan trees

A plan tree stands for the blocks and operators of a loop. Each node records what is
decided about it: where it runs, with how many workers, and parameters in text. Nodes
are numbered in the order of their creation and never removed, so a fresh node gets
the number of nodes as its id.

Functions on trees come in pairs, one for a tree and one for the trees below a node.
-/

import ParallelLoop.Error
import ParallelLoop.Text.Count

namespace ParallelLoop

/-- The texts recorded for a node. -/
structure NodeParameters where
  numIterations : Option String := none
  opString : Option String := none
  dataPartitioner : Option String := none
  dataPartitionFormat : Option String := none
  taskPartitioner : Option String := none
  resultMerge : Option String := none
  deriving DecidableEq, Repr

namespace NodeParameters

/-- The text of a parameter. -/
def get? (parameters : NodeParameters) : Parameter → Option String
  | .numIterations => parameters.numIterations
  | .opString => parameters.opString
  | .dataPartitioner => parameters.dataPartitioner
  | .dataPartitionFormat => parameters.dataPartitionFormat
  | .taskPartitioner => parameters.taskPartitioner
  | .resultMerge => parameters.resultMerge

/-- Records a text for a parameter. -/
def set (parameters : NodeParameters) (parameter : Parameter) (text : String) : NodeParameters :=
  match parameter with
  | .numIterations => { parameters with numIterations := some text }
  | .opString => { parameters with opString := some text }
  | .dataPartitioner => { parameters with dataPartitioner := some text }
  | .dataPartitionFormat => { parameters with dataPartitionFormat := some text }
  | .taskPartitioner => { parameters with taskPartitioner := some text }
  | .resultMerge => { parameters with resultMerge := some text }

/-- The recorded parameters in the order of listings. -/
def toList (parameters : NodeParameters) : List (Parameter × String) :=
  Parameter.all.filterMap fun parameter => (parameters.get? parameter).map (parameter, ·)

theorem get?_set (parameters : NodeParameters) (parameter other : Parameter) (text : String) :
    (parameters.set parameter text).get? other =
      if other = parameter then some text else parameters.get? other := by
  cases parameter <;> cases other <;> rfl

end NodeParameters

/-- A node of a plan tree, without the nodes below it. -/
structure PlanNode where
  id : NodeId
  kind : NodeKind
  placement : Placement
  parameters : NodeParameters := {}
  /-- The degree of parallelism. -/
  workers : Nat := 1
  /-- The program block that the node stands for. -/
  block : Option BlockId := none
  /-- The operator that the node stands for. -/
  hop : Option HopId := none
  deriving DecidableEq, Repr

namespace PlanNode

/-- The text of a parameter. -/
def param? (node : PlanNode) (parameter : Parameter) : Option String :=
  node.parameters.get? parameter

/-- Records a text for a parameter. -/
def setParam (node : PlanNode) (parameter : Parameter) (text : String) : PlanNode :=
  { node with parameters := node.parameters.set parameter text }

/-- The trip count recorded for a loop. -/
def tripCount (node : PlanNode) : Except Error Nat :=
  match node.param? .numIterations with
  | none => .error (.tripCountMissing node.id)
  | some text =>
    match Text.count? (Text.trim text) with
    | none => .error (.tripCountMalformed node.id text)
    | some count => .ok count

/-- The trip count of a loop that has one. -/
def problemSize (node : PlanNode) : Nat :=
  if node.kind.isLoop then
    match node.tripCount with
    | .ok count => count
    | .error _ => 0
  else 0

/-- The number of workers that the node puts to work for each one above it. -/
def fanOut (node : PlanNode) : Nat := if node.kind = .parfor then max node.workers 1 else 1

/-- The node is an operator that runs as a distributed job. -/
def isRemoteHop (node : PlanNode) : Bool := node.kind == .hop && node.placement == .remote

/-- The node as a listing shows it. -/
def render (node : PlanNode) : String :=
  let workers := if node.kind = .parfor then s!", k={node.workers}" else ""
  let parameters := node.parameters.toList.map fun (parameter, text) =>
    ", " ++ parameter.name ++ "=" ++ text
  "--" ++ node.kind.name ++ " " ++ node.id.render ++ " (" ++ node.placement.name ++ workers ++
    String.join parameters ++ ")\n"

end PlanNode

/-- A node and the trees below it, in order. -/
inductive PlanTree
  | node (root : PlanNode) (children : List PlanTree)

namespace PlanTree

/-- The tree of a single node. -/
def single (kind : NodeKind) (placement : Placement) : PlanTree :=
  node { id := ⟨0⟩, kind, placement } []

/-- The topmost node. -/
def root : PlanTree → PlanNode
  | node root _ => root

/-- The trees below the topmost node. -/
def children : PlanTree → List PlanTree
  | node _ children => children

/-- The id of the topmost node. -/
def id (tree : PlanTree) : NodeId := tree.root.id

/-- Nothing is below the topmost node. -/
def isLeaf (tree : PlanTree) : Bool := tree.children.isEmpty

mutual

/-- Number of nodes. -/
def size : PlanTree → Nat
  | node _ children => 1 + sizeAll children

/-- Number of nodes of all trees. -/
def sizeAll : List PlanTree → Nat
  | [] => 0
  | tree :: rest => tree.size + sizeAll rest

end

/-- The id that a fresh node gets, as long as there are ids for all nodes. -/
def freshId (tree : PlanTree) : NodeId := ⟨tree.size⟩

mutual

/-- The tree and all trees below its nodes, a node before those below it and these in order,
followed by other trees. -/
def subtreesOnto : PlanTree → List PlanTree → List PlanTree
  | node root children, after => node root children :: subtreesAllOnto children after

/-- The subtrees of all trees in order, followed by other trees. -/
def subtreesAllOnto : List PlanTree → List PlanTree → List PlanTree
  | [], after => after
  | tree :: rest, after => tree.subtreesOnto (subtreesAllOnto rest after)

end

/-- The tree and all trees below its nodes, a node before those below it and these in order. -/
def subtrees (tree : PlanTree) : List PlanTree := tree.subtreesOnto []

/-- The subtrees of all trees in order. -/
def subtreesAll (trees : List PlanTree) : List PlanTree := subtreesAllOnto trees []

mutual

theorem subtreesOnto_append : (tree : PlanTree) → (after others : List PlanTree) →
    tree.subtreesOnto (after ++ others) = tree.subtreesOnto after ++ others
  | node root children, after, others => by
    simp [subtreesOnto, subtreesAllOnto_append children after others]

theorem subtreesAllOnto_append : (trees after others : List PlanTree) →
    subtreesAllOnto trees (after ++ others) = subtreesAllOnto trees after ++ others
  | [], after, others => by simp [subtreesAllOnto]
  | tree :: rest, after, others => by
    simp [subtreesAllOnto, subtreesAllOnto_append rest after others, subtreesOnto_append tree]

end

theorem subtrees_node (root : PlanNode) (children : List PlanTree) :
    (node root children).subtrees = node root children :: subtreesAll children := rfl

@[simp] theorem subtreesAll_nil : subtreesAll [] = [] := rfl

theorem subtreesAll_cons (tree : PlanTree) (rest : List PlanTree) :
    subtreesAll (tree :: rest) = tree.subtrees ++ subtreesAll rest := by
  simp [subtreesAll, subtrees, subtreesAllOnto, ← subtreesOnto_append]

/-- All nodes, a node before those below it. -/
def nodes (tree : PlanTree) : List PlanNode := tree.subtrees.map root

/-- The subtree under the node with this id. -/
def find? (tree : PlanTree) (id : NodeId) : Option PlanTree :=
  tree.subtrees.find? fun subtree => subtree.id == id

/-- The node with this id. -/
def node? (tree : PlanTree) (id : NodeId) : Option PlanNode := (tree.find? id).map root

/-- The node that has the node with this id as a child. -/
def parentOf? (tree : PlanTree) (id : NodeId) : Option NodeId :=
  (tree.subtrees.find? fun subtree => subtree.children.any fun child => child.id == id).map
    PlanTree.id

mutual

/-- Rebuilds the node with this id from its record and the trees below it. -/
def alter (id : NodeId) (change : PlanNode → List PlanTree → PlanTree) : PlanTree → PlanTree
  | node root children =>
    if root.id = id then change root children else node root (alterAll id change children)

/-- Rebuilds the node with this id wherever it is in the trees. -/
def alterAll (id : NodeId) (change : PlanNode → List PlanTree → PlanTree) :
    List PlanTree → List PlanTree
  | [] => []
  | tree :: rest => alter id change tree :: alterAll id change rest

end

/-- Changes the record of the node with this id. -/
def update (tree : PlanTree) (id : NodeId) (change : PlanNode → PlanNode) : PlanTree :=
  tree.alter id fun root children => node (change root) children

/-- Adds a node as the last child of the node with this id. -/
def addChild (tree : PlanTree) (parent : NodeId) (fresh : PlanNode) : PlanTree :=
  tree.alter parent fun root children => node root (children ++ [node fresh []])

/-- Adds a node between the node with this id and everything below it. -/
def insertBelow (tree : PlanTree) (parent : NodeId) (fresh : PlanNode) : PlanTree :=
  tree.alter parent fun root children => node root [node fresh children]

mutual

/-- Largest trip count of the loops in the tree. -/
def maxProblemSize : PlanTree → Nat
  | node root children => max root.problemSize (maxProblemSizeAll children)

/-- Largest trip count of the loops in all trees. -/
def maxProblemSizeAll : List PlanTree → Nat
  | [] => 0
  | tree :: rest => max tree.maxProblemSize (maxProblemSizeAll rest)

end

mutual

/-- No operator in the tree runs as a distributed job. -/
def isLocalOnly : PlanTree → Bool
  | node root children => !root.isRemoteHop && isLocalOnlyAll children

/-- No operator in any of the trees runs as a distributed job. -/
def isLocalOnlyAll : List PlanTree → Bool
  | [] => true
  | tree :: rest => tree.isLocalOnly && isLocalOnlyAll rest

end

mutual

/-- A parallel loop is below the topmost node. -/
def hasNestedParallelism : PlanTree → Bool
  | node _ children => hasParallelismAny children

/-- A parallel loop is in one of the trees. -/
def hasParallelismAny : List PlanTree → Bool
  | [] => false
  | tree :: rest =>
    tree.root.kind == .parfor || tree.hasNestedParallelism || hasParallelismAny rest

end

mutual

/-- Number of workers that can be active at once in the tree. -/
def totalWorkers : PlanTree → Nat
  | node root children => root.fanOut * totalWorkersAll children

/-- Largest number of workers that can be active at once in one of the trees. -/
def totalWorkersAll : List PlanTree → Nat
  | [] => 1
  | tree :: rest => max tree.totalWorkers (totalWorkersAll rest)

end

mutual

/-- The listing of the tree, indented by its depth. -/
def explainAt (depth : Nat) : PlanTree → String
  | node root children =>
    String.ofList (List.replicate (2 * depth) ' ') ++ root.render ++
      explainAllAt (depth + 1) children

/-- The listings of all trees, indented by their depth. -/
def explainAllAt (depth : Nat) : List PlanTree → String
  | [] => ""
  | tree :: rest => tree.explainAt depth ++ explainAllAt depth rest

end

/-- A line for every node, indented by its depth. -/
def explain (tree : PlanTree) : String := tree.explainAt 0

end PlanTree

end ParallelLoop
