/-
# Plan trees in an arena

An arena keeps the nodes of a plan tree in one table, in the order of their creation,
each with the ids of the nodes right below it. Changing a tree in an arena appends a row
or rewrites some; no row is ever removed.

The subtree of a node is listed by a loop over a stack of ids. Nothing in the loop itself
makes it end: it ends because the rows form a tree.
-/

import ParallelLoop.Plan.Tree

namespace ParallelLoop

/-- The nodes of a plan tree by id, each with the ids of the nodes right below it. -/
structure PlanArena where
  rows : Array (PlanNode × List NodeId)
  /-- The topmost node. -/
  root : NodeId
  deriving DecidableEq, Repr

namespace PlanArena

/-- Number of nodes. -/
def size (arena : PlanArena) : Nat := arena.rows.size

/-- The id that a fresh node gets. -/
def freshId (arena : PlanArena) : NodeId := .ofCount arena.size

/-- The row of a node. -/
def row? (arena : PlanArena) (id : NodeId) : Option (PlanNode × List NodeId) :=
  arena.rows[id.index]?

/-- The record of a node. -/
def node? (arena : PlanArena) (id : NodeId) : Option PlanNode := (arena.row? id).map Prod.fst

/-- The nodes right below one. -/
def below (arena : PlanArena) (id : NodeId) : List NodeId :=
  ((arena.row? id).map Prod.snd).getD []

/-! ## Changes -/

/-- The arena of a single node. -/
def single (top : PlanNode) : PlanArena := { rows := #[(top, [])], root := top.id }

/-- Appends a node that is below no other one yet. -/
def push (arena : PlanArena) (fresh : PlanNode) : PlanArena :=
  { arena with rows := arena.rows.push (fresh, []) }

/-- Changes the row of a node. -/
def modify (arena : PlanArena) (id : NodeId)
    (change : PlanNode × List NodeId → PlanNode × List NodeId) : PlanArena :=
  { arena with rows := arena.rows.modify id.index change }

/-- Changes which nodes are right below one. -/
def relist (arena : PlanArena) (id : NodeId) (change : List NodeId → List NodeId) : PlanArena :=
  arena.modify id fun row => (row.1, change row.2)

/-- Changes the record of a node. -/
def update (arena : PlanArena) (id : NodeId) (change : PlanNode → PlanNode) : PlanArena :=
  arena.modify id fun row => (change row.1, row.2)

/-- Adds a node as the last one below another, which has to be there: the id that the new node gets
would make it a node below itself. -/
def addChild (arena : PlanArena) (parent : NodeId) (fresh : PlanNode) : PlanArena :=
  (arena.push fresh).relist parent fun below => below ++ [fresh.id]

/-- Adds a node between another one and everything below it: the new node takes over the list of
the other one, which is left with the new node alone. -/
def insertBelow (arena : PlanArena) (parent : NodeId) (fresh : PlanNode) : PlanArena :=
  let grown := arena.push fresh
  let moved := grown.below parent
  let taken := grown.relist parent fun _ => []
  let given := taken.relist fresh.id fun _ => moved
  given.relist parent fun below => below ++ [fresh.id]

/-! ## Looking around -/

/-- The first node that has the node with this id right below it. -/
def parentOf? (arena : PlanArena) (id : NodeId) : Option NodeId :=
  (arena.rows.find? fun (_, below) => below.contains id).map fun (node, _) => node.id

/-- Puts ids on a stack, one after the other. -/
def pushAll (ids stack : List NodeId) : List NodeId := ids.foldl (fun stack id => id :: stack) stack

/-- Visits the nodes on a stack, topmost first. A node is visited before those right below it, which
take its place on the stack. There is no result when a node is missing, or when it never ends. -/
def visit (arena : PlanArena) (stack : List NodeId) (visited : Array NodeId) :
    Option (Array NodeId) :=
  match stack with
  | [] => some visited
  | next :: rest => do
    let (_, below) ← arena.row? next
    arena |>.visit (pushAll below.reverse rest) (visited.push next)
partial_fixpoint

/-- The node with this id and all nodes below it, in the order in which they are visited. -/
def descendants (arena : PlanArena) (id : NodeId) : Option (List NodeId) :=
  (arena.visit [id] #[]).map Array.toList

end PlanArena

/-- The rows of a tree by id. -/
def PlanTree.arena (tree : PlanTree) : PlanArena where
  rows :=
    let subtrees := tree.subtrees
    let row? (index : Nat) : Option (PlanNode × List NodeId) :=
      (subtrees.find? fun subtree => subtree.id == ⟨index⟩).map fun subtree =>
        (subtree.root, subtree.children.map PlanTree.id)
    ((List.range tree.size).filterMap row?).toArray
  root := tree.id

end ParallelLoop
