/-
# Recognising loops that were split

A loop that was split is recognised by the bounds of two nodes: its own, and those of the
only node below it. So whether it is recognised again depends on what the node below it
is by then and on nothing else that is decided about the two.

What a pass knows about the size of a loop comes from the trip counts in the records of
nodes, and these are the same for a parallel loop and for the sequential one that it is
demoted to.
-/

import ParallelLoop.Proofs.Plan.Ownership

namespace ParallelLoop

/-! ## Trip counts in a tree -/

/-- The trip count of a node, if it is a loop. -/
def PlanNode.trips (node : PlanNode) : PlanNode :=
  { id := node.id, kind := if node.kind.isLoop then .for else .generic, placement := .inProcess
    parameters := { numIterations := node.parameters.numIterations } }

theorem PlanNode.trips_demoted {node : PlanNode} (loop : node.kind = .parfor) (block : BlockId) :
    trips { node with block := some block, kind := .for, placement := .inProcess } =
      node.trips := by
  unfold trips
  rw [loop]
  rfl

theorem PlanNode.tripCount_trips (node : PlanNode) : node.trips.tripCount = node.tripCount :=
  tripCount_congr rfl rfl

theorem PlanNode.problemSize_trips (node : PlanNode) :
    node.trips.problemSize = node.problemSize := by
  have loop_eq : node.trips.kind.isLoop = node.kind.isLoop := by
    unfold trips
    dsimp only
    split
    next loop => rw [loop]; rfl
    next other => rw [Bool.eq_false_iff.mpr other]; rfl
  unfold problemSize
  rw [loop_eq, tripCount_trips]

namespace PlanTree

variable {tree other : PlanTree}

/-- The trip counts of the loops in a tree. -/
def trips (tree : PlanTree) : PlanTree := tree.mapNodes PlanNode.trips

theorem maxProblemSize_mapNodes {change : PlanNode → PlanNode}
    (same : ∀ node, (change node).problemSize = node.problemSize) (tree : PlanTree) :
    (tree.mapNodes change).maxProblemSize = tree.maxProblemSize := by
  induction tree using induction with
  | node root children ih =>
    have below : (children.map (mapNodes change)).map maxProblemSize =
        children.map maxProblemSize := by
      rw [List.map_map]
      exact List.map_congr_left ih
    rw [mapNodes_node, maxProblemSize, maxProblemSize, same, maxProblemSizeAll_eq_foldr,
      maxProblemSizeAll_eq_foldr, below]

theorem maxProblemSize_of_trips (same : other.trips = tree.trips) :
    other.maxProblemSize = tree.maxProblemSize := by
  have plain (tree : PlanTree) : tree.trips.maxProblemSize = tree.maxProblemSize :=
    maxProblemSize_mapNodes PlanNode.problemSize_trips tree
  rw [← plain, same, plain]

theorem tripCount_of_trips (same : other.trips = tree.trips) :
    other.root.tripCount = tree.root.tripCount := by
  have roots := congrArg (fun tree => tree.root.tripCount) same
  unfold trips at roots
  rwa [root_mapNodes, root_mapNodes, PlanNode.tripCount_trips, PlanNode.tripCount_trips] at roots

theorem id_of_trips (same : other.trips = tree.trips) : other.id = tree.id := by
  unfold trips at same
  exact id_of_mapNodes same fun _ => rfl

/-- The only tree below one is the only tree below the other, in every view that shows ids. -/
theorem exists_child_of_mapNodes {view : PlanNode → PlanNode}
    (keeps : ∀ node, (view node).id = node.id) (same : other.mapNodes view = tree.mapNodes view)
    {inner : PlanTree} (children_eq : other.children = [inner]) :
    ∃ twin, tree.children = [twin] ∧ inner.id = twin.id := by
  have lists := congrArg children same
  rw [children_mapNodes, children_mapNodes, children_eq, List.map_singleton] at lists
  obtain ⟨twin, twin_eq, inner_eq⟩ := List.map_eq_singleton_iff.mp lists.symm
  exact ⟨twin, twin_eq, id_of_mapNodes inner_eq.symm keeps⟩

end PlanTree

/-! ## Bounds of two loops -/

namespace Plan

variable {α : Type} {plan after : Plan α} {inner : PlanTree} {var : String}

/-- The trip count before a split, as the bounds of the outer and the inner loop show it. -/
def chunkCount (var : String) (outer inner : Option LoopBounds) : Except Error (Option Nat) :=
  match outer, inner with
  | some { var := counter, first := .const first, last := .const last, .. },
      some { first := .relative base .., step, .. } =>
    if counter = var ∧ base = var then (iterationCount first last step).map some else .ok none
  | _, _ => .ok none

theorem find?_root (tree : PlanTree) : tree.find? tree.id = some tree := by
  cases tree with
  | node root children =>
    rw [PlanTree.find?, PlanTree.subtrees_node, List.find?_cons_of_pos]
    simp

/-- Without a single parallel loop below it, a loop is not taken for one that was split. -/
theorem splitTripCount_of_not (other : ∀ inner, plan.tree.children = [inner] →
    inner.root.kind ≠ .parfor) : plan.splitTripCount plan.tree.id var = .ok none := by
  unfold splitTripCount
  rw [find?_root]
  dsimp only
  split
  next inner children => exact if_pos (other inner children)
  next => rfl

/-- Neither is a loop with no parallel loops in it. -/
theorem splitTripCount_of_flat (distinct : plan.tree.ids.Nodup)
    (flat : plan.tree.hasNestedParallelism = false) (var : String) :
    plan.splitTripCount plan.tree.id var = .ok none := by
  apply splitTripCount_of_not
  intro inner children
  have there : inner ∈ plan.tree.children := children ▸ List.mem_cons_self ..
  apply kind_ne_parfor flat (PlanTree.mem_nodes_of_child there inner.root_mem_nodes)
  exact PlanTree.id_ne_of_child distinct there inner.root_mem_nodes

/-- With one, its bounds and those of the loop below it tell. -/
theorem splitTripCount_eq (children : plan.tree.children = [inner])
    (parallel : inner.root.kind = .parfor) {outer nested : Block α}
    (outer_eq : plan.block? plan.tree.id = some outer)
    (nested_eq : plan.block? inner.id = some nested) :
    plan.splitTripCount plan.tree.id var =
      orFailure (chunkCount var outer.bounds nested.bounds) := by
  obtain ⟨outerId, outerBound, outerHeld⟩ := block?_eq_some_iff.mp outer_eq
  obtain ⟨nestedId, nestedBound, nestedHeld⟩ := block?_eq_some_iff.mp nested_eq
  unfold splitTripCount
  rw [find?_root]
  dsimp only
  rw [children]
  dsimp only
  rw [if_neg (not_not.mpr parallel), outerBound, Outcome.ok_bind, outerHeld, Outcome.ok_bind,
    nestedBound, Outcome.ok_bind, nestedHeld, Outcome.ok_bind]
  rfl

/-- A loop that was looked at has bounds that tell. -/
theorem chunkCount_of_splitTripCount {split : Option Nat} (children : plan.tree.children = [inner])
    (parallel : inner.root.kind = .parfor)
    (done : plan.splitTripCount plan.tree.id var = .ok split) :
    chunkCount var (plan.bounds? plan.tree.id) (plan.bounds? inner.id) = .ok split := by
  unfold splitTripCount at done
  rw [find?_root] at done
  dsimp only at done
  rw [children] at done
  dsimp only at done
  rw [if_neg (not_not.mpr parallel)] at done
  obtain ⟨outerId, outerBound, bound⟩ := Outcome.of_bind (Outcome.of_orFailure done)
  obtain ⟨outer, outerHeld, held⟩ := Outcome.of_bind bound
  obtain ⟨nestedId, nestedBound, alsoBound⟩ := Outcome.of_bind held
  obtain ⟨nested, nestedHeld, counted⟩ := Outcome.of_bind alsoBound
  rw [bounds?, bounds?, block?_eq_some_iff.mpr ⟨outerId, outerBound, outerHeld⟩,
    block?_eq_some_iff.mpr ⟨nestedId, nestedBound, nestedHeld⟩]
  exact counted

/-- Loops whose workers are in step have blocks. -/
theorem InStep.exists_block (inStep : plan.InStep) {id : NodeId} (loop : plan.IsLoop id) :
    ∃ block, plan.block? id = some block := by
  obtain ⟨node, there, rfl, parallel⟩ := loop
  obtain ⟨settings, found, -⟩ := inStep node there parallel
  obtain ⟨block, block_eq, -⟩ := Option.bind_eq_some_iff.mp found
  exact ⟨block, block_eq⟩

/-- A single node below a loop is known to be a loop when its id is that of one. -/
theorem parallel_of_isLoop {child : PlanTree} (distinct : plan.tree.ids.Nodup)
    (there : child ∈ plan.tree.children) (loop : plan.IsLoop child.id) :
    child.root.kind = .parfor := by
  obtain ⟨node, inside, same, parallel⟩ := loop
  have root_eq := PlanTree.eq_of_id_eq distinct inside
    (PlanTree.mem_nodes_of_child there child.root_mem_nodes) same
  rwa [← root_eq]

/-- A loop that is not taken for one that was split is not taken for one later, when loops keep their
bounds. -/
theorem splitTripCount_none (distinct : plan.tree.ids.Nodup)
    (whole : plan.splitTripCount plan.tree.id var = .ok none)
    (same : after.tree.trips = plan.tree.trips)
    (isLoop : ∀ {id}, after.IsLoop id → plan.IsLoop id)
    (bounds_eq : ∀ {id}, after.IsLoop id → after.bounds? id = plan.bounds? id)
    (inStep : after.InStep) (parallel : after.tree.root.kind = .parfor) :
    after.splitTripCount after.tree.id var = .ok none := by
  by_cases single : ∃ inner, after.tree.children = [inner] ∧ inner.root.kind = .parfor
  · obtain ⟨inner, children, alsoParallel⟩ := single
    have outerLoop : after.IsLoop after.tree.id := isLoop_root parallel
    have innerLoop : after.IsLoop inner.id := ⟨inner.root,
      PlanTree.mem_nodes_of_child (children ▸ List.mem_cons_self ..) inner.root_mem_nodes, rfl,
      alsoParallel⟩
    -- The same two loops were there before, with the same bounds.
    obtain ⟨twin, twin_children, id_eq⟩ :=
      PlanTree.exists_child_of_mapNodes (fun _ => by rfl) same children
    have twinLoop : plan.IsLoop twin.id := id_eq ▸ isLoop innerLoop
    have counted := chunkCount_of_splitTripCount twin_children
      (parallel_of_isLoop distinct (twin_children ▸ List.mem_cons_self ..) twinLoop) whole
    obtain ⟨outer, outer_eq⟩ := inStep.exists_block outerLoop
    obtain ⟨nested, nested_eq⟩ := inStep.exists_block innerLoop
    have outerBounds := bounds_eq outerLoop
    have nestedBounds := bounds_eq innerLoop
    rw [bounds?, outer_eq, Option.bind_some, PlanTree.id_of_trips same] at outerBounds
    rw [bounds?, nested_eq, Option.bind_some, id_eq] at nestedBounds
    rw [splitTripCount_eq children alsoParallel outer_eq nested_eq, outerBounds, nestedBounds,
      counted]
    rfl
  · exact splitTripCount_of_not fun inner children alsoParallel =>
      single ⟨inner, children, alsoParallel⟩

/-- Bounds are no decision. -/
theorem ignores_bounds : Ignores PlanNode.given (bounds? (α := α)) where
  settings _ _ := preserves_bounds_updateSettings
  memory _ _ := .modify fun _ => rfl
  records id change same := .modify fun plan => by
    have keeps : KeepsNode change :=
      ⟨fun node => (congrArg PlanNode.id (same node) :),
        fun node => (congrArg PlanNode.block (same node) :)⟩
    funext other
    unfold bounds?
    rw [block?_updateNode keeps]

/-- Trip counts are none, either. -/
theorem ignores_trips : Ignores PlanNode.given fun plan : Plan α => plan.tree.trips where
  settings id change := (preserves_tree_updateSettings id change).map PlanTree.trips
  memory _ _ := .modify fun _ => rfl
  records id change same := .modify fun plan => by
    have blind (node : PlanNode) (_ : node.id = id) : (change node).trips = node.trips :=
      (congrArg PlanNode.trips (same node) :)
    exact PlanTree.mapNodes_update blind plan.tree

end Plan

end ParallelLoop
