/-
# Plans after a split and after a demotion

Splitting and demoting look everything up before they change anything. A split that
succeeds puts one node and one block in between, and a demotion that succeeds replaces
the block of one node; this module says which.
-/

import ParallelLoop.Plan.Nesting
import ParallelLoop.Proofs.Plan.Decisions

namespace ParallelLoop

namespace PlanTree

variable {tree : PlanTree} {id : NodeId} {change : PlanNode → PlanNode}

/-- A change of a record that keeps its id keeps all ids. -/
theorem ids_update (keeps : ∀ node, (change node).id = node.id) (tree : PlanTree) :
    (tree.update id change).ids = tree.ids := by
  unfold update
  induction tree using induction with
  | node root children ih =>
    rw [alter]
    split
    next => rw [ids_node, ids_node, keeps]
    next =>
      rw [ids_node, ids_node, alterAll_eq_map, List.flatMap_map]
      congr 1
      exact List.flatMap_congr ih

theorem root_update_of_ne (different : tree.root.id ≠ id) :
    (tree.update id change).root = tree.root := by
  cases tree with
  | node root children =>
    have other : ¬ root.id = id := different
    unfold update
    rw [alter, if_neg other]
    rfl

theorem update_root (root : PlanNode) (children : List PlanTree) :
    (node root children).update root.id change = node (change root) children := by
  unfold update
  rw [alter, if_pos rfl]

theorem insertBelow_root (root fresh : PlanNode) (children : List PlanTree) :
    (node root children).insertBelow root.id fresh = node root [node fresh children] := by
  unfold insertBelow
  rw [alter, if_pos rfl]

end PlanTree

namespace Plan

variable {α : Type} {plan after : Plan α} {id inner : NodeId}

/-- The node of the inner loop of a split. -/
def innerNode (plan : Plan α) (chunk : Nat) : PlanNode :=
  { id := plan.tree.freshId, kind := .parfor, placement := .inProcess
    parameters := { numIterations := some (toString chunk) }
    block := some plan.program.nextBlock }

/-- What a split makes of the node of the outer loop. -/
def outerNode (count chunk : Nat) (node : PlanNode) : PlanNode :=
  { node with placement := .remote }.setParam .numIterations (toString (divideUp count chunk))

/-- What a split makes of the block of the outer loop. -/
def outerBlock (plan : Plan α) (bounds : LoopBounds) (block : Block α) : Block α :=
  { block with
    bounds := some bounds
    children := [plan.program.nextBlock]
    settings := block.settings.map fun settings => { settings with mode := .remote } }

theorem bounds_of_boundsOf {block : Block α} {bounds : LoopBounds}
    (found : boundsOf id block = .ok bounds) : block.bounds = some bounds := by
  unfold boundsOf at found
  split at found
  next held =>
    cases found
    exact held
  next => cases found

/-- Chunks have at least one iteration. -/
theorem splitLoop_max (id : NodeId) (chunk : Nat) (outerVar : String) :
    (splitLoop id (max chunk 1) outerVar : Change (Plan α) NodeId) =
      splitLoop id chunk outerVar := by
  unfold splitLoop
  rw [Nat.max_eq_left (Nat.le_max_right chunk 1)]

/-- A split that succeeds, of a loop with these blocks. -/
theorem of_splitLoop {chunk : Nat} {outerVar : String}
    (done : (splitLoop id chunk outerVar).result plan = (.ok inner, after)) :
    ∃ blockId block node count bounds settings steps, plan.blockOf id = .ok blockId ∧
      plan.program.block blockId = .ok block ∧ plan.node id = .ok node ∧
      node.tripCount = .ok count ∧ block.bounds = some bounds ∧ plan.settings id = .ok settings ∧
      ChunkSteps.ofChunk (max chunk 1) bounds.step = .ok steps ∧
      after.tree = (plan.tree.insertBelow id (plan.innerNode (max chunk 1))).update id
        (outerNode count (max chunk 1)) ∧
      after.program = (plan.program.addBlock (.parallel (bounds.withinChunk outerVar steps)
        { settings with mode := .inProcess } block.children)).modifyBlock blockId
          (plan.outerBlock (bounds.chunks outerVar steps)) := by
  obtain ⟨blockId, blockId_eq, bound⟩ := Change.of_inspect_bind done
  obtain ⟨node, node_eq, found⟩ := Change.of_ofOutcome_bind (Change.of_get_bind bound)
  obtain ⟨count, count_eq, counted⟩ := Change.of_ofExcept_bind found
  obtain ⟨block, block_eq, held⟩ := Change.of_inspect_bind counted
  obtain ⟨bounds, bounds_eq, bounded⟩ := Change.of_ofExcept_bind held
  obtain ⟨settings, settings_eq, parallel⟩ := Change.of_inspect_bind bounded
  obtain ⟨steps, steps_eq, stepped⟩ := Change.of_ofOutcome_bind parallel
  have changed := Change.of_get_bind (Change.of_get_bind stepped)
  cases changed
  exact ⟨blockId, block, node, count, bounds, settings, steps, blockId_eq, block_eq, node_eq,
    count_eq, bounds_of_boundsOf bounds_eq, settings_eq, steps_eq, rfl, rfl⟩

/-- A split that finds everything that it looks up. -/
theorem result_splitLoop {chunk count : Nat} {blockId : BlockId} {block : Block α} {node : PlanNode}
    {bounds : LoopBounds} {settings : ParallelSettings α} {steps : ChunkSteps}
    (bound : plan.blockOf id = .ok blockId) (held : plan.program.block blockId = .ok block)
    (found : plan.node id = .ok node) (counted : node.tripCount = .ok count)
    (bounds_eq : block.bounds = some bounds) (read : plan.settings id = .ok settings)
    (steps_eq : ChunkSteps.ofChunk (max chunk 1) bounds.step = .ok steps) (outerVar : String) :
    (splitLoop id chunk outerVar).result plan = (.ok plan.tree.freshId,
      { tree := (plan.tree.insertBelow id (plan.innerNode (max chunk 1))).update id
          (outerNode count (max chunk 1))
        program := (plan.program.addBlock (.parallel (bounds.withinChunk outerVar steps)
          { settings with mode := .inProcess } block.children)).modifyBlock blockId
            (plan.outerBlock (bounds.chunks outerVar steps)) }) := by
  have limits : boundsOf id block = .ok bounds := by rw [boundsOf, bounds_eq]
  refine (Change.result_inspect_bind (fun plan : Plan α => plan.blockOf id) bound).trans ?_
  refine (Change.result_bind (Change.result_get plan)).trans ?_
  refine (Change.result_ofOutcome_bind found).trans ?_
  refine (Change.result_ofExcept_bind counted).trans ?_
  refine (Change.result_inspect_bind (fun plan : Plan α => plan.program.block blockId)
    held).trans ?_
  refine (Change.result_ofExcept_bind limits).trans ?_
  refine (Change.result_inspect_bind (fun plan : Plan α => plan.settings id) read).trans ?_
  exact Change.result_ofOutcome_bind steps_eq

/-- A split gives the new node. -/
theorem inner_eq_of_splitLoop {chunk : Nat} {outerVar : String}
    (done : (splitLoop id chunk outerVar).result plan = (.ok inner, after)) :
    inner = plan.tree.freshId := by
  obtain ⟨_, _, _, _, _, _, _, bound, held, found, counted, bounds_eq, read, steps_eq, -, -⟩ :=
    of_splitLoop done
  rw [result_splitLoop bound held found counted bounds_eq read steps_eq] at done
  exact (Except.ok.inj (congrArg Prod.fst done)).symm

/-- A demotion that succeeds. -/
theorem of_demote (done : (demote id).result plan = (.ok (), after)) :
    ∃ old block bounds, plan.blockOf id = .ok old ∧ plan.program.block old = .ok block ∧
      block.bounds = some bounds ∧
      after.tree = plan.tree.update id (fun node =>
        { node with
          block := some plan.program.nextBlock, kind := .for, placement := .inProcess }) ∧
      after.program = plan.program.replaceBlock old (.sequential bounds block.children) := by
  obtain ⟨old, old_eq, found⟩ := Change.of_inspect_bind done
  obtain ⟨block, block_eq, bounded⟩ := Change.of_inspect_bind found
  obtain ⟨bounds, bounds_eq, changed⟩ := Change.of_ofExcept_bind bounded
  have changed := Change.of_get_bind changed
  cases changed
  exact ⟨old, block, bounds, old_eq, block_eq, bounds_of_boundsOf bounds_eq, rfl, rfl⟩

end Plan

end ParallelLoop
