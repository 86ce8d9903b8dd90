/-
# Distributing workers again

A pass over an optimized loop first takes all workers away and then distributes them anew.
While it does so, the plan is the optimized one except for the workers of some loops:
`Plan.assign` overlays a plan with other workers, on both sides. Giving a loop the workers
that it has in the plan below takes it off the overlay, so that what is left of the overlay
when every loop got its workers back is nothing.
-/

import Mathlib.Logic.Function.Basic
import ParallelLoop.Proofs.Optimizer.Placing
import ParallelLoop.Proofs.Optimizer.WorkerBudget
import ParallelLoop.Proofs.Plan.Ownership

namespace ParallelLoop

variable {α : Type}

/-! ## Overlays of workers -/

namespace Program

/-- The program with the workers that are assigned to its blocks, where there are any. -/
def assign (workers : BlockId → Option Nat) (program : Program α) : Program α :=
  { program with
    blocks := program.blocks.mapIdx fun index block =>
      { block with
        settings := block.settings.map fun settings =>
          { settings with workers := (workers ⟨index⟩).getD settings.workers } } }

theorem getElem?_assign (workers : BlockId → Option Nat) (program : Program α) (id : BlockId) :
    (program.assign workers).blocks[id.index]? = program.blocks[id.index]?.map fun block =>
      { block with
        settings := block.settings.map fun settings =>
          { settings with workers := (workers id).getD settings.workers } } := by
  rw [assign, Array.getElem?_mapIdx]

/-- Programs with the same operators and the same blocks are the same. -/
theorem ext_blocks {program other : Program α} (hops : other.hops = program.hops)
    (blocks : ∀ id : BlockId, other.blocks[id.index]? = program.blocks[id.index]?) :
    other = program := by
  cases program
  cases other
  rw [Program.mk.injEq]
  exact ⟨Array.ext_getElem? fun index => blocks ⟨index⟩, hops⟩

end Program

namespace Plan

variable {plan : Plan α} {workers : NodeId → Option Nat} {node : PlanNode} {blockId : BlockId}

/-- The workers that an assignment to nodes assigns to a block. -/
def workersOf (plan : Plan α) (workers : NodeId → Option Nat) (block : BlockId) : Option Nat :=
  (plan.tree.nodes.find? fun node => node.block == some block).bind fun node => workers node.id

/-- The plan with the workers that are assigned to its nodes, where there are any. -/
def assign (workers : NodeId → Option Nat) (plan : Plan α) : Plan α where
  tree := plan.tree.mapNodes (PlanNode.assign workers)
  program := plan.program.assign (plan.workersOf workers)

/-- The block of a loop has the workers of the node that stands for it. -/
theorem workersOf_eq (owns : plan.OwnsBlocks) (there : node ∈ plan.tree.nodes)
    (loop : node.kind = .parfor) (bound : node.block = some blockId)
    (workers : NodeId → Option Nat) :
    plan.workersOf workers blockId = workers node.id := by
  have some : (plan.tree.nodes.find? fun node => node.block == some blockId).isSome :=
    List.find?_isSome.mpr ⟨node, there, beq_iff_eq.mpr bound⟩
  obtain ⟨found, found_eq⟩ := Option.isSome_iff_exists.mp some
  have alsoBound : found.block = Option.some blockId := by simpa using List.find?_some found_eq
  rw [workersOf, found_eq, Option.bind_some,
    owns node there loop found (List.mem_of_find?_eq_some found_eq) blockId bound alsoBound]

/-- What is assigned to one node shows in no other block. -/
theorem workersOf_update (distinct : plan.tree.ids.Nodup) (there : node ∈ plan.tree.nodes)
    (other : node.block ≠ some blockId) (own : Option Nat) :
    plan.workersOf (Function.update workers node.id own) blockId =
      plan.workersOf workers blockId := by
  unfold workersOf
  cases found : plan.tree.nodes.find? fun node => node.block == some blockId with
  | none => rfl
  | some twin =>
    have bound : twin.block = some blockId := by simpa using List.find?_some found
    have different : twin.id ≠ node.id := fun same => other <| by
      rw [← PlanTree.eq_of_id_eq distinct (List.mem_of_find?_eq_some found) there same, bound]
    rw [Option.bind_some, Option.bind_some, Function.update_of_ne different]

theorem assign_none (plan : Plan α) : plan.assign (fun _ => none) = plan := by
  have program : plan.program.assign (plan.workersOf fun _ => none) = plan.program := by
    refine Program.ext_blocks rfl fun id => ?_
    have none : plan.workersOf (fun _ => none) id = none := by
      unfold workersOf
      cases plan.tree.nodes.find? fun node => node.block == some id <;> rfl
    rw [Program.getElem?_assign, none]
    simp
  rw [assign, program, PlanTree.mapNodes_assign_eq_self fun _ _ => rfl]

theorem ids_assign (workers : NodeId → Option Nat) (plan : Plan α) :
    (plan.assign workers).tree.ids = plan.tree.ids := PlanTree.ids_mapNodes_assign plan.tree

theorem node?_assign (workers : NodeId → Option Nat) (plan : Plan α) (id : NodeId) :
    (plan.assign workers).tree.node? id = (plan.tree.node? id).map (PlanNode.assign workers) :=
  PlanTree.node?_mapNodes (fun _ => by rfl) plan.tree id

theorem blockOf_assign (workers : NodeId → Option Nat) (plan : Plan α) (id : NodeId) :
    (plan.assign workers).blockOf id = plan.blockOf id := by
  have bound : ((plan.assign workers).tree.node? id).bind PlanNode.block =
      (plan.tree.node? id).bind PlanNode.block := by
    rw [node?_assign]
    cases plan.tree.node? id <;> rfl
  unfold blockOf
  rw [bound]

/-- The settings of a loop whose workers are overlaid. -/
theorem exists_settings_assign {id : NodeId} {settings : ParallelSettings α}
    (found : plan.settings? id = some settings) (workers : NodeId → Option Nat) :
    ∃ blockId block, plan.blockOf id = .ok blockId ∧ plan.program.block blockId = .ok block ∧
      block.settings = some settings ∧
      ∃ overlaid, (plan.assign workers).settings id = .ok overlaid := by
  obtain ⟨block, there, settings_eq⟩ := Option.bind_eq_some_iff.mp found
  obtain ⟨blockId, bound, held⟩ := block?_eq_some_iff.mp there
  refine ⟨blockId, block, bound, held, settings_eq, ?_⟩
  have overlaid := Program.getElem?_assign (plan.workersOf workers) plan.program blockId
  rw [Program.getElem?_of_block held, Option.map_some] at overlaid
  have block_eq := block?_eq_some_iff.mpr
    ⟨blockId, (blockOf_assign workers plan id).trans bound, Program.block_of_getElem? overlaid⟩
  have read := congrArg (fun block => block.bind Block.settings) block_eq
  rw [Option.bind_some, settings_eq, Option.map_some] at read
  exact ⟨_, settings_eq_ok_iff.mpr read⟩

/-- Giving a loop workers puts them on the overlay. -/
theorem setWorkers_assign (distinct : plan.tree.ids.Nodup) (owns : plan.OwnsBlocks)
    (there : node ∈ plan.tree.nodes) (loop : node.kind = .parfor) {settings : ParallelSettings α}
    (found : plan.settings? node.id = some settings) (own : Nat) :
    (setWorkers node.id own).result (plan.assign workers) =
      (.ok (), plan.assign (Function.update workers node.id (some own))) := by
  obtain ⟨blockId, block, bound, held, settings_eq, overlaid, read⟩ :=
    exists_settings_assign found workers
  obtain ⟨twin, inside, same, block_eq⟩ := exists_node_of_blockOf bound
  obtain rfl := PlanTree.eq_of_id_eq distinct inside there same
  -- The node is changed on top of what it was overlaid with before.
  have tree_eq : (plan.assign workers).tree.update twin.id
      (fun node => { node with workers := own }) =
        plan.tree.mapNodes (PlanNode.assign (Function.update workers twin.id (some own))) := by
    rw [PlanTree.update_eq_mapNodes (by rwa [ids_assign]), assign, PlanTree.mapNodes_mapNodes]
    refine PlanTree.mapNodes_congr fun other _ => ?_
    rw [Function.comp_apply]
    unfold PlanNode.assign
    dsimp only
    split
    next here => rw [here, Function.update_self]; rfl
    next different => rw [Function.update_of_ne different]
  -- So is its block, and no other block belongs to it.
  have program_eq : (plan.assign workers).program.modifyBlock blockId (fun held =>
      { held with settings := held.settings.map fun settings =>
        { settings with workers := own } }) =
        plan.program.assign (plan.workersOf (Function.update workers twin.id (some own))) := by
    refine Program.ext_blocks rfl fun id => ?_
    rw [Program.getElem?_modifyBlock, assign, Program.getElem?_assign, Program.getElem?_assign,
      Program.getElem?_assign]
    by_cases here : id = blockId
    · rw [if_pos here, here, Program.getElem?_of_block held,
        workersOf_eq owns there loop block_eq, workersOf_eq owns there loop block_eq,
        Function.update_self, Option.map_some, Option.map_some, Option.map_some, settings_eq]
      rfl
    · have other : twin.block ≠ some id := fun same =>
        here (Option.some.inj (same.symm.trans block_eq))
      rw [if_neg here, workersOf_update distinct there other]
  rw [setWorkers, Change.result_bind
    (result_updateSettings ((blockOf_assign workers plan _).trans bound) read _), updateNode,
    Change.result_modify, program_eq]
  exact congrArg (fun tree => (Except.ok (), Plan.mk tree _)) tree_eq

/-- Assigning the workers that a loop has is assigning none. -/
theorem assign_update_own (distinct : plan.tree.ids.Nodup) (owns : plan.OwnsBlocks)
    (there : node ∈ plan.tree.nodes) (loop : node.kind = .parfor) {settings : ParallelSettings α}
    (found : plan.settings? node.id = some settings) (same : settings.workers = node.workers) :
    plan.assign (Function.update workers node.id (some node.workers)) =
      plan.assign (Function.update workers node.id none) := by
  obtain ⟨blockId, block, bound, held, settings_eq, -⟩ := exists_settings_assign found workers
  obtain ⟨twin, inside, twin_eq, block_eq⟩ := exists_node_of_blockOf bound
  obtain rfl := PlanTree.eq_of_id_eq distinct inside there twin_eq
  -- Wherever the assignments differ, the plan below has the workers that are assigned.
  have tree_eq : plan.tree.mapNodes
      (PlanNode.assign (Function.update workers twin.id (some twin.workers))) =
        plan.tree.mapNodes (PlanNode.assign (Function.update workers twin.id none)) := by
    refine PlanTree.mapNodes_congr fun other member => ?_
    unfold PlanNode.assign
    by_cases here : other.id = twin.id
    · obtain rfl := PlanTree.eq_of_id_eq distinct member inside here
      rw [Function.update_self, Function.update_self]
      rfl
    · rw [Function.update_of_ne here, Function.update_of_ne here]
  have program_eq : plan.program.assign
      (plan.workersOf (Function.update workers twin.id (some twin.workers))) =
        plan.program.assign (plan.workersOf (Function.update workers twin.id none)) := by
    refine Program.ext_blocks rfl fun id => ?_
    rw [Program.getElem?_assign, Program.getElem?_assign]
    by_cases here : twin.block = some id
    · obtain rfl := Option.some.inj (here.symm.trans block_eq)
      rw [Program.getElem?_of_block held, workersOf_eq owns inside loop here,
        workersOf_eq owns inside loop here, Function.update_self, Function.update_self,
        Option.map_some, Option.map_some, settings_eq, Option.map_some, Option.map_some, ← same]
      rfl
    · rw [workersOf_update distinct inside here, workersOf_update distinct inside here]
  rw [assign, assign, tree_eq, program_eq]

/-- Giving a loop its own workers takes it off the overlay. -/
theorem setWorkers_restore (distinct : plan.tree.ids.Nodup) (owns : plan.OwnsBlocks)
    (inStep : plan.InStep) (there : node ∈ plan.tree.nodes) (loop : node.kind = .parfor)
    (workers : NodeId → Option Nat) :
    (setWorkers node.id node.workers).result (plan.assign workers) =
      (.ok (), plan.assign (Function.update workers node.id none)) := by
  obtain ⟨settings, found, same⟩ := inStep node there loop
  rw [setWorkers_assign distinct owns there loop found,
    assign_update_own distinct owns there loop found same]

/-- Making loops serial overlays them with one worker. -/
theorem serializeNodes_assign (distinct : plan.tree.ids.Nodup) (owns : plan.OwnsBlocks)
    (inStep : plan.InStep) {nodes : List PlanNode} (members : ∀ node ∈ nodes, node ∈ plan.tree.nodes)
    (workers : NodeId → Option Nat) :
    (serializeNodes nodes).result (plan.assign workers) =
      (.ok (), plan.assign fun id => (serialWorkers nodes id).or (workers id)) := by
  induction nodes generalizing workers with
  | nil =>
    have none : (fun id => (serialWorkers [] id).or (workers id)) = workers := by
      funext id
      simp [serialWorkers]
    rw [none]
    rfl
  | cons node rest ih =>
    rw [List.forall_mem_cons] at members
    unfold serializeNodes
    split
    next loop =>
      obtain ⟨settings, found, -⟩ := inStep node members.1 loop
      rw [Change.result_bind (setWorkers_assign distinct owns members.1 loop found 1),
        ih members.2]
      congr 3
      funext id
      unfold serialWorkers
      -- A loop that is listed twice is overlaid twice, with the same workers.
      by_cases same : id = node.id
      · have first : ∃ other ∈ node :: rest, other.id = id ∧ other.kind = .parfor :=
          ⟨node, List.mem_cons_self .., same.symm, loop⟩
        rw [if_pos first, same, Function.update_self]
        split <;> rfl
      · rw [Function.update_of_ne same]
        simp [Ne.symm same]
    next other =>
      rw [ih members.2]
      congr 3
      funext id
      simp [serialWorkers, other]

/-- Without loops there is nothing to make serial. -/
theorem serializeNodes_eq_self {nodes : List PlanNode}
    (none : ∀ node ∈ nodes, node.kind ≠ .parfor) (plan : Plan α) :
    (serializeNodes nodes).result plan = (.ok (), plan) := by
  induction nodes with
  | nil => rfl
  | cons node rest ih =>
    rw [List.forall_mem_cons] at none
    rw [serializeNodes, if_neg none.1]
    exact ih none.2

/-- Only loops are assigned workers. -/
def AssignsLoops (plan : Plan α) (workers : NodeId → Option Nat) : Prop :=
  ∀ id, ¬ plan.IsLoop id → workers id = none

end Plan

/-! ## Distributing again -/

/-- The assignment without these nodes. -/
def withoutWorkers (ids : List NodeId) (workers : NodeId → Option Nat) : NodeId → Option Nat :=
  fun id => if id ∈ ids then none else workers id

theorem withoutWorkers_append (first second : List NodeId) (workers : NodeId → Option Nat) :
    withoutWorkers second (withoutWorkers first workers) =
      withoutWorkers (first ++ second) workers := by
  funext id
  unfold withoutWorkers
  by_cases later : id ∈ second
  · simp [later]
  · simp [later]

theorem withoutWorkers_cons (id : NodeId) (ids : List NodeId) (workers : NodeId → Option Nat) :
    withoutWorkers ids (Function.update workers id none) = withoutWorkers (id :: ids) workers := by
  funext other
  unfold withoutWorkers
  by_cases here : other = id
  · simp [here]
  · simp [here]

theorem withoutWorkers_eq_self {ids : List NodeId} {workers : NodeId → Option Nat}
    (none : ∀ id ∈ ids, workers id = none) : withoutWorkers ids workers = workers := by
  funext id
  unfold withoutWorkers
  split
  next listed => exact (none id listed).symm
  next => rfl

namespace Plan.AssignsLoops

variable {plan : Plan α} {workers : NodeId → Option Nat}

theorem without (loops : plan.AssignsLoops workers) (ids : List NodeId) :
    plan.AssignsLoops (withoutWorkers ids workers) := by
  intro id other
  unfold withoutWorkers
  rw [loops id other, ite_self]

theorem unset (loops : plan.AssignsLoops workers) (id : NodeId) :
    plan.AssignsLoops (Function.update workers id none) := by
  intro other sequential
  by_cases here : other = id
  · rw [here, Function.update_self]
  · rw [Function.update_of_ne here, loops other sequential]

/-- A node that is no loop is assigned nothing. -/
theorem eq_none (loops : plan.AssignsLoops workers) (distinct : plan.tree.ids.Nodup)
    {node : PlanNode} (there : node ∈ plan.tree.nodes) (sequential : node.kind ≠ .parfor) :
    workers node.id = none := by
  apply loops
  rintro ⟨twin, alsoThere, same, loop⟩
  rw [PlanTree.eq_of_id_eq distinct alsoThere there same] at loop
  exact sequential loop

/-- Without the nodes of the tree there is no assignment left. -/
theorem without_all (loops : plan.AssignsLoops workers) :
    withoutWorkers plan.tree.ids workers = fun _ => none := by
  funext id
  unfold withoutWorkers
  split
  next => rfl
  next absent =>
    apply loops
    rintro ⟨node, there, rfl, -⟩
    exact absent (List.mem_map_of_mem there)

end Plan.AssignsLoops

namespace PlanningRule

open PlanTree Plan

variable {plan : Plan α} {workers : NodeId → Option Nat} {limit : Nat} {tree : PlanTree}

/-- In a tree without parallel loops there is nothing to make serial. -/
theorem serialize_assign (distinct : plan.tree.ids.Nodup) (member : tree ∈ plan.tree.subtrees)
    (sequential : ∀ node ∈ tree.nodes, node.kind ≠ .parfor) (workers : NodeId → Option Nat) :
    (serialize tree.id).result (plan.assign workers) = (.ok (), plan.assign workers) := by
  have found : (plan.assign workers).tree.find? tree.id =
      some (tree.mapNodes (PlanNode.assign workers)) := by
    have there : tree.mapNodes (PlanNode.assign workers) ∈ (plan.assign workers).tree.subtrees :=
      mapNodes_mem_subtrees member
    have same : (tree.mapNodes (PlanNode.assign workers)).id = tree.id := by
      rw [PlanTree.id, root_mapNodes]
      rfl
    rw [← same]
    exact find?_eq_some (by rwa [ids_assign]) there
  rw [result_serialize found]
  apply serializeNodes_eq_self
  intro node there
  rw [nodes_mapNodes] at there
  obtain ⟨twin, listed, rfl⟩ := List.mem_map.mp there
  exact sequential twin listed

/-- Distributing among trees again, when distributing in each of them is known. -/
theorem distributeAll_assign {trees : List PlanTree} (snapshot : NodeId → Option Nat)
    (single : ∀ tree ∈ trees, ∀ workers, plan.AssignsLoops workers →
      (distribute limit (tree.mapNodes (PlanNode.assign snapshot))).result (plan.assign workers) =
        (.ok (), plan.assign (withoutWorkers tree.ids workers)))
    (loops : plan.AssignsLoops workers) :
    (distributeAll limit (trees.map (mapNodes (PlanNode.assign snapshot)))).result
        (plan.assign workers) =
      (.ok (), plan.assign (withoutWorkers (trees.flatMap ids) workers)) := by
  induction trees generalizing workers with
  | nil =>
    rw [withoutWorkers_eq_self (by simp)]
    rfl
  | cons tree rest ih =>
    rw [List.forall_mem_cons] at single
    rw [List.map_cons, distributeAll, Change.result_bind (single.1 workers loops),
      ih single.2 (loops.without tree.ids), withoutWorkers_append, List.flatMap_cons]

/-- Distributing in a tree the budget that its workers share gives all of them back. -/
theorem distribute_assign (distinct : plan.tree.ids.Nodup) (owns : plan.OwnsBlocks)
    (inStep : plan.InStep) (shared : tree.IsShared limit) (member : tree ∈ plan.tree.subtrees)
    (parallel : ∀ node ∈ tree.nodes, ¬ node.IsSerialLoop) (snapshot : NodeId → Option Nat)
    (loops : plan.AssignsLoops workers) :
    (distribute limit (tree.mapNodes (PlanNode.assign snapshot))).result (plan.assign workers) =
      (.ok (), plan.assign (withoutWorkers tree.ids workers)) := by
  have inside {tree : PlanTree} (member : tree ∈ plan.tree.subtrees) {node : PlanNode}
      (there : node ∈ tree.nodes) : node ∈ plan.tree.nodes :=
    (nodes_sublist member).subset there
  induction shared generalizing workers with
  | @spent limit tree none serial =>
    -- Loops without a share have one worker, so there are none.
    have sequential (node : PlanNode) (there : node ∈ tree.nodes) : node.kind ≠ .parfor :=
      fun loop => parallel node there ⟨loop, serial node there loop⟩
    have unassigned : withoutWorkers tree.ids workers = workers := by
      apply withoutWorkers_eq_self
      intro id listed
      obtain ⟨node, there, rfl⟩ := List.mem_map.mp listed
      exact loops.eq_none distinct (inside member there) (sequential node there)
    have unchanged := serialize_assign distinct member sequential workers
    cases tree with
    | node root children =>
      rw [mapNodes_node, distribute, if_pos none, unassigned]
      exact unchanged
  | @loop limit iterations root children some loop counted own below ih =>
    rw [nodes_node, List.forall_mem_cons] at parallel
    have there : root ∈ plan.tree.nodes := inside member (root_mem_nodes (node root children))
    have positive : 1 ≤ root.workers := own ▸ one_le_workersFor iterations limit
    have within : root.workers ≤ limit := own ▸ workersFor_le iterations (by omega)
    have trips : (root.assign snapshot).tripCount = root.tripCount :=
      PlanNode.tripCount_congr rfl rfl
    have isLoop : (root.assign snapshot).kind = .parfor := loop
    -- The loop comes off the overlay first, and then everything below it.
    have set : (setWorkers (root.assign snapshot).id root.workers).result (plan.assign workers) =
        (.ok (), plan.assign (Function.update workers root.id none)) :=
      setWorkers_restore distinct owns inStep there loop workers
    have rest := distributeAll_assign snapshot (fun child listed workers loops =>
      ih child listed (mem_subtrees_trans (mem_subtrees_of_mem_children listed) member)
        (fun node deeper => parallel.2 node (List.mem_flatMap.mpr ⟨child, listed, deeper⟩)) loops)
      (loops.unset root.id)
    rw [withoutWorkers_cons, ← ids_node] at rest
    rw [mapNodes_node, distribute, if_neg (by omega), if_pos isLoop, trips, counted,
      Change.result_bind (Change.result_ofExcept (.ok iterations) (plan.assign workers)), ← own,
      Change.result_bind set, remainingShare_eq positive within,
      Change.result_bind (Change.result_ofOutcome (.ok (limit / root.workers)) _), rest]
  | @other limit root children some sequential below ih =>
    rw [nodes_node, List.forall_mem_cons] at parallel
    have there : root ∈ plan.tree.nodes := inside member (root_mem_nodes (node root children))
    have notLoop : (root.assign snapshot).kind ≠ .parfor := sequential
    have rest := distributeAll_assign snapshot (fun child listed workers loops =>
      ih child listed (mem_subtrees_trans (mem_subtrees_of_mem_children listed) member)
        (fun node deeper => parallel.2 node (List.mem_flatMap.mpr ⟨child, listed, deeper⟩)) loops)
      loops
    rw [mapNodes_node, distribute, if_neg (by omega), if_neg notLoop, rest, ids_node,
      ← withoutWorkers_cons, ← loops.eq_none distinct there sequential, Function.update_eq_self]

/-- Once the topmost loop has its workers back, the trees below it get theirs. -/
theorem distributeAll_children_assign (distinct : plan.tree.ids.Nodup) (owns : plan.OwnsBlocks)
    (inStep : plan.InStep) (below : ∀ child ∈ plan.tree.children, child.IsShared limit)
    (parallel : ∀ child ∈ plan.tree.children, ∀ node ∈ child.nodes, ¬ node.IsSerialLoop)
    (snapshot : NodeId → Option Nat) (loops : plan.AssignsLoops workers) :
    (distributeAll limit (plan.assign snapshot).tree.children).result
      (plan.assign (Function.update workers plan.tree.id none)) = (.ok (), plan) := by
  have done := distributeAll_assign snapshot (fun child there _ loops =>
    distribute_assign distinct owns inStep (below child there) (mem_subtrees_of_child there)
      (parallel child there) snapshot loops) (loops.unset plan.tree.id)
  rw [withoutWorkers_cons, ← ids_eq_cons, loops.without_all, assign_none,
    ← children_mapNodes] at done
  exact done

variable [Quantity α] {context : PassContext α}

/-- The fifth rule gives all workers of a shared budget back. -/
theorem does_degreeOfParallelism (distinct : plan.tree.ids.Nodup) (owns : plan.OwnsBlocks)
    (inStep : plan.InStep) (loop : plan.tree.root.kind = .parfor)
    (parallel : ∀ child ∈ plan.tree.children, ∀ node ∈ child.nodes, ¬ node.IsSerialLoop)
    (shares : SharesBudget context plan.tree) (loops : plan.AssignsLoops workers) :
    (runDegreeOfParallelism context).Does (plan.assign workers) () plan := by
  have root_eq : (plan.assign workers).tree.root = plan.tree.root.assign workers := root_mapNodes _
  have budget_eq : localBudget context (plan.assign workers).tree =
      localBudget context plan.tree := by
    unfold localBudget
    rw [Plan.assign, isLocalOnly_assign]
  -- The root gets its workers back first, and the loops below it get theirs after that.
  have set : (setWorkers (plan.assign workers).tree.id plan.tree.root.workers).result
      (plan.assign workers) =
        (.ok (), plan.assign (Function.update workers plan.tree.id none)) := by
    rw [PlanTree.id, root_eq]
    exact setWorkers_restore distinct owns inStep (root_mem_nodes plan.tree) loop workers
  have hand {share : Nat} (below : ∀ child ∈ plan.tree.children, child.IsShared share) :
      (distributeAll share (plan.assign workers).tree.children).result
        (plan.assign (Function.update workers plan.tree.id none)) = (.ok (), plan) :=
    distributeAll_children_assign distinct owns inStep below parallel workers loops
  have report : Pass.Does (do
      let final := (← Pass.plan).tree
      degreeOfParallelism.report s!"k={final.root.workers} (total {final.totalWorkers})" :
        Pass α Unit) plan () plan := .bind (.readPlan plan) (.say plan _ _)
  refine .bind (.readPlan _) ?_
  dsimp only
  split
  next here =>
    rw [root_eq] at here
    obtain ⟨own, below⟩ := shares.inProcess here
    rw [budget_eq, ← own]
    have positive : 1 ≤ plan.tree.root.workers := own ▸ one_le_workersFor ..
    have within : plan.tree.root.workers ≤ localBudget context plan.tree :=
      own ▸ workersFor_le _ (one_le_localBudget context plan.tree)
    exact .bind (.onPlan set) (.bind (.ofOutcome (remainingShare_eq positive within) _)
      (.bind (.onPlan (hand below)) report))
  next elsewhere =>
    rw [root_eq] at elsewhere
    obtain ⟨own, below⟩ := shares.remote elsewhere
    rw [← own]
    exact .bind (.onPlan set) (.bind (.onPlan (hand below)) report)

end PlanningRule

/-! ## What is shared stays shared -/

namespace PlanNode

/-- What a node has to do with the sharing of workers: nothing, unless it is a parallel loop with
more than one. -/
def load (node : PlanNode) : PlanNode :=
  if node.kind = .parfor ∧ node.workers ≠ 1 then
    { id := node.id, kind := .parfor, placement := .inProcess, workers := node.workers
      parameters := { numIterations := node.parameters.numIterations } }
  else { id := node.id, kind := .generic, placement := .inProcess }

theorem load_of_loop {node : PlanNode} (loop : node.kind = .parfor) (several : node.workers ≠ 1) :
    node.load =
      { id := node.id, kind := .parfor, placement := .inProcess, workers := node.workers
        parameters := { numIterations := node.parameters.numIterations } } :=
  if_pos ⟨loop, several⟩

theorem load_of_other {node : PlanNode} (other : ¬ (node.kind = .parfor ∧ node.workers ≠ 1)) :
    node.load = { id := node.id, kind := .generic, placement := .inProcess } := if_neg other

/-- A loop with several workers is one that shows. -/
theorem kind_load {node : PlanNode} :
    node.load.kind = .parfor ↔ node.kind = .parfor ∧ node.workers ≠ 1 := by
  unfold load
  split
  next both => exact ⟨fun _ => both, fun _ => rfl⟩
  next neither => exact ⟨nofun, fun both => absurd both neither⟩

/-- A node that looks like no loop with several workers is no loop, unless it has one worker. -/
theorem kind_ne_of_load {node twin : PlanNode} (same : node.load = twin.load)
    (kept : ¬ node.IsSerialLoop) (none : ¬ (twin.kind = .parfor ∧ twin.workers ≠ 1)) :
    node.kind ≠ .parfor := by
  intro loop
  rw [← kind_load, ← same, kind_load] at none
  exact kept ⟨loop, not_not.mp fun several => none ⟨loop, several⟩⟩

/-- A node that looks like a loop with several workers is one, of as many iterations. -/
theorem of_load_of_loop {node twin : PlanNode} (same : node.load = twin.load)
    (loop : twin.kind = .parfor) (several : twin.workers ≠ 1) :
    node.kind = .parfor ∧ node.workers = twin.workers ∧ node.tripCount = twin.tripCount := by
  have shown := kind_load.mpr ⟨loop, several⟩
  rw [← same] at shown
  obtain ⟨alsoLoop, alsoSeveral⟩ := kind_load.mp shown
  rw [load_of_loop loop several, load_of_loop alsoLoop alsoSeveral, PlanNode.mk.injEq] at same
  obtain ⟨id_eq, -, -, text_eq, workers_eq, -⟩ := same
  exact ⟨alsoLoop, workers_eq, tripCount_congr id_eq (NodeParameters.mk.inj text_eq).1⟩

end PlanNode

namespace PlanTree

/-- Sharing is a matter of the loads, once no loop with one worker is left. -/
theorem IsShared.of_load {limit : Nat} {tree other : PlanTree} (shared : tree.IsShared limit)
    (same : other.mapNodes PlanNode.load = tree.mapNodes PlanNode.load)
    (parallel : ∀ node ∈ other.nodes, ¬ node.IsSerialLoop) : other.IsShared limit := by
  induction shared generalizing other with
  | @spent limit tree none serial =>
    refine .spent none fun node there loop => ?_
    obtain ⟨twin, inside, load_eq⟩ := exists_node_of_mapNodes same there
    refine absurd loop (PlanNode.kind_ne_of_load load_eq (parallel node there) fun both => ?_)
    exact both.2 (serial twin inside both.1)
  | @loop limit iterations root children some loop counted own shared ih =>
    cases other with
    | node otherRoot others =>
      rw [mapNodes_node, mapNodes_node, node.injEq] at same
      rw [nodes_node, List.forall_mem_cons] at parallel
      have each (child : PlanTree) (there : child ∈ others) :
          child.IsShared (limit / root.workers) := by
        obtain ⟨twin, inside, twin_eq⟩ := exists_tree_of_mapNodes same.2 there
        exact ih twin inside twin_eq fun node deeper =>
          parallel.2 node (List.mem_flatMap.mpr ⟨child, there, deeper⟩)
      by_cases several : root.workers = 1
      · -- The loop has one worker and hands all of its budget down.
        rw [several, Nat.div_one] at each
        exact .other some
          (PlanNode.kind_ne_of_load same.1 parallel.1 fun both => both.2 several) each
      · obtain ⟨alsoLoop, workers_eq, trips⟩ := PlanNode.of_load_of_loop same.1 loop several
        refine .loop some alsoLoop (trips.trans counted) (workers_eq.trans own) ?_
        rw [workers_eq]
        exact each
  | @other limit root children some notLoop shared ih =>
    cases other with
    | node otherRoot others =>
      rw [mapNodes_node, mapNodes_node, node.injEq] at same
      rw [nodes_node, List.forall_mem_cons] at parallel
      refine .other some
        (PlanNode.kind_ne_of_load same.1 parallel.1 fun both => notLoop both.1) ?_
      intro child there
      obtain ⟨twin, inside, twin_eq⟩ := exists_tree_of_mapNodes same.2 there
      exact ih twin inside twin_eq fun node deeper =>
        parallel.2 node (List.mem_flatMap.mpr ⟨child, there, deeper⟩)

end PlanTree

/-- Recording a text other than the trip count does not change what a node shares. -/
theorem PlanNode.load_setParam (node : PlanNode) {parameter : Parameter} (text : String)
    (other : parameter ≠ .numIterations) : (node.setParam parameter text).load = node.load := by
  cases parameter with
  | numIterations => exact absurd rfl other
  | _ => rfl

/-- A loop that shares a budget shares it as long as the loads are the same. -/
theorem PlanningRule.SharesBudget.of_load [Quantity α] {context : PassContext α}
    {tree other : PlanTree} (shares : SharesBudget context tree)
    (same : other.mapNodes PlanNode.load = tree.mapNodes PlanNode.load)
    (root : other.root.placement = tree.root.placement ∧ other.root.workers = tree.root.workers)
    (localOnly : other.isLocalOnly = tree.isLocalOnly)
    (parallel : ∀ child ∈ other.children, ∀ node ∈ child.nodes, ¬ node.IsSerialLoop) :
    SharesBudget context other := by
  have budget_eq : localBudget context other = localBudget context tree := by
    unfold localBudget
    rw [localOnly]
  have below {share : Nat} (shared : ∀ child ∈ tree.children, child.IsShared share) :
      ∀ child ∈ other.children, child.IsShared share := by
    intro child there
    have children := congrArg PlanTree.children same
    rw [PlanTree.children_mapNodes, PlanTree.children_mapNodes] at children
    obtain ⟨twin, inside, twin_eq⟩ := PlanTree.exists_tree_of_mapNodes children there
    exact (shared twin inside).of_load twin_eq (parallel child there)
  constructor
  · intro here
    obtain ⟨own, shared⟩ := shares.inProcess (root.1 ▸ here)
    rw [root.2, budget_eq]
    exact ⟨own, below shared⟩
  · intro elsewhere
    obtain ⟨own, shared⟩ := shares.remote (root.1 ▸ elsewhere)
    rw [root.2]
    exact ⟨own, below shared⟩

end ParallelLoop
