/-
# What a split makes of a loop

A split makes two loops of one. `Plan.Division` names what it was given and what it leaves:
the node of the loop, now for the loop over chunks, a new node between it and the body, and
the blocks of both. Everything else that is decided about the loop stays with the outer one,
and the inner one starts with the same settings.

Two loops that are serial need as much memory as one, and the larger of their trip counts is
no larger than that of the loop. The bounds of the two show the trip count of the loop, so
it can be told from them as long as the inner loop is one.
-/

import ParallelLoop.Proofs.Plan.Recognition
import ParallelLoop.Proofs.Plan.TripCount

namespace ParallelLoop

/-- A quotient rounded up is at most what is divided. -/
theorem divideUp_le {num den : Nat} (positive : 1 ≤ den) : divideUp num den ≤ num := by
  unfold divideUp
  rw [Nat.div_le_iff_le_mul_add_pred positive]
  have most := Nat.le_mul_of_pos_left num positive
  omega

/-- A quotient rounded up is at least one when what is divided is as large as what it is divided
by. -/
theorem one_le_divideUp {num den : Nat} (positive : 1 ≤ den) (enough : den ≤ num) :
    1 ≤ divideUp num den := Nat.div_pos (by omega) positive

/-- The nodes of a tree in which a new one was put below the topmost one. -/
theorem PlanTree.node?_insert {root outer : PlanNode} (same : outer.id = root.id)
    (inner : PlanNode) (children : List PlanTree) (id : NodeId) :
    (node outer [node inner children]).node? id =
      if id = root.id then some outer
      else if id = inner.id then some inner else (node root children).node? id := by
  rw [node?_node, List.findSome?_singleton, node?_node, node?_node, same]
  by_cases top : root.id = id
  · rw [if_pos top, if_pos top.symm]
  · rw [if_neg top, if_neg (Ne.symm top), if_neg top]
    simp only [eq_comm]

/-- A node whose text is a count is no larger than this count. -/
theorem PlanNode.problemSize_le {node : PlanNode} {count : Nat} (fits : count ≤ Word.maxCount)
    (recorded : node.parameters.numIterations = some (toString count)) :
    node.problemSize ≤ count := by
  unfold problemSize
  rw [tripCount_eq fits recorded]
  split
  · exact Nat.le_refl count
  · exact Nat.zero_le count

namespace Plan

variable {α β γ : Type} {plan after : Plan α} {chunk : Nat} {var : String} {id inner : NodeId}

/-- The loop of a plan before and after it is split into chunks that a variable counts. -/
structure Division (plan after : Plan α) (chunk : Nat) (var : String) where
  root : PlanNode
  children : List PlanTree
  block : Block α
  bounds : LoopBounds
  settings : ParallelSettings α
  steps : ChunkSteps
  /-- The trip count of the loop. -/
  count : Nat
  before : plan.tree = .node root children
  tree_eq : after.tree = .node (outerNode count chunk root) [.node (plan.innerNode chunk) children]
  counted : root.tripCount = .ok count
  block_eq : plan.block? plan.tree.id = some block
  bounds_eq : block.bounds = some bounds
  settings_eq : block.settings = some settings
  outer_eq : after.block? plan.tree.id = some (plan.outerBlock (bounds.chunks var steps) block)
  inner_eq : after.block? plan.tree.freshId = some (.parallel (bounds.withinChunk var steps)
    { settings with mode := .inProcess } block.children)
  hops_eq : after.program.hops = plan.program.hops

/-- The block of a node that is found. -/
theorem block?_of_node? {node : PlanNode} {blockId : BlockId} {block : Block α}
    (found : plan.tree.node? id = some node) (bound : node.block = some blockId)
    (held : plan.program.block blockId = .ok block) : plan.block? id = some block := by
  rw [block?, found, Option.bind_some, bound, Option.bind_some, Program.getElem?_of_block held]

/-- The bounds of a loop between constants. -/
theorem HasConstantBounds.bounds?_root {top : BlockId} {bounds : LoopBounds} {count : Nat}
    (constant : plan.HasConstantBounds top bounds count) :
    plan.bounds? plan.tree.id = some bounds := by
  obtain ⟨block, held, bounds_eq⟩ := constant.block
  rw [bounds?, block?_of_node? (PlanTree.node?_root plan.tree) constant.root held,
    Option.bind_some, bounds_eq]

/-- A split that succeeds is a division. -/
theorem exists_division (numbered : plan.tree.IsNumbered)
    (done : (splitLoop plan.tree.id chunk var).result plan = (.ok inner, after)) :
    Nonempty (Division plan after (max chunk 1) var) := by
  obtain ⟨blockId, block, node, count, bounds, settings, steps, bound, held, found, counted,
    bounds_eq, read, -, tree_eq, program_eq⟩ := of_splitLoop done
  have fresh := numbered.freshId_not_mem
  have top := blockOf_root numbered.distinct bound
  obtain ⟨root, children, before⟩ := plan.tree.exists_eq_node
  have id_eq : plan.tree.id = root.id := by rw [before]; rfl
  have node_eq : node = root := by
    have root_eq := PlanTree.node?_root plan.tree
    unfold Plan.node at found
    rw [root_eq, before] at found
    exact (Except.ok.inj found).symm
  -- The record of the outer loop is changed in place, and the inner loop is put below it.
  have after_eq : after.tree = .node (outerNode count (max chunk 1) root)
      [.node (plan.innerNode (max chunk 1)) children] := by
    rw [tree_eq, id_eq, before, PlanTree.insertBelow_root, PlanTree.update_root]
  have same : (outerNode count (max chunk 1) root).id = root.id := rfl
  have nodes (id : NodeId) :=
    PlanTree.node?_insert same (plan.innerNode (max chunk 1)) children id
  rw [← after_eq, ← before] at nodes
  have blocks (id : BlockId) := congrArg (fun program => program.block id) program_eq
  simp only [Program.block_addBlock_modifyBlock held] at blocks
  -- The node and the block that are added are none of those that were there.
  have inside : plan.tree.root.block = root.block := by rw [before]; rfl
  have nextBlock : plan.program.nextBlock ≠ blockId :=
    (Program.ne_nextBlock (Program.index_lt_of_kind? (Program.kind?_of_block held))).symm
  have nextNode : plan.tree.freshId ≠ root.id := by
    rintro same
    rw [before, PlanTree.ids_node] at fresh
    exact fresh (by rw [← before, same]; exact List.mem_cons_self ..)
  have block_eq : plan.block? plan.tree.id = some block :=
    block?_of_node? (PlanTree.node?_root plan.tree) top held
  have settings_eq : block.settings = some settings := by
    have read := settings_eq_ok_iff.mp read
    rwa [settings?, block_eq, Option.bind_some] at read
  refine ⟨{ root, children, block, bounds, settings, steps, count, before
            tree_eq := after_eq
            counted := node_eq ▸ counted
            block_eq, bounds_eq, settings_eq
            outer_eq := ?_, inner_eq := ?_, hops_eq := ?_ }⟩
  · refine block?_of_node? ((nodes _).trans (if_pos id_eq)) (inside.symm.trans top) ?_
    exact (blocks blockId).trans (if_pos rfl)
  · refine block?_of_node? ((nodes _).trans ((if_neg nextNode).trans (if_pos rfl))) rfl ?_
    exact (blocks _).trans ((if_neg nextBlock).trans (if_pos rfl))
  · rw [program_eq]
    rfl

namespace Division

variable (division : Division plan after chunk var)

include division

theorem id_eq : after.tree.id = plan.tree.id := by
  rw [division.tree_eq, division.before]
  rfl

theorem children_eq :
    after.tree.children = [.node (plan.innerNode chunk) division.children] := by
  rw [division.tree_eq]
  rfl

theorem headId?_eq : after.tree.headId? = some plan.tree.freshId := by
  rw [PlanTree.headId?, division.children_eq]
  rfl

/-- The nodes of the two loops are what a split makes them, and the others stay. -/
theorem node?_eq (id : NodeId) : after.tree.node? id =
    if id = plan.tree.id then some (outerNode division.count chunk division.root)
    else if id = plan.tree.freshId then some (plan.innerNode chunk)
    else plan.tree.node? id := by
  have id_eq : plan.tree.id = division.root.id := by rw [division.before]; rfl
  have same : (outerNode division.count chunk division.root).id = division.root.id := rfl
  have nodes := PlanTree.node?_insert same (plan.innerNode chunk) division.children id
  rwa [← division.tree_eq, ← division.before, ← id_eq] at nodes

theorem root_eq : plan.tree.root = division.root := by
  rw [division.before]
  rfl

theorem node?_root : plan.tree.node? plan.tree.id = some division.root := by
  rw [PlanTree.node?_root, division.root_eq]

theorem root_kind_eq : after.tree.root.kind = plan.tree.root.kind := by
  rw [division.tree_eq, division.before]
  rfl

/-- The inner loop is a parallel loop. -/
theorem isLoop_inner : after.IsLoop plan.tree.freshId := by
  refine ⟨plan.innerNode chunk, ?_, rfl, rfl⟩
  rw [division.tree_eq, PlanTree.nodes_node, List.flatMap_singleton]
  exact List.mem_cons_of_mem _ (PlanTree.root_mem_nodes _)

theorem bounds?_inner :
    after.bounds? plan.tree.freshId = some (division.bounds.withinChunk var division.steps) := by
  rw [bounds?, division.inner_eq]
  rfl

theorem bounds?_outer :
    after.bounds? after.tree.id = some (division.bounds.chunks var division.steps) := by
  rw [bounds?, division.id_eq, division.outer_eq]
  rfl

theorem bounds?_root : plan.bounds? plan.tree.id = some division.bounds := by
  rw [bounds?, division.block_eq]
  exact division.bounds_eq

theorem settings?_root : plan.settings? plan.tree.id = some division.settings := by
  rw [settings?, division.block_eq]
  exact division.settings_eq

theorem settings?_outer :
    after.settings? after.tree.id = some { division.settings with mode := .remote } := by
  rw [settings?, division.id_eq, division.outer_eq, Option.bind_some, outerBlock,
    division.settings_eq]
  rfl

/-- What is decided about the loop stays with the outer one, except for where it runs. -/
theorem decided_outer {aspect : Aspect α β γ}
    (blindRecord : ∀ text, aspect.record
      (PlanNode.setParam { division.root with placement := .remote } .numIterations text) =
        aspect.record division.root)
    (blindSettings : ∀ settings, aspect.setting { settings with mode := .remote } =
      aspect.setting settings) :
    after.decided aspect after.tree.id = plan.decided aspect plan.tree.id := by
  rw [decided, decided, division.settings?_outer, division.settings?_root, division.id_eq,
    division.node?_eq, if_pos rfl, division.node?_root]
  refine Prod.ext ?_ ?_
  · exact congrArg some (blindRecord _)
  · exact congrArg some (blindSettings _)

theorem placement_outer :
    after.decided .placement after.tree.id = (some .remote, some .remote) := by
  rw [decided, division.settings?_outer, division.id_eq, division.node?_eq, if_pos rfl]
  rfl

/-- The workers of the inner loop are those of a new node and those of the loop. -/
theorem workers_inner (numbered : plan.tree.IsNumbered) :
    after.decided .workers plan.tree.freshId = (some 1, some division.settings.workers) := by
  have different : plan.tree.freshId ≠ plan.tree.id := by
    intro same
    have listed : plan.tree.id ∈ plan.tree.ids :=
      List.mem_map_of_mem (PlanTree.root_mem_nodes plan.tree)
    exact numbered.freshId_not_mem (same ▸ listed)
  rw [decided, settings?, division.inner_eq, division.node?_eq, if_neg different, if_pos rfl]
  rfl

/-- The parallel loops after a split of the only one. -/
theorem isLoop_cases (flat : plan.tree.hasNestedParallelism = false) (loop : after.IsLoop id) :
    id = after.tree.id ∨ id = plan.tree.freshId := by
  obtain ⟨node, there, rfl, parallel⟩ := loop
  rw [division.tree_eq, PlanTree.nodes_node, List.flatMap_singleton, PlanTree.nodes_node,
    List.mem_cons, List.mem_cons] at there
  rcases there with rfl | rfl | below
  · exact .inl (by rw [division.tree_eq]; rfl)
  · exact .inr rfl
  · by_contra other
    rw [not_or, division.id_eq] at other
    have inside : node ∈ plan.tree.nodes := by
      rw [division.before, PlanTree.nodes_node]
      exact List.mem_cons_of_mem _ below
    exact kind_ne_parfor flat inside other.1 parallel

/-- Two loops are as serial as the one. -/
theorem isSerial (numbered : plan.tree.IsNumbered)
    (parallel : plan.tree.root.kind = .parfor)
    (flat : plan.tree.hasNestedParallelism = false) (serial : plan.IsSerial) : after.IsSerial := by
  have outer := serial plan.tree.id (isLoop_root parallel)
  intro id loop
  rcases division.isLoop_cases flat loop with rfl | rfl
  · rw [division.decided_outer (fun _ => rfl) fun _ => rfl, outer]
  · have workers := congrArg Prod.snd outer
    rw [decided, division.settings?_root] at workers
    rw [division.workers_inner numbered]
    exact Prod.ext rfl workers

section Memory

variable (formed : plan.IsFormed)

include formed

theorem root_kind_ne_hop : division.root.kind ≠ .hop := by
  obtain ⟨id, bound⟩ := Option.isSome_iff_exists.mp formed.top
  have loop := formed.kind_ne_hop (PlanTree.root_mem_nodes plan.tree) bound
  rwa [division.before] at loop

/-- The tree laid bare has one node more. -/
theorem bare_eq : after.tree.bare = .node division.root.bare
    [.node (plan.innerNode chunk).bare (division.children.map PlanTree.bare)] := by
  have outer : (outerNode division.count chunk division.root).bare = division.root.bare := by
    have other := division.root_kind_ne_hop formed
    rw [PlanNode.bare_of_ne_hop other]
    exact PlanNode.bare_of_ne_hop other
  rw [division.tree_eq, PlanTree.bare_node, outer, List.map_singleton, PlanTree.bare_node]

/-- As long as they have one worker each, two loops need what one needs. -/
theorem memory_eq [Quantity α] [Quantity.IsLawful α] (remoteCost : α) :
    after.program.memory remoteCost after.tree.bare =
      plan.program.memory remoteCost plan.tree.bare := by
  have single (node : PlanNode) : node.bare.fanOut = 1 := if_neg node.kind_bare_ne_parfor
  have other {node : PlanNode} (loop : node.kind ≠ .hop) : node.bare.kind ≠ .hop :=
    mt PlanNode.kind_bare_eq_hop.mp loop
  rw [Program.memory_of_hops division.hops_eq, division.bare_eq formed, division.before,
    PlanTree.bare_node]
  exact Program.memory_insert (single _) (other (division.root_kind_ne_hop formed)) (single _)
    (other nofun)

/-- No operator moves. -/
theorem isLocalOnly_eq : after.tree.isLocalOnly = plan.tree.isLocalOnly := by
  have remote {node : PlanNode} (loop : node.kind ≠ .hop) : node.isRemoteHop = false := by
    rw [PlanNode.isRemoteHop, beq_eq_false_iff_ne.mpr loop, Bool.false_and]
  have root := division.root_kind_ne_hop formed
  have outer : (outerNode division.count chunk division.root).kind ≠ .hop := root
  have inner : (plan.innerNode chunk).kind ≠ .hop := by simp [Plan.innerNode]
  rw [division.tree_eq, division.before]
  simp [PlanTree.isLocalOnly, PlanTree.isLocalOnlyAll, remote root, remote outer, remote inner]

end Memory

/-! ## Trip counts of two loops -/

/-- The trip counts of the two loops are no larger than that of the loop. -/
theorem maxProblemSize_eq (positive : 1 ≤ chunk) (small : chunk ≤ division.count)
    (fits : division.count ≤ Word.maxCount) :
    max after.tree.maxProblemSize division.count = max plan.tree.maxProblemSize division.count := by
  have outer : (outerNode division.count chunk division.root).problemSize ≤ division.count :=
    Nat.le_trans (PlanNode.problemSize_le (Nat.le_trans (divideUp_le positive) fits) rfl)
      (divideUp_le positive)
  have inner : (plan.innerNode chunk).problemSize ≤ division.count :=
    Nat.le_trans (PlanNode.problemSize_le (Nat.le_trans small fits) rfl) small
  have root : division.root.problemSize ≤ division.count := by
    unfold PlanNode.problemSize
    rw [division.counted]
    split <;> simp
  rw [division.tree_eq, division.before, PlanTree.maxProblemSize, PlanTree.maxProblemSizeAll,
    PlanTree.maxProblemSizeAll, PlanTree.maxProblemSize, PlanTree.maxProblemSize]
  omega

/-- The bounds of the two loops show the trip count of the loop. -/
theorem chunkCount_eq {first last : Int} {iterations : Nat}
    (constant : division.bounds.first = .const first ∧ division.bounds.last = .const last)
    (counted : iterationCount first last division.bounds.step = .ok iterations) :
    chunkCount var (some (division.bounds.chunks var division.steps))
      (some (division.bounds.withinChunk var division.steps)) = .ok (some iterations) := by
  unfold chunkCount LoopBounds.chunks LoopBounds.withinChunk
  simp [constant.1, constant.2, counted, Except.map]

/-- As long as the inner loop is one, the loop is taken for one that was split. -/
theorem splitTripCount_eq {aspect : Aspect α β γ} {final : Plan α} {first last : Int}
    {iterations : Nat} (kept : after.KeepsLoops aspect final) (inStep : final.InStep)
    (parallel : final.tree.root.kind = .parfor) (inner : final.IsLoop plan.tree.freshId)
    (constant : division.bounds.first = .const first ∧ division.bounds.last = .const last)
    (counted : iterationCount first last division.bounds.step = .ok iterations) :
    final.splitTripCount final.tree.id var = .ok (some iterations) := by
  obtain ⟨twin, children, id_eq⟩ :=
    PlanTree.exists_child_of_mapNodes PlanNode.id_bare kept.bare_eq.symm division.children_eq
  have fresh : twin.id = plan.tree.freshId := id_eq.symm
  have loop := isLoop_root parallel
  obtain ⟨outer, outer_eq⟩ := inStep.exists_block loop
  obtain ⟨nested, nested_eq⟩ := inStep.exists_block inner
  -- Both loops have the bounds that the split gave them.
  have outerBounds := kept.bounds_eq loop
  have nestedBounds := kept.bounds_eq inner
  rw [kept.id_eq, division.bounds?_outer, bounds?, ← kept.id_eq, outer_eq,
    Option.bind_some] at outerBounds
  rw [division.bounds?_inner, bounds?, nested_eq, Option.bind_some] at nestedBounds
  rw [← fresh] at inner nested_eq
  have alsoParallel := parallel_of_isLoop kept.formed.numbered.distinct
    (children ▸ List.mem_cons_self ..) inner
  rw [Plan.splitTripCount_eq children alsoParallel outer_eq nested_eq, outerBounds, nestedBounds,
    division.chunkCount_eq constant counted]
  rfl

end Division

/-- A split of the only loop, if it is serial, leaves two loops whose workers are in step. -/
theorem IsSerial.splitLoop (serial : plan.IsSerial) (formed : plan.IsFormed)
    (parallel : plan.tree.root.kind = .parfor)
    (flat : plan.tree.hasNestedParallelism = false)
    (done : (splitLoop plan.tree.id chunk var).result plan = (.ok inner, after)) :
    after.IsSteady := by
  have numbered := formed.numbered
  obtain ⟨division⟩ := exists_division numbered done
  obtain ⟨_, _, _, _, _, split⟩ := exists_split numbered.distinct done
  have stillFormed := split.isFormed formed
  exact ⟨stillFormed, split.ownsBlocks formed (formed.ownsBlocks flat),
    (division.isSerial numbered parallel flat serial).inStep stillFormed.numbered.distinct⟩

end Plan

end ParallelLoop
