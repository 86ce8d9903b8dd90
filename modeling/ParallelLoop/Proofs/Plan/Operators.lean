/-
# Operators and loops

A decision about a loop touches the node of the loop and the block that it stands for, and
so does its demotion. What is left of a tree when only operators are looked at, and which
operator each node reads, is the tree laid bare. The memory of a tree whose loops have one
worker each depends on no more, since one copy of a body needs what the body needs.

`Plan.KeepsLoops` puts together what stays when loops are decided about: the bare tree, the
operators of the program, and of each loop that remains its bounds and the decisions that a
given aspect shows.
-/

import ParallelLoop.Plan.Memory
import ParallelLoop.Proofs.Plan.Alignment
import ParallelLoop.Proofs.Plan.Deciding
import ParallelLoop.Proofs.Quantity

namespace ParallelLoop

namespace PlanNode

/-- The record of an operator. Of any other node, the id and the operator it reads. -/
def bare (node : PlanNode) : PlanNode :=
  if node.kind = .hop then node
  else { id := node.id, kind := .generic, placement := .inProcess, hop := node.hop }

theorem bare_of_hop {node : PlanNode} (operator : node.kind = .hop) : node.bare = node :=
  if_pos operator

theorem bare_of_ne_hop {node : PlanNode} (other : node.kind ≠ .hop) :
    node.bare = { id := node.id, kind := .generic, placement := .inProcess, hop := node.hop } :=
  if_neg other

@[simp] theorem id_bare (node : PlanNode) : node.bare.id = node.id := by
  unfold bare
  split <;> rfl

@[simp] theorem hop_bare (node : PlanNode) : node.bare.hop = node.hop := by
  unfold bare
  split <;> rfl

theorem kind_bare_eq_hop {node : PlanNode} : node.bare.kind = .hop ↔ node.kind = .hop := by
  unfold bare
  split
  next => rfl
  next other => exact ⟨nofun, fun operator => absurd operator other⟩

theorem kind_bare_ne_parfor (node : PlanNode) : node.bare.kind ≠ .parfor := by
  unfold bare
  split
  next operator => rw [operator]; exact nofun
  next => exact nofun

/-- Records of nodes that are no operators look alike when they stand for the same. -/
theorem bare_eq_of_undecided {node other : PlanNode} (same : other.undecided = node.undecided)
    (loop : node.kind ≠ .hop) : other.bare = node.bare := by
  have kind_eq : other.kind = node.kind := (congrArg PlanNode.kind same :)
  have id_eq : other.id = node.id := (congrArg PlanNode.id same :)
  have hop_eq : other.hop = node.hop := (congrArg PlanNode.hop same :)
  rw [bare_of_ne_hop loop, bare_of_ne_hop (kind_eq ▸ loop), id_eq, hop_eq]

theorem isRemoteHop_bare (node : PlanNode) : node.bare.isRemoteHop = node.isRemoteHop := by
  unfold bare
  split
  next => rfl
  next other => rw [isRemoteHop, isRemoteHop, beq_eq_false_iff_ne.mpr other]; rfl

end PlanNode

namespace PlanTree

variable {tree other : PlanTree}

/-- The tree as far as its operators go. -/
def bare (tree : PlanTree) : PlanTree := tree.mapNodes PlanNode.bare

theorem bare_node (root : PlanNode) (children : List PlanTree) :
    (node root children).bare = node root.bare (children.map bare) := mapNodes_node ..

theorem isLeaf_bare (tree : PlanTree) : tree.bare.isLeaf = tree.isLeaf := by
  cases tree with
  | node root children =>
    rw [bare_node]
    cases children <;> rfl

theorem root_bare (tree : PlanTree) : tree.bare.root = tree.root.bare := root_mapNodes tree

theorem isLocalOnly_of_bare (same : other.bare = tree.bare) :
    other.isLocalOnly = tree.isLocalOnly := by
  have plain (tree : PlanTree) : tree.bare.isLocalOnly = tree.isLocalOnly :=
    isLocalOnly_mapNodes PlanNode.isRemoteHop_bare tree
  rw [← plain, same, plain]

theorem id_of_bare (same : other.bare = tree.bare) : other.id = tree.id := by
  have roots := congrArg root same
  rw [root_bare, root_bare] at roots
  rw [id, id, ← PlanNode.id_bare, roots, PlanNode.id_bare]

/-- The id of the first node below the topmost one. -/
def headId? (tree : PlanTree) : Option NodeId := tree.children.head?.map PlanTree.id

theorem headId?_mapNodes {change : PlanNode → PlanNode}
    (keeps : ∀ node, (change node).id = node.id) (tree : PlanTree) :
    (tree.mapNodes change).headId? = tree.headId? := by
  unfold headId?
  rw [children_mapNodes, List.head?_map, Option.map_map]
  congr 1
  funext child
  simp [PlanTree.id, keeps]

theorem headId?_of_bare (same : other.bare = tree.bare) :
    other.headId? = tree.headId? := by
  have plain (tree : PlanTree) : tree.bare.headId? = tree.headId? :=
    headId?_mapNodes PlanNode.id_bare tree
  rw [← plain, same, plain]

theorem subtrees_of_bare (same : other.bare = tree.bare) :
    other.subtrees.map bare = tree.subtrees.map bare := by
  have subtrees := congrArg subtrees same
  rwa [bare, bare, subtrees_mapNodes, subtrees_mapNodes] at subtrees

end PlanTree

/-! ## Memory -/

namespace Program

variable {α : Type} [Quantity α] [Quantity.IsLawful α] {program other : Program α} {remoteCost : α}
  {root : PlanNode} {children : List PlanTree}

open PlanTree

omit [Quantity.IsLawful α] in
/-- Trees that need as much one by one need as much together. -/
theorem memoryAll_map {trees : List PlanTree} {change : PlanTree → PlanTree}
    (same : ∀ tree ∈ trees,
      other.memory remoteCost (change tree) = program.memory remoteCost tree) (largest : α) :
    other.memoryAll remoteCost largest (trees.map change) =
      program.memoryAll remoteCost largest trees := by
  induction trees generalizing largest with
  | nil => rfl
  | cons tree rest ih =>
    rw [List.forall_mem_cons] at same
    rw [List.map_cons, memoryAll, memoryAll, same.1]
    congr 1
    funext memory
    exact ih same.2 _

omit [Quantity.IsLawful α] in
/-- The memory of a tree depends on the operators of the program only. -/
theorem memory_of_hops (same : other.hops = program.hops) (tree : PlanTree) :
    other.memory remoteCost tree = program.memory remoteCost tree := by
  have leaf (root : PlanNode) :
      other.hopMemory remoteCost root = program.hopMemory remoteCost root := by
    unfold hopMemory Program.hop
    rw [same]
  induction tree using PlanTree.induction with
  | node root children ih =>
    have below : other.memoryAll remoteCost Quantity.zero (children.map fun child => child) =
        program.memoryAll remoteCost Quantity.zero children := memoryAll_map ih Quantity.zero
    rw [List.map_id'] at below
    rw [memory, memory, leaf, below]

/-- A node that puts one worker to work needs what the trees below it need. -/
theorem memory_of_single (single : root.fanOut = 1)
    (inner : ¬ (root.kind = .hop ∧ children.isEmpty)) :
    program.memory remoteCost (.node root children) =
      program.memoryAll remoteCost Quantity.zero children := by
  rw [memory, if_neg inner]
  cases program.memoryAll remoteCost Quantity.zero children with
  | error cause => rfl
  | ok largest =>
    rw [Outcome.ok_bind]
    split
    next loop =>
      have one : max root.workers 1 = 1 := by rwa [PlanNode.fanOut, if_pos loop] at single
      rw [one, Quantity.IsLawful.one_mul]
      rfl
    next => rfl

/-- The memory of a tree whose loops have one worker each. -/
theorem memory_bare {tree : PlanTree} (single : ∀ node ∈ tree.nodes, node.fanOut = 1) :
    program.memory remoteCost tree.bare = program.memory remoteCost tree := by
  induction tree using PlanTree.induction with
  | node root children ih =>
    rw [nodes_node, List.forall_mem_cons] at single
    have below : program.memoryAll remoteCost Quantity.zero (children.map bare) =
        program.memoryAll remoteCost Quantity.zero children := by
      refine memoryAll_map (fun child there => ih child there fun node deeper => ?_) _
      exact single.2 node (List.mem_flatMap.mpr ⟨child, there, deeper⟩)
    rw [bare_node]
    by_cases leaf : root.kind = .hop ∧ children.isEmpty
    · have alsoLeaf : root.kind = .hop ∧ (children.map bare).isEmpty := by simpa using leaf
      rw [PlanNode.bare_of_hop leaf.1, memory, memory, if_pos leaf, if_pos alsoLeaf]
    · have alsoInner : ¬ (root.bare.kind = .hop ∧ (children.map bare).isEmpty) := by
        simpa [PlanNode.kind_bare_eq_hop] using leaf
      rw [memory_of_single single.1 leaf,
        memory_of_single (if_neg root.kind_bare_ne_parfor) alsoInner, below]

theorem zero_le_memoryAll {trees : List PlanTree} {largest found : α}
    (start : Quantity.zero ≤ largest)
    (done : program.memoryAll remoteCost largest trees = .ok found) : Quantity.zero ≤ found := by
  induction trees generalizing largest with
  | nil =>
    cases done
    exact start
  | cons tree rest ih =>
    obtain ⟨memory, -, more⟩ := Outcome.of_bind done
    refine ih ?_ more
    unfold Quantity.larger
    split
    next larger => exact Quantity.IsLawful.zero_le_of_le start larger
    next => exact start

/-- A node between a node and the trees below it, each with one worker, needs nothing more. -/
theorem memory_insert {inner : PlanNode} (single : root.fanOut = 1) (other : root.kind ≠ .hop)
    (alsoSingle : inner.fanOut = 1) (alsoOther : inner.kind ≠ .hop) :
    program.memory remoteCost (.node root [.node inner children]) =
      program.memory remoteCost (.node root children) := by
  rw [memory_of_single single fun leaf => other leaf.1,
    memory_of_single single fun leaf => other leaf.1, memoryAll,
    memory_of_single alsoSingle fun leaf => alsoOther leaf.1]
  cases found : program.memoryAll remoteCost Quantity.zero children with
  | error cause => rfl
  | ok memory =>
    have positive := zero_le_memoryAll Quantity.IsLawful.zero_le_zero found
    rw [Outcome.ok_bind, memoryAll, Quantity.larger, if_pos positive]

end Program

/-! ## Plans -/

namespace Plan

open Change (Respects)

variable {α β γ : Type} {aspect : Aspect α β γ} {plan before after : Plan α} {id : NodeId}

/-- Nodes that look alike read the same operators. -/
theorem hopOf_of_bare (same : after.tree.bare = before.tree.bare) (id : NodeId) :
    after.hopOf id = before.hopOf id := by
  have plain (tree : PlanTree) :
      (tree.bare.node? id).bind PlanNode.hop = (tree.node? id).bind PlanNode.hop := by
    rw [PlanTree.bare, PlanTree.node?_mapNodes PlanNode.id_bare]
    cases tree.node? id <;> simp
  unfold hopOf
  rw [← plain after.tree, same, plain]

/-- A node that stands for a block is no operator. -/
theorem IsFormed.kind_ne_hop (formed : plan.IsFormed) {node : PlanNode} {blockId : BlockId}
    (there : node ∈ plan.tree.nodes) (bound : node.block = some blockId) : node.kind ≠ .hop := by
  obtain ⟨kind, -, same⟩ := Option.map_eq_some_iff.mp (formed.kinds node there blockId bound)
  cases kind <;> rw [← same] <;> exact nofun

/-- The node with this id is a parallel loop. -/
def IsLoop (plan : Plan α) (id : NodeId) : Prop :=
  ∃ node ∈ plan.tree.nodes, node.id = id ∧ node.kind = .parfor

theorem isLoop_root (parallel : plan.tree.root.kind = .parfor) : plan.IsLoop plan.tree.id :=
  ⟨plan.tree.root, PlanTree.root_mem_nodes _, rfl, parallel⟩

theorem isLoop_of_layout (same : after.layout = before.layout) (loop : after.IsLoop id) :
    before.IsLoop id := by
  obtain ⟨node, there, rfl, parallel⟩ := loop
  obtain ⟨twin, inside, id_eq, kind_eq, -⟩ := exists_node_of_layout same there
  exact ⟨twin, inside, id_eq.symm, kind_eq ▸ parallel⟩

/-- Operators stay as they are, and so does what an aspect shows of the loops that remain. -/
structure KeepsLoops (aspect : Aspect α β γ) (before after : Plan α) : Prop where
  formed : after.IsFormed
  bare_eq : after.tree.bare = before.tree.bare
  hops_eq : after.program.hops = before.program.hops
  isLoop : ∀ {id}, after.IsLoop id → before.IsLoop id
  decided_eq : ∀ {id}, after.IsLoop id → after.decided aspect id = before.decided aspect id
  bounds_eq : ∀ {id}, after.IsLoop id → after.bounds? id = before.bounds? id

/-- The plan after a change keeps the operators and loops of one that is formed. -/
def Keeps (aspect : Aspect α β γ) (before after : Plan α) : Prop :=
  before.IsFormed → before.KeepsLoops aspect after

theorem KeepsLoops.refl (formed : plan.IsFormed) : plan.KeepsLoops aspect plan :=
  ⟨formed, rfl, rfl, id, fun _ => rfl, fun _ => rfl⟩

theorem KeepsLoops.trans {mid : Plan α} (first : before.KeepsLoops aspect mid)
    (second : mid.KeepsLoops aspect after) : before.KeepsLoops aspect after where
  formed := second.formed
  bare_eq := second.bare_eq.trans first.bare_eq
  hops_eq := second.hops_eq.trans first.hops_eq
  isLoop loop := first.isLoop (second.isLoop loop)
  decided_eq loop := (second.decided_eq loop).trans (first.decided_eq (second.isLoop loop))
  bounds_eq loop := (second.bounds_eq loop).trans (first.bounds_eq (second.isLoop loop))

instance : IsPreorder (Plan α) (Keeps aspect) where
  refl _ formed := .refl formed
  trans _ _ _ first second formed := (first formed).trans (second (first formed).formed)

/-- Whether all operators run in the process. -/
theorem KeepsLoops.isLocalOnly_eq (kept : before.KeepsLoops aspect after) :
    after.tree.isLocalOnly = before.tree.isLocalOnly :=
  PlanTree.isLocalOnly_of_bare kept.bare_eq

theorem KeepsLoops.id_eq (kept : before.KeepsLoops aspect after) : after.tree.id = before.tree.id :=
  PlanTree.id_of_bare kept.bare_eq

/-- What is kept of an aspect is kept of a part of it. -/
theorem KeepsLoops.part {δ ε : Type} (kept : before.KeepsLoops aspect after) (record : β → δ)
    (setting : γ → ε) : before.KeepsLoops ⟨fun node => record (aspect.record node),
      fun settings => setting (aspect.setting settings)⟩ after :=
  { kept with decided_eq := fun loop => decided_congr record setting (kept.decided_eq loop) }

section Decisions

variable {changeRecord : PlanNode → PlanNode}
  {changeSettings : ParallelSettings α → ParallelSettings α}

theorem preserves_bounds_updateSettings :
    Change.Preserves bounds? (updateSettings (α := α) id changeSettings) :=
  .bind (.inspect _) fun _ => .bind (.inspect _) fun block => .modify fun plan => by
    funext other
    unfold bounds?
    rw [block?_modifyBlock]
    split
    next => cases plan.block? other <;> rfl
    next => rfl

/-- Changing settings keeps operators and loops. -/
theorem keeps_updateSettings
    (blind : ∀ settings, aspect.setting (changeSettings settings) = aspect.setting settings) :
    Respects (Keeps aspect) (updateSettings id changeSettings) := by
  intro plan formed
  have layout := ignores_layout.settings id changeSettings plan
  have tree_eq := preserves_tree_updateSettings id changeSettings plan
  refine ⟨formed.of_layout layout, congrArg PlanTree.bare tree_eq, ?_, isLoop_of_layout layout,
    fun _ => congrFun (preserves_decided_updateSettings blind plan) _,
    fun _ => congrFun (preserves_bounds_updateSettings plan) _⟩
  have hops : Change.Preserves (fun plan : Plan α => plan.program.hops)
      (updateSettings id changeSettings) :=
    .bind (.inspect _) fun _ => .bind (.inspect _) fun _ => .modify fun _ => rfl
  exact hops plan

/-- A decision about a loop keeps operators and loops, as far as the aspect does not show it. -/
theorem keeps_decision (stands : ∀ node, (changeRecord node).undecided = node.undecided)
    (blindRecord : ∀ node, aspect.record (changeRecord node) = aspect.record node)
    (blindSettings : ∀ settings,
      aspect.setting (changeSettings settings) = aspect.setting settings) :
    Respects (Keeps aspect)
      (do updateSettings id changeSettings; updateNode id changeRecord) := by
  intro plan formed
  have first : plan.KeepsLoops aspect ((updateSettings id changeSettings).result plan).2 :=
    keeps_updateSettings blindSettings plan formed
  rcases step : (updateSettings id changeSettings).result plan with ⟨outcome, mid⟩
  rw [step] at first
  cases outcome with
  | error cause =>
    rw [Change.result_bind_error step]
    exact first
  | ok value =>
    rw [Change.result_bind step]
    refine first.trans ?_
    have layout := ignores_layout.records id changeRecord stands mid
    have keeps : KeepsNode changeRecord :=
      ⟨fun node => (congrArg PlanNode.id (stands node) :),
        fun node => (congrArg PlanNode.block (stands node) :)⟩
    refine ⟨first.formed.of_layout layout, ?_, rfl, isLoop_of_layout layout,
      fun _ => congrFun (preserves_decided_updateNode keeps blindRecord mid) _, fun _ => ?_⟩
    -- The node has settings, so it stands for a block and is no operator.
    · refine PlanTree.mapNodes_update_of_mem fun node there here => ?_
      refine PlanNode.bare_eq_of_undecided (stands node) ?_
      obtain ⟨held, found, held_eq, read, tree_eq, -⟩ := of_updateSettings step
      rw [tree_eq] at there
      obtain ⟨block, block_eq, -⟩ := Option.bind_eq_some_iff.mp read
      obtain ⟨blockId, bound, -⟩ := Option.bind_eq_some_iff.mp block_eq
      rw [← here, PlanTree.node?_eq_some formed.numbered.distinct there] at bound
      exact formed.kind_ne_hop there bound
    · unfold bounds?
      rw [updateNode, Change.result_modify, block?_updateNode keeps]

theorem keeps_setWorkers {workers : Nat}
    (blindRecord : ∀ node, aspect.record { node with workers } = aspect.record node)
    (blindSettings : ∀ settings, aspect.setting { settings with workers } =
      aspect.setting settings) : Respects (Keeps aspect) (setWorkers id workers) :=
  keeps_decision (fun _ => rfl) blindRecord blindSettings

theorem keeps_setTaskPartitioner {kind : PartitionerKind}
    (blindRecord : ∀ node, aspect.record (node.setParam .taskPartitioner kind.name) =
      aspect.record node)
    (blindSettings : ∀ settings, aspect.setting { settings with taskPartitioner := kind } =
      aspect.setting settings) : Respects (Keeps aspect) (setTaskPartitioner id kind) :=
  keeps_decision (fun _ => rfl) blindRecord blindSettings

theorem keeps_setDataPartitioner {partitioner : DataPartitioner}
    (blindRecord : ∀ node, aspect.record (node.setParam .dataPartitioner partitioner.name) =
      aspect.record node)
    (blindSettings : ∀ settings, aspect.setting { settings with dataPartitioner := partitioner } =
      aspect.setting settings) : Respects (Keeps aspect) (setDataPartitioner id partitioner) :=
  keeps_decision (fun _ => rfl) blindRecord blindSettings

theorem keeps_setResultMerge {merge : ResultMerge}
    (blindRecord : ∀ node, aspect.record (node.setParam .resultMerge merge.name) =
      aspect.record node)
    (blindSettings : ∀ settings, aspect.setting { settings with resultMerge := merge } =
      aspect.setting settings) : Respects (Keeps aspect) (setResultMerge id merge) :=
  keeps_decision (fun _ => rfl) blindRecord blindSettings

/-- Deciding where a parallel loop runs keeps operators and loops. -/
theorem keeps_setPlacement {node : PlanNode} {placement : Placement} (formed : plan.IsFormed)
    (found : plan.tree.node? id = some node) (loop : node.kind = .parfor)
    (blindRecord : ∀ node, aspect.record { node with placement } = aspect.record node)
    (blindSettings : ∀ settings, aspect.setting { settings with mode := placement } =
      aspect.setting settings)
    (done : (setPlacement id placement).result plan = (.ok (), after)) :
    plan.KeepsLoops aspect after := by
  rw [result_setPlacement found loop] at done
  have keeps : Respects (Keeps aspect) (do
      updateSettings id fun settings => { settings with mode := placement }
      updateNode id fun node => { node with placement } : Change (Plan α) Unit) :=
    keeps_decision (fun _ => rfl) blindRecord blindSettings
  exact keeps.of_result done formed

end Decisions

/-! ## Demotions -/

/-- A demotion shows in the bounds and settings of no other block. -/
theorem block?_demote {other : NodeId} (formed : plan.IsFormed) (different : other ≠ id)
    (done : (demote id).result plan = (.ok (), after)) :
    after.tree.node? other = plan.tree.node? other ∧
      (after.block? other).map (fun block => (block.bounds, block.settings)) =
        (plan.block? other).map fun block => (block.bounds, block.settings) := by
  obtain ⟨old, block, bounds, -, -, -, tree_eq, program_eq⟩ := of_demote done
  have node_eq : after.tree.node? other = plan.tree.node? other := by
    rw [tree_eq, PlanTree.node?_update (fun _ => by rfl), if_neg different]
  refine ⟨node_eq, ?_⟩
  unfold block?
  rw [node_eq]
  cases bound : (plan.tree.node? other).bind PlanNode.block with
  | none => rfl
  | some own =>
    obtain ⟨node, found, block_eq⟩ := Option.bind_eq_some_iff.mp bound
    -- The block of the other node is not the new one, and a parent changes its children only.
    have notNext := formed.block_ne_next (mem_nodes_of_node? found).1 block_eq
    rw [Option.bind_some, Option.bind_some, program_eq, Program.replaceBlock]
    split
    next => rw [Program.getElem?_addBlock, if_neg notNext]
    next parent _ =>
      rw [Program.getElem?_modifyBlock]
      split
      next here =>
        rw [← here, Program.getElem?_addBlock, if_neg notNext]
        cases plan.program.blocks[own.index]? <;> rfl
      next => rw [Program.getElem?_addBlock, if_neg notNext]

/-- Demoting a loop keeps the operators and the other loops. -/
theorem keeps_demote (formed : plan.IsFormed) (done : (demote id).result plan = (.ok (), after)) :
    plan.KeepsLoops aspect after := by
  obtain ⟨old, block, bounds, bound, -, -, tree_eq, program_eq⟩ := of_demote done
  have distinct := formed.numbered.distinct
  obtain ⟨node, there, id_eq, block_eq⟩ := exists_node_of_blockOf bound
  -- Only loops that were not demoted are loops now.
  have origin {other : NodeId} (loop : after.IsLoop other) : other ≠ id ∧ plan.IsLoop other := by
    obtain ⟨twin, inside, rfl, parallel⟩ := loop
    rw [tree_eq, PlanTree.update_eq_mapNodes distinct, PlanTree.nodes_mapNodes] at inside
    obtain ⟨origin, before, rfl⟩ := List.mem_map.mp inside
    by_cases here : origin.id = id
    · rw [if_pos here] at parallel
      cases parallel
    · rw [if_neg here] at parallel ⊢
      exact ⟨here, origin, before, rfl, parallel⟩
  have blocks {other : NodeId} (loop : after.IsLoop other) :=
    block?_demote formed (origin loop).1 done
  refine ⟨formed.demote done, ?_, ?_, fun loop => (origin loop).2, fun {other} loop => ?_,
    fun {other} loop => ?_⟩
  · rw [tree_eq]
    refine PlanTree.mapNodes_update_of_mem fun other inside here => ?_
    obtain rfl := PlanTree.eq_of_id_eq distinct inside there (here.trans id_eq.symm)
    rw [PlanNode.bare_of_ne_hop (formed.kind_ne_hop there block_eq),
      PlanNode.bare_of_ne_hop (by exact nofun)]
  · rw [program_eq, Program.replaceBlock]
    split <;> rfl
  · have settings := congrArg (fun shown => shown.bind Prod.snd) (blocks loop).2
    simp only [Option.bind_map] at settings
    unfold decided
    rw [(blocks loop).1]
    exact Prod.ext rfl (congrArg (Option.map aspect.setting) settings)
  · have bounds := congrArg (fun shown => shown.bind Prod.fst) (blocks loop).2
    simp only [Option.bind_map] at bounds
    exact bounds

end Plan

end ParallelLoop
