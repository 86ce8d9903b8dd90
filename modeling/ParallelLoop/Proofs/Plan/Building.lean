/-
# Building programs and plans

A program grows by blocks that list nothing at first. Each is listed by one block at most,
from the moment on at which it is there, so the lists form a forest.

A plan starts with one node for its loop and grows by nodes for blocks and operators.
Whatever is added, the nodes are numbered, and a node that stands for a block is of the
kind of that block.
-/

import ParallelLoop.Proofs.Plan.Blocks
import ParallelLoop.Proofs.Plan.Nesting

namespace ParallelLoop

/-! ## Programs -/

namespace Program

variable {α : Type} {program after : Program α} {block : Block α} {parent above below : BlockId}

/-- A new block that lists nothing does not show in the lists. -/
theorem lists_addBlock (bare : block.children = []) :
    (program.addBlock block).Lists = program.Lists := by
  funext above below
  unfold Lists
  rw [listed_addBlock, bare]
  split
  next next =>
    have none : program.blocks[above.index]? = none := by
      rw [next]
      exact Array.getElem?_eq_none (Nat.le_refl _)
    rw [listed, none]
    rfl
  next => rfl

/-- The parent of a new block lists it, and nothing else changes in the lists. -/
theorem lists_addChild (bare : block.children = [])
    (done : program.addChild parent block = .ok after) :
    after.Lists above below ↔
      program.Lists above below ∨ above = parent ∧ below = program.nextBlock := by
  obtain ⟨held, found, returned⟩ := Outcome.of_bind done
  cases returned
  have unchanged : (program.addBlock block).Lists = program.Lists := lists_addBlock bare
  rw [← unchanged]
  unfold Lists listed
  rw [getElem?_modifyBlock]
  by_cases here : above = parent
  · have notNext := ne_nextBlock (index_lt_of_kind? (kind?_of_block found))
    rw [if_pos here, here, getElem?_addBlock, if_neg notNext, getElem?_of_block found]
    simp
  · rw [if_neg here]
    simp [here]

theorem size_addChild (done : program.addChild parent block = .ok after) :
    after.blocks.size = program.blocks.size + 1 := by
  obtain ⟨held, found, returned⟩ := Outcome.of_bind done
  cases returned
  rw [modifyBlock, Array.size_modify, addBlock, Array.size_push]

/-- No two blocks list the same one. -/
def HasSingleParents (program : Program α) : Prop :=
  ∀ above other below, program.Lists above below → program.Lists other below → above = other

/-- Blocks list blocks that are there, and no two of them the same one. -/
structure IsForest (program : Program α) : Prop where
  inside : ∀ above below, program.Lists above below → below.index < program.blocks.size
  single : program.HasSingleParents

/-- No two blocks list the same one, and the next block, which is not there yet, has no parent. -/
structure CanGrow (program : Program α) : Prop where
  single : program.HasSingleParents
  unlisted : ∀ above, ¬ program.Lists above program.nextBlock

theorem IsForest.canGrow (forest : program.IsForest) : program.CanGrow where
  single := forest.single
  unlisted := IsClosed.unlisted forest.inside

theorem isForest_empty : (empty : Program α).IsForest where
  inside _ _ lists := absurd lists List.not_mem_nil
  single _ _ _ lists := absurd lists List.not_mem_nil

theorem IsForest.addBlock (forest : program.IsForest) (bare : block.children = []) :
    (program.addBlock block).IsForest where
  inside := by
    intro above below lists
    rw [lists_addBlock bare] at lists
    rw [Program.addBlock, Array.size_push]
    exact Nat.lt_succ_of_lt (forest.inside above below lists)
  single := by
    unfold HasSingleParents
    rw [lists_addBlock bare]
    exact forest.single

theorem IsForest.addChild (forest : program.IsForest) (bare : block.children = [])
    (done : program.addChild parent block = .ok after) : after.IsForest where
  inside := by
    intro above below lists
    rw [size_addChild done]
    rcases (lists_addChild bare done).mp lists with before | ⟨-, rfl⟩
    · exact Nat.lt_succ_of_lt (forest.inside above below before)
    · exact Nat.lt_succ_self _
  -- What lists the new block is its parent alone, as nothing listed it before.
  single := by
    intro above other below lists alsoLists
    rcases (lists_addChild bare done).mp lists with before | ⟨here, next⟩
    · rcases (lists_addChild bare done).mp alsoLists with alsoBefore | ⟨-, rfl⟩
      · exact forest.single above other below before alsoBefore
      · exact absurd before (forest.canGrow.unlisted above)
    · rcases (lists_addChild bare done).mp alsoLists with before | ⟨alsoHere, -⟩
      · exact absurd (next ▸ before) (forest.canGrow.unlisted other)
      · rw [here, alsoHere]

/-- The programs that are built block by block, each of which lists nothing when it is added. -/
inductive IsBuilt : Program α → Prop
  | empty : IsBuilt empty
  | addBlock {program : Program α} {block : Block α} (built : IsBuilt program)
      (bare : block.children = []) : IsBuilt (program.addBlock block)
  | addChild {program after : Program α} {parent : BlockId} {block : Block α}
      (built : IsBuilt program) (bare : block.children = [])
      (done : program.addChild parent block = .ok after) : IsBuilt after
  | addHop {program : Program α} {hop : Hop α} (built : IsBuilt program) :
      IsBuilt (program.addHop hop)

theorem IsBuilt.isForest (built : program.IsBuilt) : program.IsForest := by
  induction built with
  | empty => exact isForest_empty
  | addBlock _ bare ih => exact ih.addBlock bare
  | addChild _ bare done ih => exact ih.addChild bare done
  | addHop _ ih => exact ⟨ih.inside, ih.single⟩

/-- In a program that is built, blocks have one parent at most, and the next block has none. -/
theorem IsBuilt.canGrow (built : program.IsBuilt) : program.CanGrow := built.isForest.canGrow

end Program

/-! ## Plans -/

namespace PlanTree

variable {tree : PlanTree} {fresh : PlanNode} {id parent : NodeId}

/-- One more node keeps the nodes numbered. -/
theorem IsNumbered.addChild (numbered : tree.IsNumbered) (inside : parent ∈ tree.ids)
    (next : fresh.id = tree.freshId) : (tree.addChild parent fresh).IsNumbered := by
  apply numbered.of_perm
  rw [← next]
  exact ids_addChild numbered.distinct inside

theorem mem_ids_addChild (distinct : tree.ids.Nodup) (inside : parent ∈ tree.ids)
    (there : id ∈ tree.ids) (fresh : PlanNode) : id ∈ (tree.addChild parent fresh).ids :=
  (ids_addChild distinct inside).mem_iff.mpr (List.mem_cons_of_mem fresh.id there)

end PlanTree

/-- The kind of a node that stands for a block. -/
def BlockKind.nodeKind : BlockKind → NodeKind
  | .parfor => .parfor
  | .for => .for
  | .generic => .generic

theorem BlockKind.nodeKind_injective : Function.Injective BlockKind.nodeKind := by
  intro first second same
  cases first <;> cases second <;> first | rfl | cases same

namespace Plan

variable {α : Type} {plan after : Plan α} {id parent : NodeId} {blockId : BlockId}

/-- There are ids for one more node and one more block. -/
structure HasRoom (plan : Plan α) : Prop where
  node : plan.tree.size < idLimit
  block : plan.program.blocks.size < idLimit

/-- The ids of the next node and the next block are words. -/
structure GivesWords (plan : Plan α) : Prop where
  node : plan.tree.freshId = .ofCount plan.tree.size
  block : plan.program.nextBlock = .ofCount plan.program.blocks.size

theorem HasRoom.givesWords (room : plan.HasRoom) : plan.GivesWords where
  node := (NodeId.ofCount_of_lt room.node).symm
  block := (BlockId.ofCount_of_lt room.block).symm

/-- The plans that are built for a program, node by node. -/
inductive IsBuilt : Plan α → Prop
  | ofLoop {program : Program α} {root : BlockId} {plan : Plan α}
      (done : ofLoop program root = .ok plan) : IsBuilt plan
  | addBlockNode {plan after : Plan α} {parent id : NodeId} {block : BlockId} (built : IsBuilt plan)
      (done : (addBlockNode parent block).result plan = (.ok id, after)) : IsBuilt after
  | addHopNode {plan after : Plan α} {parent id : NodeId} {hop : HopId} {placement : Placement}
      (built : IsBuilt plan)
      (done : (addHopNode parent hop placement).result plan = (.ok id, after)) : IsBuilt after

/-- The nodes of a plan are numbered, and those that stand for blocks are of the kind of their
blocks. The topmost one does, and all others stand for operators. -/
structure IsFormed (plan : Plan α) : Prop where
  numbered : plan.tree.IsNumbered
  top : plan.tree.root.block.isSome = true
  kinds : ∀ node ∈ plan.tree.nodes, ∀ id, node.block = some id →
    (plan.program.kind? id).map BlockKind.nodeKind = some node.kind
  operators : ∀ node ∈ plan.tree.nodes, node.block = none → node.kind = .hop

/-- The block of a node whose kind is that of a block. -/
theorem IsFormed.kind?_eq (formed : plan.IsFormed) {node : PlanNode} {id : BlockId}
    {kind : BlockKind} (there : node ∈ plan.tree.nodes) (block_eq : node.block = some id)
    (kind_eq : node.kind = kind.nodeKind) : plan.program.kind? id = some kind := by
  apply Option.map_injective BlockKind.nodeKind_injective
  rw [formed.kinds node there id block_eq, kind_eq]
  rfl

theorem of_nodeOfBlock {block : Block α} {node : PlanNode}
    (done : nodeOfBlock id blockId block = .ok node) :
    node.id = id ∧ node.block = some blockId ∧ node.kind = block.kind.nodeKind := by
  unfold nodeOfBlock at done
  split at done
  next kind placement chosen =>
    -- Each kind of blocks has its kind of nodes.
    have kind_eq : kind = block.kind.nodeKind := by
      cases of_kind : block.kind <;> rw [of_kind] at chosen <;> cases chosen <;> rfl
    split at done
    next =>
      obtain ⟨count, -, returned⟩ := Outcome.of_bind done
      cases returned
      exact ⟨rfl, rfl, kind_eq⟩
    next =>
      cases done
      exact ⟨rfl, rfl, kind_eq⟩

/-- The node that is found under an id. -/
theorem mem_nodes_of_node? {node : PlanNode} (found : plan.tree.node? id = some node) :
    node ∈ plan.tree.nodes ∧ node.id = id := by
  obtain ⟨subtree, there, rfl⟩ := Option.map_eq_some_iff.mp found
  have same : subtree.id = id := by simpa using List.find?_some there
  exact ⟨List.mem_map_of_mem (List.mem_of_find?_eq_some there), same⟩

theorem mem_ids_of_node {node : PlanNode} (found : plan.node id = .ok node) :
    id ∈ plan.tree.ids := by
  unfold Plan.node at found
  split at found
  next held =>
    obtain ⟨there, same⟩ := mem_nodes_of_node? held
    exact same ▸ List.mem_map_of_mem there
  next => cases found

theorem exists_node_of_blockOf (found : plan.blockOf id = .ok blockId) :
    ∃ node ∈ plan.tree.nodes, node.id = id ∧ node.block = some blockId := by
  unfold blockOf at found
  split at found
  next held =>
    cases found
    obtain ⟨node, found, block_eq⟩ := Option.bind_eq_some_iff.mp held
    obtain ⟨there, same⟩ := mem_nodes_of_node? found
    exact ⟨node, there, same, block_eq⟩
  next => cases found

/-- A node for a block that was added. -/
theorem of_addBlockNode (done : (addBlockNode parent blockId).result plan = (.ok id, after)) :
    ∃ block node, plan.program.block blockId = .ok block ∧
      nodeOfBlock plan.tree.freshId blockId block = .ok node ∧ parent ∈ plan.tree.ids ∧
      after = { plan with tree := plan.tree.addChild parent node } := by
  obtain ⟨block, held, counted⟩ := Change.of_inspect_bind done
  obtain ⟨node, node_eq, asked⟩ := Change.of_ofExcept_bind (Change.of_get_bind counted)
  obtain ⟨_, found, changed⟩ := Change.of_ofOutcome_bind (Change.of_get_bind asked)
  cases changed
  exact ⟨block, node, held, node_eq, mem_ids_of_node found, rfl⟩

/-- A node for an operator that was added. -/
theorem eq_of_addHopNode {hop : HopId} {placement : Placement}
    (done : (addHopNode parent hop placement).result plan = (.ok id, after)) :
    parent ∈ plan.tree.ids ∧ after = { plan with
      tree := plan.tree.addChild parent
        { id := plan.tree.freshId, kind := .hop, placement, hop := some hop
          parameters := { opString := (plan.program.hop hop).toOption.map Hop.op } } } := by
  unfold addHopNode at done
  have counted := Change.of_get_bind done
  have named := Change.of_get_bind counted
  obtain ⟨_, found, changed⟩ := Change.of_ofOutcome_bind (Change.of_get_bind named)
  cases changed
  exact ⟨mem_ids_of_node found, rfl⟩

theorem of_addHopNode {hop : HopId} {placement : Placement}
    (done : (addHopNode parent hop placement).result plan = (.ok id, after)) :
    ∃ node : PlanNode, node.id = plan.tree.freshId ∧ node.block = none ∧ node.kind = .hop ∧
      parent ∈ plan.tree.ids ∧ after = { plan with tree := plan.tree.addChild parent node } := by
  obtain ⟨there, rfl⟩ := eq_of_addHopNode done
  exact ⟨_, rfl, rfl, rfl, there, rfl⟩

/-- One more node keeps a plan formed. -/
theorem IsFormed.addChild {node : PlanNode} (formed : plan.IsFormed)
    (there : parent ∈ plan.tree.ids)
    (fresh : node.id = plan.tree.freshId)
    (kind : ∀ id, node.block = some id →
      (plan.program.kind? id).map BlockKind.nodeKind = some node.kind)
    (operator : node.block = none → node.kind = .hop) :
    IsFormed { plan with tree := plan.tree.addChild parent node } := by
  -- The nodes are the new one and those before, so each condition is checked of these two.
  have added : (plan.tree.addChild parent node).nodes.Perm (node :: plan.tree.nodes) :=
    PlanTree.nodes_addChild formed.numbered.distinct there
  refine ⟨?_, ?_, ?_, ?_⟩
  · exact formed.numbered.addChild there fresh
  · rw [PlanTree.root_addChild]
    exact formed.top
  · intro other member
    rcases List.mem_cons.mp (added.mem_iff.mp member) with rfl | old
    · exact kind
    · exact formed.kinds other old
  · intro other member
    rcases List.mem_cons.mp (added.mem_iff.mp member) with rfl | old
    · exact operator
    · exact formed.operators other old

/-- Plans that are built are formed. -/
theorem IsBuilt.isFormed (built : plan.IsBuilt) : plan.IsFormed := by
  induction built with
  | @ofLoop program root plan done =>
    obtain ⟨block, found, chosen⟩ := Outcome.of_bind done
    split at chosen
    next => cases chosen
    next =>
      obtain ⟨node, node_eq, returned⟩ := Outcome.of_bind chosen
      cases returned
      obtain ⟨id_eq, block_eq, kind_eq⟩ := of_nodeOfBlock node_eq
      -- A new plan has a single node, with the first id.
      have single : (PlanTree.node node []).nodes = [node] := rfl
      have first : (PlanTree.node node []).ids = [⟨0⟩] := congrArg (fun id => [id]) id_eq
      refine ⟨⟨?_, ?_⟩, ?_, ?_, ?_⟩
      · rw [first]
        exact List.nodup_singleton _
      · rw [first, List.forall_mem_singleton]
        exact Nat.zero_lt_one
      · exact block_eq ▸ rfl
      · rw [single, List.forall_mem_singleton]
        intro id same
        obtain rfl := Option.some.inj (block_eq.symm.trans same)
        rw [Program.kind?_of_block found, kind_eq]
        rfl
      · rw [single, List.forall_mem_singleton, block_eq]
        intro none
        cases none
  | @addBlockNode plan after parent id blockId _ done ih =>
    obtain ⟨block, node, held, node_eq, there, rfl⟩ := of_addBlockNode done
    obtain ⟨id_eq, block_eq, kind_eq⟩ := of_nodeOfBlock node_eq
    refine ih.addChild there id_eq (fun other same => ?_) fun none => ?_
    · obtain rfl := Option.some.inj (block_eq.symm.trans same)
      rw [Program.kind?_of_block held, kind_eq]
      rfl
    · rw [block_eq] at none
      cases none
  | @addHopNode plan after parent id hop placement _ done ih =>
    obtain ⟨node, id_eq, block_eq, kind_eq, there, rfl⟩ := of_addHopNode done
    refine ih.addChild there id_eq (fun other same => ?_) fun _ => kind_eq
    rw [block_eq] at same
    cases same

end Plan

end ParallelLoop
