/-
# What operations leave alone

An operation on a plan is about one node, and a new node for a block is about the node right above
it. Whatever fails leaves the plan as it is. Whatever succeeds changes the row of the node at most,
and the block and the operator that the node stands for.

A demotion does one thing more. It replaces the block of the node, and the block that listed the old
one lists the new one in its place. Several blocks can list the old one; it is the first that is
changed, and the others still list the old one.
-/

import ParallelLoop.Proofs.Plan.SplitCount

namespace ParallelLoop

namespace PlanTree

variable {tree : PlanTree} {node fresh : PlanNode} {below : List NodeId}
  {change : PlanNode → PlanNode} {id other : NodeId}

theorem id_of_row? (row : tree.row? id = some (node, below)) : node.id = id := by
  obtain ⟨subtree, found, read⟩ := Option.map_eq_some_iff.mp row
  obtain ⟨rfl, -⟩ := Prod.mk.inj read
  have same : subtree.id = id := by simpa using List.find?_some found
  exact same

/-- Changing the record of a node changes no other row. -/
theorem row?_update (distinct : tree.ids.Nodup) (keeps : ∀ node, (change node).id = node.id)
    (different : other ≠ id) : (tree.update id change).row? other = tree.row? other := by
  rw [update_eq_mapNodes distinct, row?_mapNodes fun node => by split <;> simp [keeps]]
  cases row : tree.row? other with
  | none => rfl
  | some found =>
    have elsewhere : found.1.id ≠ id := (id_of_row? row).symm ▸ different
    rw [Option.map_some, if_neg elsewhere]

/-- The topmost node stays, and so do the rows of all nodes but this one. -/
structure KeepsRows (id : NodeId) (before after : PlanTree) : Prop where
  top : after.id = before.id
  rows : ∀ other ∈ before.ids, other ≠ id → after.row? other = before.row? other

theorem keepsRows_refl (id : NodeId) (tree : PlanTree) : tree.KeepsRows id tree :=
  ⟨rfl, fun _ _ _ => rfl⟩

theorem keepsRows_update (distinct : tree.ids.Nodup)
    (keeps : ∀ node, (change node).id = node.id) : tree.KeepsRows id (tree.update id change) where
  top := by
    have ids : (tree.update id change).ids = tree.ids := ids_update keeps tree
    rw [ids_eq_cons, ids_eq_cons] at ids
    exact (List.cons.inj ids).1
  rows _ _ different := row?_update distinct keeps different

theorem keepsRows_addChild (absent : fresh.id ∉ tree.ids) (parent : NodeId) :
    tree.KeepsRows parent (tree.addChild parent fresh) where
  top := congrArg PlanNode.id (root_addChild tree fresh)
  rows _ there different :=
    row?_addChild tree different fun same => absent (same ▸ there)

theorem keepsRows_wedge (absent : fresh.id ∉ tree.ids)
    (keeps : ∀ node, (change node).id = node.id) :
    tree.KeepsRows id (tree.alter id (wedge fresh change)) where
  top := id_wedge keeps tree
  rows other there different := by
    have old : other ≠ fresh.id := fun same => absent (same ▸ there)
    rw [row?_alter_wedge tree id keeps absent, if_neg different, if_neg old]

end PlanTree

namespace Program

variable {α : Type} {program : Program α} {block : Block α} {above below old other : BlockId}

theorem block_modifyBlock_of_ne {id : BlockId} (different : other ≠ id) (program : Program α)
    (change : Block α → Block α) : (program.modifyBlock id change).block other =
      program.block other := by
  unfold Program.block
  rw [getElem?_modifyBlock, if_neg different]

theorem block_addBlock_of_block (found : program.block other = .ok block) (added : Block α) :
    (program.addBlock added).block other = .ok block := by
  have inside := ne_nextBlock (index_lt_of_kind? (kind?_of_block found))
  apply block_of_getElem?
  rw [getElem?_addBlock, if_neg inside, getElem?_of_block found]

/-- The parent of a block is a block that lists it. -/
theorem of_parentOf? (found : program.parentOf? below = some above) :
    ∃ block, program.block above = .ok block ∧ below ∈ block.children := by
  obtain ⟨position, first, rfl⟩ := Option.map_eq_some_iff.mp found
  obtain ⟨inside, lists, -⟩ := Array.findIdx?_eq_some_iff_getElem.mp first
  exact ⟨_, block_of_getElem? (Array.getElem?_eq_getElem inside), List.contains_iff_mem.mp lists⟩

/-- A replacement renames the old block in the list of its parent, and changes no other block. -/
theorem block_replaceBlock_of_block (found : program.block other = .ok block) (old : BlockId)
    (replacement : Block α) : (program.replaceBlock old replacement).block other =
      .ok (if program.parentOf? old = some other then
        { block with
          children := block.children.map fun child =>
            if child = old then program.nextBlock else child }
      else block) := by
  apply block_of_getElem?
  rw [getElem?_replaceBlock, getElem?_of_block (block_addBlock_of_block found replacement)]
  rfl

theorem hops_replaceBlock (program : Program α) (old : BlockId) (replacement : Block α) :
    (program.replaceBlock old replacement).hops = program.hops := by
  unfold replaceBlock
  dsimp only
  split <;> rfl

theorem hop_of_hops {after : Program α} (same : after.hops = program.hops) :
    after.hop = program.hop := by
  funext id
  rw [Program.hop, Program.hop, same]

end Program

namespace Plan

open Change (IsAtomic)

variable {α β : Type} {plan before after : Plan α} {id parent : NodeId} {own : BlockId}
  {changeRecord : PlanNode → PlanNode} {changeSettings : ParallelSettings α → ParallelSettings α}

/-- All that was there before is as it was, except for the node, for the block and the operator that
it stands for, and for a block that lists what the node stands for now in place of what it stood
for. -/
structure KeepsOthers (id : NodeId) (relisting : Option BlockId) (before after : Plan α) :
    Prop where
  tree : before.tree.KeepsRows id after.tree
  blocks : ∀ other block, before.program.block other = .ok block → before.blockOf id ≠ .ok other →
    relisting ≠ some other → after.program.block other = .ok block
  hops : ∀ other hop, before.program.hop other = .ok hop → before.hopOf id ≠ .ok other →
    after.program.hop other = .ok hop
  lists : ∀ above ∈ relisting, ∃ old new block, before.blockOf id = .ok old ∧
    after.blockOf id = .ok new ∧ before.program.block above = .ok block ∧ old ∈ block.children ∧
    after.program.block above = .ok { block with
      children := block.children.map fun child => if child = old then new else child }

/-- The change leaves the plan as it is when it fails, and all but these parts of it when it
succeeds. -/
structure StaysLocal (id : NodeId) (relisting : Option BlockId) (plan : Plan α)
    (change : Change (Plan α) β) : Prop where
  failed : ∀ {cause after}, change.result plan = (.error cause, after) → after = plan
  done : ∀ {value after}, change.result plan = (.ok value, after) →
    plan.KeepsOthers id relisting after

/-! ## Single changes -/

/-- The record of the node is changed, and nothing else. -/
theorem KeepsOthers.of_rows (rows : plan.tree.KeepsRows id after.tree)
    (program_eq : after.program = plan.program) : plan.KeepsOthers id none after where
  tree := rows
  blocks _ _ held _ _ := program_eq ▸ held
  hops _ _ held _ := program_eq ▸ held
  lists _ listed := nomatch listed

/-- The block of the node is changed, too. -/
theorem KeepsOthers.of_modifyBlock (rows : plan.tree.KeepsRows id after.tree)
    (bound : plan.blockOf id = .ok own) {change : Block α → Block α}
    (program_eq : after.program = plan.program.modifyBlock own change) :
    plan.KeepsOthers id none after where
  tree := rows
  blocks other block held different _ := by
    have elsewhere : other ≠ own := fun same => different (same ▸ bound)
    rw [program_eq, Program.block_modifyBlock_of_ne elsewhere, held]
  hops other hop held _ := by rwa [program_eq, Program.hop_of_hops rfl]
  lists _ listed := nomatch listed

/-- Changing settings that are there changes the block of the node. -/
theorem eq_of_updateSettings
    (done : (updateSettings id changeSettings).result plan = (.ok (), after)) :
    ∃ own, plan.blockOf id = .ok own ∧ after = { plan with
      program := plan.program.modifyBlock own fun block =>
        { block with settings := block.settings.map changeSettings } } := by
  obtain ⟨_, -, named⟩ := Change.of_inspect_bind done
  obtain ⟨own, bound, changed⟩ := Change.of_inspect_bind named
  cases changed
  exact ⟨own, bound, rfl⟩

theorem keepsOthers_updateSettings
    (done : (updateSettings id changeSettings).result plan = (.ok (), after)) :
    plan.KeepsOthers id none after := by
  obtain ⟨own, bound, rfl⟩ := eq_of_updateSettings done
  exact .of_modifyBlock (PlanTree.keepsRows_refl id plan.tree) bound rfl

theorem keepsOthers_decision (distinct : plan.tree.ids.Nodup)
    (keeps : ∀ node, (changeRecord node).id = node.id)
    (done : (do updateSettings id changeSettings; updateNode id changeRecord).result plan =
      (.ok (), after)) : plan.KeepsOthers id none after := by
  obtain ⟨own, _, bound, -, tree_eq, program_eq⟩ := of_decision done
  exact .of_modifyBlock (tree_eq ▸ PlanTree.keepsRows_update distinct keeps) bound program_eq

theorem keepsOthers_setPlacement (distinct : plan.tree.ids.Nodup) {placement : Placement}
    (done : (setPlacement id placement).result plan = (.ok (), after)) :
    plan.KeepsOthers id none after := by
  have chosen := Change.of_get_bind done
  split at chosen
  next => cases chosen
  next node _ =>
    dsimp only at chosen
    split at chosen
    next =>
      apply keepsOthers_decision distinct _ chosen
      exact fun _ => rfl
    next =>
      cases chosen
      exact .of_rows (PlanTree.keepsRows_update distinct fun _ => rfl) rfl

theorem keepsOthers_setPartitionFormat (distinct : plan.tree.ids.Nodup) {format : PartitionFormat}
    {slice : α} (done : (setPartitionFormat id format slice).result plan = (.ok (), after)) :
    plan.KeepsOthers id none after := by
  obtain ⟨operator, bound, held⟩ := Change.of_inspect_bind done
  obtain ⟨_, -, changed⟩ := Change.of_inspect_bind held
  cases changed
  refine ⟨PlanTree.keepsRows_update distinct fun _ => rfl, fun _ _ held _ _ => held,
    fun other hop held different => ?_, fun _ listed => nomatch listed⟩
  have elsewhere : other ≠ operator := fun same => different (same ▸ bound)
  exact (Program.hop_modifyHop _ _ _ _).trans ((if_neg elsewhere).trans held)

/-- A split puts in a new node and a new block, and changes those of the loop. -/
theorem keepsOthers_splitLoop (numbered : plan.tree.IsNumbered) {chunk : Nat} {var : String}
    {inner : NodeId} (done : (splitLoop id chunk var).result plan = (.ok inner, after)) :
    plan.KeepsOthers id none after := by
  obtain ⟨own, block, _, count, bounds, _, _, bound, held, -, -, -, -, -, tree_eq, program_eq⟩ :=
    of_splitLoop done
  rw [PlanTree.update_insertBelow] at tree_eq
  refine ⟨?_, fun other kept found different _ => ?_, fun other hop found _ => ?_,
    fun _ listed => nomatch listed⟩
  · rw [tree_eq]
    exact PlanTree.keepsRows_wedge numbered.freshId_not_mem (id_outerNode count (max chunk 1))
  · have elsewhere : other ≠ own := fun same => different (same ▸ bound)
    rw [program_eq, Program.block_modifyBlock_of_ne elsewhere,
      Program.block_addBlock_of_block found]
  · rwa [program_eq, Program.hop_of_hops rfl]

/-- A demotion replaces the block of the node, which one other block may list. -/
theorem keepsOthers_demote (distinct : plan.tree.ids.Nodup) (bound : plan.blockOf id = .ok own)
    (done : (demote id).result plan = (.ok (), after)) :
    plan.KeepsOthers id (plan.program.parentOf? own) after := by
  obtain ⟨old, block, bounds, alsoBound, -, -, tree_eq, program_eq⟩ := of_demote done
  obtain rfl := Except.ok.inj (bound.symm.trans alsoBound)
  have reads {other : BlockId} {kept : Block α} (found : plan.program.block other = .ok kept) :=
    Program.block_replaceBlock_of_block found own (.sequential bounds block.children)
  refine ⟨tree_eq ▸ PlanTree.keepsRows_update distinct fun _ => rfl,
    fun other kept found _ unlisted => ?_, fun other hop found _ => ?_, fun above parent => ?_⟩
  · rw [program_eq, reads found, if_neg unlisted]
  · rwa [program_eq, Program.hop_of_hops (Program.hops_replaceBlock ..)]
  · obtain ⟨lister, found, lists⟩ := Program.of_parentOf? parent
    refine ⟨own, plan.program.nextBlock, lister, bound, ?_, found, lists, ?_⟩
    · -- The node is there, since it stood for a block.
      obtain ⟨node, inside, rfl, -⟩ := exists_node_of_blockOf bound
      rw [blockOf, tree_eq, PlanTree.node?_update fun _ => by rfl, if_pos rfl,
        PlanTree.node?_eq_some distinct inside]
      rfl
    · rw [program_eq, reads found, if_pos (Option.mem_def.mp parent)]

/-! ## All operations -/

namespace Operation

/-- The block that lists another one afterwards: for a demotion, the parent of the block that is
replaced. -/
def relisting (plan : Plan α) (id : NodeId) : Operation α → Option BlockId
  | demote => (plan.blockOf id).toOption.bind plan.program.parentOf?
  | _ => none

/-- The operation adds a node or a block. -/
def grows : Operation α → Bool
  | splitLoop .. | demote => true
  | _ => false

variable {operation : Operation α}

theorem keepsOthers_run (numbered : plan.tree.IsNumbered) (single : operation ≠ serialize)
    (done : (operation.run id).result plan = (.ok (), after)) :
    plan.KeepsOthers id (operation.relisting plan id) after := by
  have distinct := numbered.distinct
  cases operation with
  | setPlacement placement => exact keepsOthers_setPlacement distinct done
  | serialize => exact absurd rfl single
  | setWorkers | setTaskPartitioner | setDataPartitioner | setResultMerge =>
    apply keepsOthers_decision distinct _ done
    exact fun _ => rfl
  | setPartitionFormat format slice => exact keepsOthers_setPartitionFormat distinct done
  | setRecompileBudget | setColocated => exact keepsOthers_updateSettings done
  | splitLoop chunk var =>
    obtain ⟨inner, mid, divided, returned⟩ := Change.of_bind done
    cases returned
    exact keepsOthers_splitLoop numbered divided
  | demote =>
    obtain ⟨own, _, _, bound, -⟩ := of_demote done
    have replaced := keepsOthers_demote numbered.distinct bound done
    rwa [relisting, bound]

end Operation

/-- A new node is put in only when everything is found. -/
theorem isAtomic_addBlockNode (parent : NodeId) (block : BlockId) :
    IsAtomic (addBlockNode (α := α) parent block) :=
  .inspect_bind _ fun _ => .get_bind fun _ => .ofExcept_bind _ fun _ => .get_bind fun _ =>
    .ofOutcome_bind _ fun _ => (IsAtomic.modify _).bind_total fun _ _ => rfl

theorem keepsOthers_addBlockNode (numbered : plan.tree.IsNumbered) {block : BlockId}
    (done : (addBlockNode parent block).result plan = (.ok id, after)) :
    plan.KeepsOthers parent none after := by
  obtain ⟨_, node, -, node_eq, -, rfl⟩ := of_addBlockNode done
  obtain ⟨next, -⟩ := of_nodeOfBlock node_eq
  refine .of_rows (PlanTree.keepsRows_addChild ?_ parent) rfl
  rw [next]
  exact numbered.freshId_not_mem

/-- The operations on one node, and adding a node for a block, are all or nothing, and they only
change what belongs to the node. Making a whole loop serial is a chain of such operations. There have
to be ids left for what is added, and these are words. -/
theorem staysLocal_of_isNumbered (numbered : plan.tree.IsNumbered) (id : NodeId) :
    (∀ operation : Operation α, operation ≠ .serialize →
      (operation.grows = true → plan.HasRoom) →
        plan.StaysLocal id (operation.relisting plan id) (operation.run id) ∧
          (operation.grows = true → plan.GivesWords)) ∧
    ∀ block, plan.HasRoom →
      plan.StaysLocal id none (addBlockNode id block) ∧ plan.GivesWords := by
  refine ⟨fun operation single room => ⟨⟨?_, ?_⟩, fun grows => (room grows).givesWords⟩,
    fun block room => ⟨⟨?_, ?_⟩, room.givesWords⟩⟩
  · exact Operation.isAtomic_run single _ _ _
  · exact Operation.keepsOthers_run numbered single
  · exact isAtomic_addBlockNode id block _ _ _
  · exact keepsOthers_addBlockNode numbered

/-- Of a loop over chunks, the loop within a chunk is demoted: the outer block lists a new one then.
At a node that is not there, nothing can be decided, and nothing is changed. -/
theorem staysLocal_chunksAndSix : ∃ after cause, chunksAndSix.HasRoom ∧ chunksAndSix.GivesWords ∧
    (demote ⟨1⟩).result chunksAndSix = (.ok (), after) ∧
      chunksAndSix.KeepsOthers ⟨1⟩ (some ⟨0⟩) after ∧ after.program.listed ⟨0⟩ = [⟨3⟩] ∧
      (setWorkers ⟨7⟩ 2).result chunksAndSix = (.error cause, chunksAndSix) := by
  have numbered := isFormed_chunksAndSix.numbered
  have room : chunksAndSix.HasRoom := ⟨by decide +kernel, by decide +kernel⟩
  obtain ⟨_, done⟩ := Change.result_eq_ok
    (show ((demote ⟨1⟩).result chunksAndSix).1.isOk = true by decide +kernel)
  obtain ⟨demoted, words⟩ :=
    (staysLocal_of_isNumbered numbered ⟨1⟩).1 .demote nofun fun _ => room
  have parent : Operation.relisting chunksAndSix ⟨1⟩ .demote = some ⟨0⟩ := by decide +kernel
  rw [parent] at demoted
  have refused := ((staysLocal_of_isNumbered numbered ⟨7⟩).1 (.setWorkers 2) nofun nofun).1
  have missing : ((setWorkers ⟨7⟩ 2).result chunksAndSix).1 =
      .error (.error (.nodeWithoutBlock ⟨7⟩)) := by decide +kernel
  have unchanged := refused.failed (Prod.ext missing rfl)
  exact ⟨_, _, room, words rfl, done, demoted.done done, by decide +kernel,
    Prod.ext missing unchanged⟩

end Plan

end ParallelLoop
