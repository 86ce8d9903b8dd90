/-
# The operations on plans

A plan is changed by eleven operations, each of which is about one node. What is decided about a
loop stands in two places, in the record of its node and in the settings of its block, and an
operation has to change both of them alike. `Plan.Agrees` says of a relation between a record and
settings that it holds for every loop.

Whether an operation keeps such a relation depends on two things. What it does to the record and to
the settings has to keep the relation, which is `Plan.IsKept`. And the change of the settings must
not show in another loop, which it does when two loops stand for one block; the operation
`Plan.Operation.Suits` a plan when there is no such loop. A split puts a new loop into the plan, and
its relation has to hold from the start.
-/

import ParallelLoop.Proofs.Plan.Ownership

namespace ParallelLoop

/-! ## Settings of blocks -/

namespace Program

variable {α : Type} {program : Program α} {block : Block α} {settings : ParallelSettings α}
  {id old : BlockId}

/-- The settings of a block, if it is there and has any. -/
def settings? (program : Program α) (id : BlockId) : Option (ParallelSettings α) :=
  program.blocks[id.index]?.bind Block.settings

theorem settings?_of_block (found : program.block id = .ok block) :
    program.settings? id = block.settings := by
  rw [settings?, getElem?_of_block found, Option.bind_some]

theorem ne_nextBlock_of_settings? (found : program.settings? id = some settings) :
    id ≠ program.nextBlock := by
  obtain ⟨block, held, -⟩ := Option.bind_eq_some_iff.mp found
  exact ne_nextBlock (Array.getElem?_eq_some_iff.mp held).1

theorem settings?_nextBlock (program : Program α) : program.settings? program.nextBlock = none := by
  cases found : program.settings? program.nextBlock with
  | none => rfl
  | some _ => exact absurd rfl (ne_nextBlock_of_settings? found)

theorem settings?_modifyBlock (program : Program α) (id : BlockId)
    (change : ParallelSettings α → ParallelSettings α) (other : BlockId) :
    (program.modifyBlock id fun block =>
      { block with settings := block.settings.map change }).settings? other =
        if other = id then (program.settings? id).map change else program.settings? other := by
  unfold settings?
  rw [getElem?_modifyBlock]
  split
  next => cases program.blocks[id.index]? <;> rfl
  next => rfl

/-- The new block has its own settings, and the other ones keep theirs. -/
theorem settings?_replaceBlock (program : Program α) (old : BlockId) (replacement : Block α)
    (id : BlockId) : (program.replaceBlock old replacement).settings? id =
      if id = program.nextBlock then replacement.settings else program.settings? id := by
  -- The parent of the old block changes its list, which does not show.
  have blind (row : Option (Block α)) : (row.map fun block =>
      if program.parentOf? old = some id then
        { block with
          children := block.children.map fun child =>
            if child = old then program.nextBlock else child }
      else block).bind Block.settings = row.bind Block.settings := by
    cases row with
    | none => rfl
    | some block => rw [Option.map_some]; split <;> rfl
  rw [settings?, getElem?_replaceBlock, blind, getElem?_addBlock]
  split <;> rfl

end Program

namespace Plan

open Change (IsAtomic Preserves)

variable {α : Type} {fits : PlanNode → ParallelSettings α → Prop} {plan after : Plan α}
  {id : NodeId} {blockId : BlockId} {settings : ParallelSettings α}

theorem settings_eq_ok_iff_block : plan.settings id = .ok settings ↔
    ∃ blockId, plan.blockOf id = .ok blockId ∧ plan.program.settings? blockId = some settings := by
  rw [settings_eq_ok_iff, settings?, Option.bind_eq_some_iff]
  constructor
  · rintro ⟨block, there, found⟩
    obtain ⟨blockId, bound, held⟩ := block?_eq_some_iff.mp there
    exact ⟨blockId, bound, (Program.settings?_of_block held).trans found⟩
  · rintro ⟨blockId, bound, found⟩
    obtain ⟨block, held, settings_eq⟩ := Option.bind_eq_some_iff.mp found
    exact ⟨block, block?_eq_some_iff.mpr ⟨blockId, bound, Program.block_of_getElem? held⟩,
      settings_eq⟩

theorem blockOf_eq (distinct : plan.tree.ids.Nodup) {node : PlanNode}
    (there : node ∈ plan.tree.nodes) (block_eq : node.block = some blockId) :
    plan.blockOf node.id = .ok blockId := by
  rw [blockOf, PlanTree.node?_eq_some distinct there, Option.bind_some, block_eq]

/-- Every loop stands for a block with settings, and they fit its node. -/
def Agrees (fits : PlanNode → ParallelSettings α → Prop) (plan : Plan α) : Prop :=
  ∀ node ∈ plan.tree.nodes, node.kind = .parfor → ∃ id settings, node.block = some id ∧
    plan.program.settings? id = some settings ∧ fits node settings

theorem Agrees.mono {weaker : PlanNode → ParallelSettings α → Prop} (agrees : plan.Agrees fits)
    (implies : ∀ node settings, fits node settings → weaker node settings) :
    plan.Agrees weaker := by
  intro node there loop
  obtain ⟨id, settings, block_eq, found, held⟩ := agrees node there loop
  exact ⟨id, settings, block_eq, found, implies node settings held⟩

/-- No other loop stands for the block of this node. -/
def IsApart (plan : Plan α) (id : NodeId) : Prop :=
  ∀ loop ∈ plan.tree.nodes, loop.kind = .parfor → ∀ blockId, loop.block = some blockId →
    plan.blockOf id = .ok blockId → loop.id = id

theorem OwnsBlocks.isApart (owns : plan.OwnsBlocks) (id : NodeId) : plan.IsApart id := by
  intro loop there parallel blockId block_eq bound
  obtain ⟨node, inside, rfl, same⟩ := exists_node_of_blockOf bound
  exact owns loop there parallel node inside blockId block_eq same

/-- Plans of one layout bind nodes to the same blocks. -/
theorem blockOf_of_layout (same : after.layout = plan.layout) (id : NodeId) :
    after.blockOf id = plan.blockOf id := by
  have bare (tree : PlanTree) : ((tree.mapNodes PlanNode.undecided).node? id).bind PlanNode.block =
      (tree.node? id).bind PlanNode.block := by
    rw [PlanTree.node?_mapNodes fun _ => by rfl]
    cases tree.node? id <;> rfl
  have bound := congrArg (fun layout => (layout.1.node? id).bind PlanNode.block) same
  simp only [layout, bare] at bound
  rw [blockOf, blockOf, bound]

theorem IsApart.of_layout (apart : plan.IsApart id) (same : after.layout = plan.layout) :
    after.IsApart id := by
  intro loop there parallel blockId block_eq bound
  obtain ⟨twin, inside, id_eq, kind_eq, twin_eq⟩ := exists_node_of_layout same there
  rw [id_eq]
  exact apart twin inside (kind_eq ▸ parallel) blockId (twin_eq ▸ block_eq)
    (blockOf_of_layout same id ▸ bound)

/-! ## Operations -/

/-- What can be done to a plan at one of its nodes. -/
inductive Operation (α : Type)
  | setPlacement (placement : Placement)
  | setWorkers (workers : Nat)
  | serialize
  | setTaskPartitioner (kind : PartitionerKind)
  | setDataPartitioner (partitioner : DataPartitioner)
  | setPartitionFormat (format : PartitionFormat) (slice : α)
  | setResultMerge (merge : ResultMerge)
  | setRecompileBudget (budget : α)
  | setColocated (matrix : String)
  | splitLoop (chunk : Nat) (var : String)
  | demote

namespace Operation

/-- The change that an operation at a node is. -/
def run (id : NodeId) : Operation α → Change (Plan α) Unit
  | setPlacement placement => Plan.setPlacement id placement
  | setWorkers workers => Plan.setWorkers id workers
  | serialize => Plan.serialize id
  | setTaskPartitioner kind => Plan.setTaskPartitioner id kind
  | setDataPartitioner partitioner => Plan.setDataPartitioner id partitioner
  | setPartitionFormat format slice => Plan.setPartitionFormat id format slice
  | setResultMerge merge => Plan.setResultMerge id merge
  | setRecompileBudget budget => Plan.setRecompileBudget id budget
  | setColocated matrix => Plan.setColocated id matrix
  | splitLoop chunk var => do let _ ← Plan.splitLoop id chunk var
  | demote => Plan.demote id

/-- No other loop stands for a block whose settings the operation changes. A format is set for an
operator, which is no loop. -/
def Suits (plan : Plan α) (id : NodeId) : Operation α → Prop
  | setPartitionFormat .. =>
    ∀ loop ∈ plan.tree.nodes, loop.kind = .parfor → loop.id = id → loop.hop = none
  | serialize => ∀ tree, plan.tree.find? id = some tree → ∀ node ∈ tree.nodes,
    node.kind = .parfor → plan.IsApart node.id
  | demote => True
  | _ => plan.IsApart id

end Operation

/-- The relation between a loop and its settings is kept by what operations do to both of them. -/
structure IsKept (fits : PlanNode → ParallelSettings α → Prop) : Prop where
  placement : ∀ {node settings} placement, fits node settings →
    fits { node with placement } { settings with mode := placement }
  workers : ∀ {node settings} workers, fits node settings →
    fits { node with workers } { settings with workers }
  taskPartitioner : ∀ {node settings} kind, fits node settings →
    fits (node.setParam .taskPartitioner kind.name) { settings with taskPartitioner := kind }
  dataPartitioner : ∀ {node settings} partitioner, fits node settings →
    fits (node.setParam .dataPartitioner partitioner.name)
      { settings with dataPartitioner := partitioner }
  resultMerge : ∀ {node settings} merge, fits node settings →
    fits (node.setParam .resultMerge merge.name) { settings with resultMerge := merge }
  recompileBudget : ∀ {node settings} recompileBudget, fits node settings →
    fits node { settings with recompileBudget }
  colocated : ∀ {node settings} colocated, fits node settings →
    fits node { settings with colocated }
  numIterations : ∀ {node settings} text, fits node settings →
    fits (node.setParam .numIterations text) settings

/-! ## Single decisions -/

section Decisions

variable {changeRecord : PlanNode → PlanNode}
  {changeSettings : ParallelSettings α → ParallelSettings α}

/-- What a decision that succeeds makes of a plan. -/
theorem of_decision
    (done : (do updateSettings id changeSettings; updateNode id changeRecord).result plan =
      (.ok (), after)) :
    ∃ blockId settings, plan.blockOf id = .ok blockId ∧
      plan.program.settings? blockId = some settings ∧
      after.tree = plan.tree.update id changeRecord ∧
      after.program = plan.program.modifyBlock blockId fun block =>
        { block with settings := block.settings.map changeSettings } := by
  obtain ⟨_, mid, first, second⟩ := Change.of_bind done
  obtain ⟨settings, read, named⟩ := Change.of_inspect_bind first
  obtain ⟨block, bound, changed⟩ := Change.of_inspect_bind named
  obtain ⟨blockId, alsoBound, found⟩ := settings_eq_ok_iff_block.mp read
  obtain rfl := Except.ok.inj (bound.symm.trans alsoBound)
  cases changed
  cases second
  exact ⟨block, settings, bound, found, rfl, rfl⟩

/-- The settings of one block and the record of one node are changed alike. -/
theorem Agrees.of_changes (agrees : plan.Agrees fits) (distinct : plan.tree.ids.Nodup)
    (apart : plan.IsApart id) (bound : plan.blockOf id = .ok blockId)
    (tree_eq : after.tree = plan.tree.update id changeRecord)
    (program_eq : after.program = plan.program.modifyBlock blockId fun block =>
      { block with settings := block.settings.map changeSettings })
    (block_eq : ∀ node, (changeRecord node).block = node.block)
    (kind_eq : ∀ node, (changeRecord node).kind = node.kind)
    (kept : ∀ node settings, fits node settings →
      fits (changeRecord node) (changeSettings settings)) :
    after.Agrees fits := by
  intro node there parallel
  rw [tree_eq, PlanTree.update_eq_mapNodes distinct, PlanTree.nodes_mapNodes] at there
  obtain ⟨twin, inside, rfl⟩ := List.mem_map.mp there
  rw [program_eq]
  -- The loop itself changes with its block; any other loop has a block of its own.
  by_cases here : twin.id = id
  · rw [if_pos here] at parallel ⊢
    obtain ⟨own, settings, own_eq, found, held⟩ :=
      agrees twin inside ((kind_eq twin).symm.trans parallel)
    obtain rfl := Except.ok.inj (bound.symm.trans (here ▸ blockOf_eq distinct inside own_eq))
    refine ⟨blockId, changeSettings settings, (block_eq twin).trans own_eq, ?_,
      kept twin settings held⟩
    rw [Program.settings?_modifyBlock, if_pos rfl, found, Option.map_some]
  · rw [if_neg here] at parallel ⊢
    obtain ⟨own, settings, own_eq, found, held⟩ := agrees twin inside parallel
    refine ⟨own, settings, own_eq, ?_, held⟩
    rw [Program.settings?_modifyBlock, if_neg, found]
    rintro rfl
    exact here (apart twin inside parallel own own_eq bound)

/-- A decision about a loop on both sides. -/
theorem Agrees.of_decision (agrees : plan.Agrees fits) (distinct : plan.tree.ids.Nodup)
    (apart : plan.IsApart id)
    (done : (do updateSettings id changeSettings; updateNode id changeRecord).result plan =
      (.ok (), after))
    (block_eq : ∀ node, (changeRecord node).block = node.block)
    (kind_eq : ∀ node, (changeRecord node).kind = node.kind)
    (kept : ∀ node settings, fits node settings →
      fits (changeRecord node) (changeSettings settings)) :
    after.Agrees fits := by
  obtain ⟨blockId, settings, bound, -, tree_eq, program_eq⟩ := Plan.of_decision done
  exact agrees.of_changes distinct apart bound tree_eq program_eq block_eq kind_eq kept

/-- A decision about the settings of a loop alone. -/
theorem Agrees.of_updateSettings (agrees : plan.Agrees fits) (distinct : plan.tree.ids.Nodup)
    (apart : plan.IsApart id)
    (done : (updateSettings id changeSettings).result plan = (.ok (), after))
    (kept : ∀ node settings, fits node settings → fits node (changeSettings settings)) :
    after.Agrees fits := by
  -- The record is changed to itself.
  have unchanged : (updateNode id fun node => node).result after = (.ok (), after) := by
    rw [updateNode, Change.result_modify, PlanTree.update_eq_mapNodes]
    · simp [PlanTree.mapNodes_eq_self]
    · rwa [show after.tree = plan.tree from (preserves_tree_updateSettings id _).eq done]
  have decided : (do updateSettings id changeSettings; updateNode id fun node => node).result plan =
      (.ok (), after) := by rw [Change.result_bind done, unchanged]
  exact agrees.of_decision distinct apart decided (fun _ => rfl) (fun _ => rfl) kept

/-- The record of a node that is no loop, and no settings. -/
theorem Agrees.of_record (agrees : plan.Agrees fits) (distinct : plan.tree.ids.Nodup)
    (other : ∀ node ∈ plan.tree.nodes, node.id = id → node.kind ≠ .parfor)
    (tree_eq : after.tree = plan.tree.update id changeRecord)
    (settings_eq : after.program.settings? = plan.program.settings?)
    (kind_eq : ∀ node, (changeRecord node).kind = node.kind) : after.Agrees fits := by
  intro node there parallel
  rw [tree_eq, PlanTree.update_eq_mapNodes distinct, PlanTree.nodes_mapNodes] at there
  obtain ⟨twin, inside, rfl⟩ := List.mem_map.mp there
  rw [settings_eq]
  by_cases here : twin.id = id
  · rw [if_pos here] at parallel
    exact absurd ((kind_eq twin).symm.trans parallel) (other twin inside here)
  · rw [if_neg here] at parallel ⊢
    exact agrees twin inside parallel

end Decisions

/-! ## Demotions and splits -/

/-- A loop that is left after a demotion was there before. -/
theorem mem_of_demote (distinct : plan.tree.ids.Nodup)
    (done : (demote id).result plan = (.ok (), after)) {loop : PlanNode}
    (there : loop ∈ after.tree.nodes) (parallel : loop.kind = .parfor) :
    loop ∈ plan.tree.nodes := by
  obtain ⟨old, block, bounds, -, -, -, tree_eq, -⟩ := of_demote done
  rw [tree_eq, PlanTree.update_eq_mapNodes distinct, PlanTree.nodes_mapNodes] at there
  obtain ⟨twin, inside, rfl⟩ := List.mem_map.mp there
  by_cases here : twin.id = id
  · rw [if_pos here] at parallel
    cases parallel
  · rwa [if_neg here]

/-- The block that a demotion adds has no settings, as there were none at its place before. -/
theorem settings?_of_demote (done : (demote id).result plan = (.ok (), after)) :
    after.program.settings? = plan.program.settings? := by
  obtain ⟨old, block, bounds, -, -, -, -, program_eq⟩ := of_demote done
  funext other
  rw [program_eq, Program.settings?_replaceBlock]
  split
  next fresh => rw [fresh, Program.settings?_nextBlock]; rfl
  next => rfl

/-- Demoting a node changes no other one. -/
theorem Agrees.demote (agrees : plan.Agrees fits) (distinct : plan.tree.ids.Nodup)
    (done : (demote id).result plan = (.ok (), after)) : after.Agrees fits := by
  intro loop there parallel
  obtain ⟨own, settings, own_eq, found, held⟩ :=
    agrees loop (mem_of_demote distinct done there parallel) parallel
  exact ⟨own, settings, own_eq, settings?_of_demote done ▸ found, held⟩

/-- Nor does it change what is decided about another one. -/
theorem decided_of_demote {β γ : Type} {aspect : Aspect α β γ} {other : NodeId}
    (different : other ≠ id) (done : (demote id).result plan = (.ok (), after)) :
    after.decided aspect other = plan.decided aspect other := by
  obtain ⟨_, _, _, -, -, -, tree_eq, -⟩ := of_demote done
  have record : after.tree.node? other = plan.tree.node? other := by
    rw [tree_eq, PlanTree.node?_update (fun _ => by rfl), if_neg different]
  have settings (plan : Plan α) : plan.settings? other =
      ((plan.tree.node? other).bind PlanNode.block).bind plan.program.settings? :=
    Option.bind_assoc ..
  rw [decided, decided, settings, settings, record, settings?_of_demote done]

/-- The settings after a split: those of the outer loop and of the inner one, and the others. -/
theorem settings?_splitLoop {chunk : Nat} {var : String} {inner : NodeId}
    (done : (splitLoop id chunk var).result plan = (.ok inner, after)) :
    ∃ top settings, plan.blockOf id = .ok top ∧ plan.program.settings? top = some settings ∧
      after.program.settings? plan.program.nextBlock = some { settings with mode := .inProcess } ∧
      ∀ other, other ≠ plan.program.nextBlock → after.program.settings? other =
        if other = top then some { settings with mode := .remote }
        else plan.program.settings? other := by
  obtain ⟨top, block, node, count, bounds, settings, steps, bound, held, -, -, -, read, -, -,
    program_eq⟩ := of_splitLoop done
  obtain ⟨_, alsoBound, found⟩ := settings_eq_ok_iff_block.mp read
  obtain rfl := Except.ok.inj (bound.symm.trans alsoBound)
  have settings_eq : block.settings = some settings :=
    (Program.settings?_of_block held).symm.trans found
  -- The outer loop keeps its block, and the inner one gets a new one.
  have row (other : BlockId) : after.program.blocks[other.index]? =
      if other = top then some (plan.outerBlock (bounds.chunks var steps) block)
      else if other = plan.program.nextBlock then
        some (.parallel (bounds.withinChunk var steps) { settings with mode := .inProcess }
          block.children)
      else plan.program.blocks[other.index]? := by
    have different := Program.ne_nextBlock_of_settings? found
    rw [program_eq, Program.getElem?_modifyBlock, Program.getElem?_addBlock,
      Program.getElem?_addBlock, if_neg different, Program.getElem?_of_block held]
    rfl
  refine ⟨top, settings, bound, found, ?_, fun other old => ?_⟩
  · rw [Program.settings?, row, if_neg (Program.ne_nextBlock_of_settings? found).symm, if_pos rfl]
    rfl
  · rw [Program.settings?, row, if_neg old]
    split
    next => rw [Option.bind_some, outerBlock, settings_eq]; rfl
    next => rfl

/-- The nodes after a split: a new one, and the others with a new record for the outer loop. -/
theorem nodes_splitLoop {chunk : Nat} {var : String} {inner : NodeId}
    (numbered : plan.tree.IsNumbered)
    (done : (splitLoop id chunk var).result plan = (.ok inner, after)) :
    after.tree.IsNumbered ∧ ∃ count, ∀ node, node ∈ after.tree.nodes ↔
      node = plan.innerNode (max chunk 1) ∨ ∃ twin ∈ plan.tree.nodes,
        node = if twin.id = id then outerNode count (max chunk 1) twin else twin := by
  obtain ⟨_, _, _, count, _, _, _, -, -, found, -, -, -, -, tree_eq, -⟩ := of_splitLoop done
  have there := mem_ids_of_node found
  have grown : (plan.tree.insertBelow id (plan.innerNode (max chunk 1))).nodes.Perm
      (plan.innerNode (max chunk 1) :: plan.tree.nodes) :=
    PlanTree.nodes_insertBelow numbered.distinct there
  have ids := grown.map PlanNode.id
  have stillNumbered := numbered.of_perm ids
  rw [PlanTree.update_eq_mapNodes stillNumbered.distinct] at tree_eq
  have ids_eq : after.tree.ids = (plan.tree.insertBelow id (plan.innerNode (max chunk 1))).ids := by
    rw [tree_eq]
    apply PlanTree.ids_mapNodes
    intro node
    split <;> rfl
  refine ⟨(PlanTree.isNumbered_congr ids_eq).mpr stillNumbered, count, fun node => ?_⟩
  have new : (plan.innerNode (max chunk 1)).id ≠ id := fun same =>
    numbered.freshId_not_mem (by rwa [← same] at there)
  rw [tree_eq, PlanTree.nodes_mapNodes, (grown.map _).mem_iff, List.map_cons, List.mem_cons,
    if_neg new, List.mem_map]
  simp only [eq_comm]

/-- A split keeps what fits the loops, if the new loop fits its settings. -/
theorem Agrees.splitLoop (kept : IsKept fits) (agrees : plan.Agrees fits)
    (numbered : plan.tree.IsNumbered) (apart : plan.IsApart id) {chunk : Nat} {var : String}
    {inner : NodeId}
    (new : ∀ settings, plan.settings id = .ok settings →
      fits (plan.innerNode (max chunk 1)) { settings with mode := .inProcess })
    (done : (splitLoop id chunk var).result plan = (.ok inner, after)) : after.Agrees fits := by
  obtain ⟨top, settings, bound, found, inner_eq, others⟩ := settings?_splitLoop done
  obtain ⟨-, count, mem_iff⟩ := nodes_splitLoop numbered done
  intro node there parallel
  -- The node is the new loop, the loop that was split, or one with another block.
  rcases (mem_iff node).mp there with rfl | ⟨twin, inside, rfl⟩
  · exact ⟨_, _, rfl, inner_eq, new settings (settings_eq_ok_iff_block.mpr ⟨top, bound, found⟩)⟩
  · by_cases here : twin.id = id
    · rw [if_pos here] at parallel ⊢
      obtain ⟨own, held, own_eq, own_found, fit⟩ := agrees twin inside parallel
      obtain rfl :=
        Except.ok.inj (bound.symm.trans (here ▸ blockOf_eq numbered.distinct inside own_eq))
      obtain rfl := Option.some.inj (found.symm.trans own_found)
      refine ⟨top, { settings with mode := .remote }, own_eq, ?_,
        kept.numIterations _ (kept.placement _ fit)⟩
      rw [others top (Program.ne_nextBlock_of_settings? found), if_pos rfl]
    · rw [if_neg here] at parallel ⊢
      obtain ⟨own, held, own_eq, own_found, fit⟩ := agrees twin inside parallel
      refine ⟨own, held, own_eq, ?_, fit⟩
      rw [others own (Program.ne_nextBlock_of_settings? own_found), if_neg, own_found]
      rintro rfl
      exact here (apart twin inside parallel own own_eq bound)

/-- A split looks up everything it needs before it changes anything. -/
theorem isAtomic_splitLoop (chunk : Nat) (var : String) :
    IsAtomic (splitLoop (α := α) id chunk var) :=
  .inspect_bind _ fun _ => .get_bind fun _ => .ofOutcome_bind _ fun _ => .ofExcept_bind _ fun _ =>
    .inspect_bind _ fun _ => .ofExcept_bind _ fun _ => .inspect_bind _ fun _ =>
    .ofOutcome_bind _ fun _ => .get_bind fun _ => .get_bind fun _ =>
    (IsAtomic.modify _).bind_total fun _ _ => rfl

/-! ## One step -/

/-- Giving one worker to some loops, one after the other. -/
theorem Agrees.serializeNodes (kept : IsKept fits) {nodes : List PlanNode}
    (agrees : plan.Agrees fits) (distinct : plan.tree.ids.Nodup)
    (apart : ∀ node ∈ nodes, node.kind = .parfor → plan.IsApart node.id)
    (done : (serializeNodes nodes).result plan = (.ok (), after)) : after.Agrees fits := by
  induction nodes generalizing plan with
  | nil =>
    cases done
    exact agrees
  | cons node rest ih =>
    rw [List.forall_mem_cons] at apart
    unfold Plan.serializeNodes at done
    split at done
    next loop =>
      obtain ⟨_, mid, first, others⟩ := Change.of_bind done
      have layout : mid.layout = plan.layout := (ignores_layout.given.setWorkers 1).eq first
      have agreesThen : mid.Agrees fits := agrees.of_decision distinct (apart.1 loop) first
        (fun _ => rfl) (fun _ => rfl) fun _ _ => kept.workers 1
      exact ih agreesThen (nodup_of_layout distinct layout)
        (fun other member parallel => (apart.2 other member parallel).of_layout layout) others
    next => exact ih agrees distinct apart.2 done

namespace Operation

variable {operation : Operation α}

/-- Apart from splits and demotions, operations preserve every view that leaves them out. -/
theorem preserves_run {γ : Type} {view : Plan α → γ} (ignores : Ignores PlanNode.given view)
    (whole : ∀ chunk var, operation ≠ splitLoop chunk var) (loops : operation ≠ demote) :
    Preserves view (operation.run id) := by
  cases operation with
  | setPlacement placement => exact ignores.setPlacement placement
  | setWorkers workers => exact ignores.setWorkers workers
  | serialize => exact ignores.serialize
  | setTaskPartitioner kind => exact ignores.setTaskPartitioner PlanNode.given_setParam kind
  | setDataPartitioner partitioner =>
    exact ignores.setDataPartitioner PlanNode.given_setParam partitioner
  | setPartitionFormat format slice => exact ignores.setPartitionFormat format slice
  | setResultMerge merge => exact ignores.setResultMerge PlanNode.given_setParam merge
  | setRecompileBudget budget => exact ignores.setRecompileBudget budget
  | setColocated matrix => exact ignores.setColocated matrix
  | splitLoop chunk var => exact absurd rfl (whole chunk var)
  | demote => exact absurd rfl loops

/-- They keep the layout of a plan. -/
theorem preserves_layout_run (whole : ∀ chunk var, operation ≠ splitLoop chunk var)
    (loops : operation ≠ demote) : Preserves layout (operation.run id) :=
  preserves_run ignores_layout.given whole loops

/-- An operation that fails leaves the plan as it is, except that the loops which were made serial
before the failure stay so. -/
theorem isAtomic_run (single : operation ≠ serialize) : IsAtomic (operation.run id) := by
  cases operation with
  | setPlacement placement =>
    refine .get_bind fun plan => ?_
    split
    next => exact .of_unchanged fun _ => rfl
    next =>
      dsimp only
      split
      next => exact isAtomic_decision
      next => exact .modify _
  | serialize => exact absurd rfl single
  | setWorkers | setTaskPartitioner | setDataPartitioner | setResultMerge =>
    exact isAtomic_decision
  | setRecompileBudget | setColocated => exact isAtomic_updateSettings
  | setPartitionFormat format slice =>
    exact .inspect_bind _ fun _ => .inspect_bind _ fun _ =>
      (IsAtomic.modify _).bind_total fun _ _ => rfl
  | splitLoop chunk var => exact (isAtomic_splitLoop chunk var).bind_total fun _ _ => rfl
  | demote =>
    exact .inspect_bind _ fun _ => .inspect_bind _ fun _ => .ofExcept_bind _ fun _ =>
      .get_bind fun _ => (IsAtomic.modify _).bind_total fun _ _ => rfl

/-- An operation that succeeds keeps what fits the loops of a plan that it suits. The inner loop of
a split has to fit its settings from the start. -/
theorem agrees_of_run (kept : IsKept fits) (agrees : plan.Agrees fits)
    (numbered : plan.tree.IsNumbered) (suits : operation.Suits plan id)
    (new : ∀ chunk var settings, operation = splitLoop chunk var →
      plan.settings id = .ok settings →
      fits (plan.innerNode (max chunk 1)) { settings with mode := .inProcess })
    (done : (operation.run id).result plan = (.ok (), after)) : after.Agrees fits := by
  have distinct := numbered.distinct
  cases operation with
  | setPlacement placement =>
    have chosen := Change.of_get_bind done
    split at chosen
    next => cases chosen
    next node found =>
      dsimp only at chosen
      split at chosen
      next =>
        exact agrees.of_decision distinct suits chosen (fun _ => rfl) (fun _ => rfl)
          fun _ _ => kept.placement placement
      next other =>
        cases chosen
        refine agrees.of_record distinct (fun twin there same => ?_) rfl rfl fun _ => rfl
        have twin_eq := PlanTree.node?_eq_some distinct there
        rw [same, found, Option.some.injEq] at twin_eq
        rwa [← twin_eq]
  | setWorkers workers =>
    exact agrees.of_decision distinct suits done (fun _ => rfl) (fun _ => rfl)
      fun _ _ => kept.workers workers
  | serialize =>
    have each := Change.of_get_bind done
    split at each
    next => cases each
    next tree found =>
      exact agrees.serializeNodes kept distinct (suits tree found) each
  | setTaskPartitioner kind =>
    exact agrees.of_decision distinct suits done (fun _ => rfl) (fun _ => rfl)
      fun _ _ => kept.taskPartitioner kind
  | setDataPartitioner partitioner =>
    exact agrees.of_decision distinct suits done (fun _ => rfl) (fun _ => rfl)
      fun _ _ => kept.dataPartitioner partitioner
  | setPartitionFormat format slice =>
    obtain ⟨hop, bound, held⟩ := Change.of_inspect_bind done
    obtain ⟨_, -, changed⟩ := Change.of_inspect_bind held
    cases changed
    refine agrees.of_record distinct (fun node there same parallel => ?_) rfl rfl fun _ => rfl
    -- The node stands for an operator, which a loop does not.
    have none := suits node there parallel same
    rw [hopOf, ← same, PlanTree.node?_eq_some distinct there, Option.bind_some, none] at bound
    cases bound
  | setResultMerge merge =>
    exact agrees.of_decision distinct suits done (fun _ => rfl) (fun _ => rfl)
      fun _ _ => kept.resultMerge merge
  | setRecompileBudget budget =>
    exact agrees.of_updateSettings distinct suits done fun _ _ => kept.recompileBudget (some budget)
  | setColocated matrix =>
    exact agrees.of_updateSettings distinct suits done fun _ _ => kept.colocated (some matrix)
  | splitLoop chunk var =>
    obtain ⟨inner, mid, divided, returned⟩ := Change.of_bind done
    cases returned
    exact agrees.splitLoop kept numbered suits (fun settings => new chunk var settings rfl) divided
  | demote => exact agrees.demote distinct done

/-- Whatever is done to a plan, its nodes stay numbered. -/
theorem isNumbered_of_run (numbered : plan.tree.IsNumbered)
    (done : (operation.run id).result plan = (.ok (), after)) : after.tree.IsNumbered := by
  by_cases whole : ∀ chunk var, operation ≠ splitLoop chunk var
  · refine (PlanTree.isNumbered_congr ?_).mpr numbered
    by_cases loops : operation = demote
    · subst loops
      obtain ⟨-, -, -, -, -, -, tree_eq, -⟩ := of_demote done
      rw [tree_eq]
      apply PlanTree.ids_update
      exact fun _ => rfl
    · exact ids_eq_of_layout ((preserves_layout_run whole loops).eq done)
  · obtain ⟨chunk, var, rfl⟩ : ∃ chunk var, operation = splitLoop chunk var := by
      simpa using whole
    obtain ⟨inner, mid, divided, returned⟩ := Change.of_bind done
    cases returned
    exact (nodes_splitLoop numbered divided).1

end Operation

end Plan

end ParallelLoop
