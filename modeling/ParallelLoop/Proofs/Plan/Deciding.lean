/-
# Decisions that are made again

What is decided about a loop is recorded in its node and in its settings. A decision can be
read back from both, decisions about other aspects of a loop do not show in it, and making
it again changes nothing.
-/

import ParallelLoop.Proofs.Plan.Blocks

namespace ParallelLoop

namespace PlanNode

theorem param?_setParam (node : PlanNode) (parameter other : Parameter) (text : String) :
    (node.setParam parameter text).param? other =
      if other = parameter then some text else node.param? other :=
  node.parameters.get?_set parameter other text

/-- Recording what is recorded changes nothing. -/
theorem setParam_eq_self {node : PlanNode} {parameter : Parameter} {text : String}
    (recorded : node.param? parameter = some text) : node.setParam parameter text = node := by
  have same : node.parameters.set parameter text = node.parameters := by
    unfold param? NodeParameters.get? at recorded
    unfold NodeParameters.set
    cases parameter <;> dsimp only at recorded ⊢ <;> rw [← recorded]
  rw [setParam, same]

end PlanNode

/-- An aspect of the decisions about a loop, as the node of the loop and its settings show it. -/
structure Aspect (α β γ : Type) where
  record : PlanNode → β
  setting : ParallelSettings α → γ

namespace Aspect

variable {α : Type}

abbrev workers : Aspect α Nat Nat := ⟨PlanNode.workers, ParallelSettings.workers⟩

abbrev placement : Aspect α Placement Placement := ⟨PlanNode.placement, ParallelSettings.mode⟩

abbrev taskPartitioner : Aspect α (Option String) PartitionerKind :=
  ⟨fun node => node.param? .taskPartitioner, ParallelSettings.taskPartitioner⟩

abbrev dataPartitioner : Aspect α (Option String) DataPartitioner :=
  ⟨fun node => node.param? .dataPartitioner, ParallelSettings.dataPartitioner⟩

abbrev resultMerge : Aspect α (Option String) ResultMerge :=
  ⟨fun node => node.param? .resultMerge, ParallelSettings.resultMerge⟩

/-- The settings alone show the budget for compiling a body again. -/
abbrev recompileBudget : Aspect α Unit (Option α) := ⟨fun _ => (), ParallelSettings.recompileBudget⟩

/-- The settings alone show what the tasks are placed next to. -/
abbrev colocated : Aspect α Unit (Option String) := ⟨fun _ => (), ParallelSettings.colocated⟩

/-- What nothing is decided about: the matrices that a loop reads and writes. -/
abbrev matrices : Aspect α Unit (List String × List (String × PartitionFormat)) :=
  ⟨fun _ => (), fun settings => (settings.resultVars, settings.candidates)⟩

end Aspect

namespace Plan

open Change (Preserves)

variable {α β γ : Type} {plan after : Plan α} {id : NodeId}

/-- The block that a node stands for. -/
def block? (plan : Plan α) (id : NodeId) : Option (Block α) :=
  ((plan.tree.node? id).bind PlanNode.block).bind fun block => plan.program.blocks[block.index]?

/-- The settings of a loop, if it has any. -/
def settings? (plan : Plan α) (id : NodeId) : Option (ParallelSettings α) :=
  (plan.block? id).bind Block.settings

/-- The bounds of a loop, if it has any. -/
def bounds? (plan : Plan α) (id : NodeId) : Option LoopBounds := (plan.block? id).bind Block.bounds

/-- The block that is looked up step by step. -/
theorem block?_eq_some_iff {block : Block α} :
    plan.block? id = some block ↔
      ∃ blockId, plan.blockOf id = .ok blockId ∧ plan.program.block blockId = .ok block := by
  unfold block? blockOf
  cases (plan.tree.node? id).bind PlanNode.block with
  | none => exact ⟨nofun, nofun⟩
  | some blockId =>
    rw [Option.bind_some]
    constructor
    · exact fun held => ⟨blockId, rfl, Program.block_of_getElem? held⟩
    · rintro ⟨_, same, found⟩
      cases same
      exact Program.getElem?_of_block found

theorem settings_eq_ok_iff {found : ParallelSettings α} :
    plan.settings id = .ok found ↔ plan.settings? id = some found := by
  constructor
  · intro read
    obtain ⟨blockId, bound, held⟩ := Outcome.of_bind read
    obtain ⟨block, block_eq, kept⟩ := Outcome.of_bind held
    rw [settings?, block?_eq_some_iff.mpr ⟨blockId, bound, block_eq⟩, Option.bind_some]
    cases of_block : block.settings with
    | none => simp [of_block] at kept
    | some settings => simpa [of_block] using kept
  · intro read
    obtain ⟨block, there, settings_eq⟩ := Option.bind_eq_some_iff.mp read
    obtain ⟨blockId, bound, block_eq⟩ := block?_eq_some_iff.mp there
    rw [settings, bound, Outcome.ok_bind, block_eq, Outcome.ok_bind, settings_eq]
    rfl

/-- What is decided about the loop with this id, as far as an aspect of it shows. -/
def decided (aspect : Aspect α β γ) (plan : Plan α) (id : NodeId) : Option β × Option γ :=
  ((plan.tree.node? id).map aspect.record, (plan.settings? id).map aspect.setting)

/-- A loop about which this is decided. -/
theorem of_decided {aspect : Aspect α β γ} {x : β} {y : γ}
    (held : plan.decided aspect id = (some x, some y)) :
    ∃ node settings, plan.tree.node? id = some node ∧ plan.settings id = .ok settings ∧
      aspect.record node = x ∧ aspect.setting settings = y := by
  obtain ⟨node, found, record_eq⟩ := Option.map_eq_some_iff.mp (congrArg Prod.fst held)
  obtain ⟨settings, read, setting_eq⟩ := Option.map_eq_some_iff.mp (congrArg Prod.snd held)
  exact ⟨node, settings, found, settings_eq_ok_iff.mpr read, record_eq, setting_eq⟩

/-- What is shown of a decision stays when the decision does. -/
theorem decided_congr {δ ε : Type} {other : NodeId} (record : β → δ) (setting : γ → ε)
    (same : after.decided aspect id = plan.decided aspect other) :
    after.decided ⟨fun node => record (aspect.record node), fun settings =>
      setting (aspect.setting settings)⟩ id =
        plan.decided ⟨fun node => record (aspect.record node), fun settings =>
          setting (aspect.setting settings)⟩ other := by
  have shown := congrArg (Prod.map (Option.map record) (Option.map setting)) same
  simpa [decided, Function.comp_def] using shown

/-- The topmost loop as it is decided. -/
theorem root_of_decided {x : β} {y : Option γ}
    (held : after.decided aspect after.tree.id = (some x, y)) :
    aspect.record after.tree.root = x := by
  have first := congrArg Prod.fst held
  rw [decided, PlanTree.node?_root] at first
  exact Option.some.inj first

/-- A change of one block of the program. -/
theorem block?_modifyBlock (plan : Plan α) (blockId : BlockId) (change : Block α → Block α) :
    block? { plan with program := plan.program.modifyBlock blockId change } id =
      if (plan.tree.node? id).bind PlanNode.block = some blockId then (plan.block? id).map change
      else plan.block? id := by
  unfold block?
  dsimp only
  cases (plan.tree.node? id).bind PlanNode.block with
  | none => simp
  | some own =>
    rw [Option.bind_some, Option.bind_some, Program.getElem?_modifyBlock]
    by_cases same : own = blockId
    · rw [same, if_pos rfl, if_pos rfl]
    · rw [if_neg same, if_neg fun both => same (Option.some.inj both)]

/-- A change of the settings of a block. -/
theorem settings?_modifyBlock (plan : Plan α) (blockId : BlockId)
    (change : ParallelSettings α → ParallelSettings α) :
    settings? { plan with program := plan.program.modifyBlock blockId fun held =>
      { held with settings := held.settings.map change } } id =
        if (plan.tree.node? id).bind PlanNode.block = some blockId then
          (plan.settings? id).map change
        else plan.settings? id := by
  unfold settings?
  rw [block?_modifyBlock]
  split
  next => cases plan.block? id <;> rfl
  next => rfl

/-- Updating settings that are there. -/
theorem of_updateSettings {change : ParallelSettings α → ParallelSettings α}
    (done : (updateSettings id change).result plan = (.ok (), after)) :
    ∃ node found, plan.tree.node? id = some node ∧ plan.settings? id = some found ∧
      after.tree = plan.tree ∧ after.settings? id = some (change found) := by
  obtain ⟨found, read, named⟩ := Change.of_inspect_bind done
  obtain ⟨block, bound, changed⟩ := Change.of_inspect_bind named
  cases changed
  rw [settings_eq_ok_iff] at read
  have own : (plan.tree.node? id).bind PlanNode.block = some block := by
    unfold blockOf at bound
    split at bound
    next own => rwa [← Except.ok.inj bound]
    next => cases bound
  obtain ⟨node, there, -⟩ := Option.bind_eq_some_iff.mp own
  refine ⟨node, found, there, read, rfl, ?_⟩
  rw [settings?_modifyBlock, if_pos own, read]
  rfl

variable {aspect : Aspect α β γ}
  {changeRecord : PlanNode → PlanNode} {changeSettings : ParallelSettings α → ParallelSettings α}

theorem preserves_decided_updateSettings
    (blind : ∀ s, aspect.setting (changeSettings s) = aspect.setting s) :
    Preserves (decided aspect) (updateSettings id changeSettings) :=
  .bind (.inspect _) fun _ => .bind (.inspect _) fun block => .modify fun plan => by
    funext other
    refine Prod.ext rfl ?_
    change (settings? _ other).map aspect.setting = (plan.settings? other).map aspect.setting
    rw [settings?_modifyBlock]
    split
    next => cases plan.settings? other <;> simp [blind]
    next => rfl

/-- The change keeps what a record stands for. -/
structure KeepsNode (change : PlanNode → PlanNode) : Prop where
  id : ∀ node, (change node).id = node.id
  block : ∀ node, (change node).block = node.block

theorem block?_updateNode (keeps : KeepsNode changeRecord) (plan : Plan α) (other : NodeId) :
    block? { plan with tree := plan.tree.update id changeRecord } other = plan.block? other := by
  have bound : ((plan.tree.update id changeRecord).node? other).bind PlanNode.block =
      (plan.tree.node? other).bind PlanNode.block := by
    rw [PlanTree.node?_update keeps.id]
    split
    next same =>
      rw [same]
      cases plan.tree.node? id <;> simp [keeps.block]
    next => rfl
  unfold block?
  rw [bound]

theorem settings?_updateNode (keeps : KeepsNode changeRecord) (plan : Plan α) (other : NodeId) :
    settings? { plan with tree := plan.tree.update id changeRecord } other =
      plan.settings? other := by
  unfold settings?
  rw [block?_updateNode keeps]

theorem preserves_decided_updateNode (keeps : KeepsNode changeRecord)
    (blind : ∀ node, aspect.record (changeRecord node) = aspect.record node) :
    Preserves (decided aspect) (updateNode id changeRecord) :=
  .modify fun plan => by
    funext other
    refine Prod.ext ?_
      (congrArg (Option.map aspect.setting) (settings?_updateNode keeps plan other))
    change ((plan.tree.update id changeRecord).node? other).map aspect.record = _
    rw [PlanTree.node?_update keeps.id]
    split
    next same =>
      rw [same]
      unfold decided
      cases plan.tree.node? id <;> simp [blind]
    next => rfl

/-- A decision that the views do not show. -/
theorem preserves_decided (keeps : KeepsNode changeRecord)
    (blindRecord : ∀ node, aspect.record (changeRecord node) = aspect.record node)
    (blindSettings : ∀ s, aspect.setting (changeSettings s) = aspect.setting s) :
    Preserves (decided aspect)
      (do updateSettings id changeSettings; updateNode id changeRecord) :=
  .bind (preserves_decided_updateSettings blindSettings) fun _ =>
    preserves_decided_updateNode keeps blindRecord

/-- Workers do not show in an aspect that shows none. -/
theorem preserves_decided_setWorkers
    (blindRecord : ∀ (node : PlanNode) workers,
      aspect.record { node with workers } = aspect.record node)
    (blindSettings : ∀ (settings : ParallelSettings α) workers,
      aspect.setting { settings with workers } = aspect.setting settings) (workers : Nat) :
    Preserves (decided aspect) (setWorkers id workers) :=
  preserves_decided ⟨fun _ => rfl, fun _ => rfl⟩ (fun node => blindRecord node workers)
    fun settings => blindSettings settings workers

theorem preserves_decided_serialize
    (blindRecord : ∀ (node : PlanNode) workers,
      aspect.record { node with workers } = aspect.record node)
    (blindSettings : ∀ (settings : ParallelSettings α) workers,
      aspect.setting { settings with workers } = aspect.setting settings) :
    Preserves (decided aspect) (serialize id) :=
  respects_serialize (preserves_decided_setWorkers blindRecord blindSettings)

/-! ## Deciding twice -/

/-- Settings that were decided can be read back. -/
theorem decided_of_updateSettings {setting : ParallelSettings α → γ} {y : γ}
    (settings : ∀ s, setting (changeSettings s) = y)
    (done : (updateSettings id changeSettings).result plan = (.ok (), after)) :
    after.decided ⟨fun _ => (), setting⟩ id = (some (), some y) := by
  obtain ⟨node, found, there, -, tree_eq, read⟩ := of_updateSettings done
  rw [decided, tree_eq, there, read]
  exact Prod.ext rfl (congrArg some (settings found))

/-- What was decided can be read back. -/
theorem decided_of_done {x : β} {y : γ}
    (done : (do updateSettings id changeSettings; updateNode id changeRecord).result plan =
      (.ok (), after))
    (keeps : KeepsNode changeRecord) (records : ∀ node, aspect.record (changeRecord node) = x)
    (settings : ∀ s, aspect.setting (changeSettings s) = y) :
    after.decided aspect id = (some x, some y) := by
  obtain ⟨_, mid, first, second⟩ := Change.of_bind done
  obtain ⟨node, found, there, -, tree_eq, read⟩ := of_updateSettings first
  cases second
  rw [decided, settings?_updateNode keeps, PlanTree.node?_update keeps.id, if_pos rfl, tree_eq,
    there, read]
  exact Prod.ext (congrArg some (records node)) (congrArg some (settings found))

/-- Updating settings that are there changes the block they are in. -/
theorem result_updateSettings {blockId : BlockId} {settings : ParallelSettings α}
    (bound : plan.blockOf id = .ok blockId) (read : plan.settings id = .ok settings)
    (change : ParallelSettings α → ParallelSettings α) :
    (updateSettings id change).result plan =
      (.ok (), { plan with program := plan.program.modifyBlock blockId fun block =>
        { block with settings := block.settings.map change } }) := by
  rw [updateSettings,
    Change.result_inspect_bind (fun plan : Plan α => plan.settings id) read,
    Change.result_inspect_bind (fun plan : Plan α => plan.blockOf id) bound, Change.result_modify]

theorem updateSettings_eq_self {x : Option β} {y : γ}
    (settings : ∀ s, aspect.setting s = y → changeSettings s = s)
    (held : plan.decided aspect id = (x, some y)) :
    (updateSettings id changeSettings).result plan = (.ok (), plan) := by
  obtain ⟨found, read, setting_eq⟩ := Option.map_eq_some_iff.mp (congrArg Prod.snd held)
  obtain ⟨block, there, settings_eq⟩ := Option.bind_eq_some_iff.mp read
  obtain ⟨blockId, own, block_eq⟩ := block?_eq_some_iff.mp there
  have same : plan.program.modifyBlock blockId (fun held =>
      { held with settings := held.settings.map changeSettings }) = plan.program := by
    refine Program.modifyBlock_eq_self (Program.getElem?_of_block block_eq) ?_
    rw [settings_eq, Option.map_some, settings found setting_eq, ← settings_eq]
  rw [result_updateSettings own (settings_eq_ok_iff.mpr read), same]

/-- Deciding again what is decided changes nothing. -/
theorem result_eq_self {x : β} {y : γ} (distinct : plan.tree.ids.Nodup)
    (records : ∀ node, aspect.record node = x → changeRecord node = node)
    (settings : ∀ s, aspect.setting s = y → changeSettings s = s)
    (held : plan.decided aspect id = (some x, some y)) :
    (do updateSettings id changeSettings; updateNode id changeRecord).result plan =
      (.ok (), plan) := by
  obtain ⟨node, there, record_eq⟩ := Option.map_eq_some_iff.mp (congrArg Prod.fst held)
  have same : plan.tree.update id changeRecord = plan.tree := by
    rw [PlanTree.update_eq_mapNodes distinct]
    refine PlanTree.mapNodes_eq_self fun other inside => ?_
    split
    next here =>
      rw [← here, PlanTree.node?_eq_some distinct inside, Option.some.injEq] at there
      exact records other (there ▸ record_eq)
    next => rfl
  rw [Change.result_bind (updateSettings_eq_self settings held), updateNode, Change.result_modify,
    same]

/-! ## Each decision twice -/

theorem decided_setWorkers {workers : Nat}
    (done : (setWorkers id workers).result plan = (.ok (), after)) :
    after.decided .workers id = (some workers, some workers) :=
  decided_of_done done ⟨fun _ => rfl, fun _ => rfl⟩ (fun _ => rfl) fun _ => rfl

theorem decided_setTaskPartitioner {kind : PartitionerKind}
    (done : (setTaskPartitioner id kind).result plan = (.ok (), after)) :
    after.decided .taskPartitioner id = (some (some kind.name), some kind) :=
  decided_of_done done ⟨fun _ => rfl, fun _ => rfl⟩ (fun _ => rfl) fun _ => rfl

theorem setTaskPartitioner_eq_self {kind : PartitionerKind} (distinct : plan.tree.ids.Nodup)
    (held : plan.decided .taskPartitioner id = (some (some kind.name), some kind)) :
    (setTaskPartitioner id kind).result plan = (.ok (), plan) :=
  result_eq_self distinct (fun _ same => PlanNode.setParam_eq_self same)
    (fun _ same => by rw [← same]) held

theorem decided_setDataPartitioner {partitioner : DataPartitioner}
    (done : (setDataPartitioner id partitioner).result plan = (.ok (), after)) :
    after.decided .dataPartitioner id = (some (some partitioner.name), some partitioner) :=
  decided_of_done done ⟨fun _ => rfl, fun _ => rfl⟩ (fun _ => rfl) fun _ => rfl

theorem setDataPartitioner_eq_self {partitioner : DataPartitioner}
    (distinct : plan.tree.ids.Nodup)
    (held : plan.decided .dataPartitioner id = (some (some partitioner.name), some partitioner)) :
    (setDataPartitioner id partitioner).result plan = (.ok (), plan) :=
  result_eq_self distinct (fun _ same => PlanNode.setParam_eq_self same)
    (fun _ same => by rw [← same]) held

theorem decided_setResultMerge {merge : ResultMerge}
    (done : (setResultMerge id merge).result plan = (.ok (), after)) :
    after.decided .resultMerge id = (some (some merge.name), some merge) :=
  decided_of_done done ⟨fun _ => rfl, fun _ => rfl⟩ (fun _ => rfl) fun _ => rfl

theorem setResultMerge_eq_self {merge : ResultMerge} (distinct : plan.tree.ids.Nodup)
    (held : plan.decided .resultMerge id = (some (some merge.name), some merge)) :
    (setResultMerge id merge).result plan = (.ok (), plan) :=
  result_eq_self distinct (fun _ same => PlanNode.setParam_eq_self same)
    (fun _ same => by rw [← same]) held

theorem decided_setRecompileBudget {budget : α}
    (done : (setRecompileBudget id budget).result plan = (.ok (), after)) :
    after.decided .recompileBudget id = (some (), some (some budget)) :=
  decided_of_updateSettings (fun _ => rfl) done

theorem setRecompileBudget_eq_self {budget : α}
    (held : plan.decided .recompileBudget id = (some (), some (some budget))) :
    (setRecompileBudget id budget).result plan = (.ok (), plan) :=
  updateSettings_eq_self (fun settings same => by rw [← same]) held

theorem decided_setColocated {matrix : String}
    (done : (setColocated id matrix).result plan = (.ok (), after)) :
    after.decided .colocated id = (some (), some (some matrix)) :=
  decided_of_updateSettings (fun _ => rfl) done

theorem setColocated_eq_self {matrix : String}
    (held : plan.decided .colocated id = (some (), some (some matrix))) :
    (setColocated id matrix).result plan = (.ok (), plan) :=
  updateSettings_eq_self (fun settings same => by rw [← same]) held

/-- Where a parallel loop runs is decided on both sides. -/
theorem result_setPlacement {node : PlanNode} (found : plan.tree.node? id = some node)
    (loop : node.kind = .parfor) (placement : Placement) :
    (setPlacement id placement).result plan =
      (do
        updateSettings id fun settings => { settings with mode := placement }
        updateNode id fun node => { node with placement } : Change (Plan α) Unit).result plan := by
  rw [setPlacement, Change.result_bind (Change.result_get plan), found]
  dsimp only
  rw [if_pos loop]

theorem decided_setPlacement {node : PlanNode} {placement : Placement}
    (found : plan.tree.node? id = some node) (loop : node.kind = .parfor)
    (done : (setPlacement id placement).result plan = (.ok (), after)) :
    after.decided .placement id = (some placement, some placement) := by
  rw [result_setPlacement found loop] at done
  exact decided_of_done done ⟨fun _ => rfl, fun _ => rfl⟩ (fun _ => rfl) fun _ => rfl

theorem setPlacement_eq_self {node : PlanNode} {placement : Placement}
    (distinct : plan.tree.ids.Nodup) (found : plan.tree.node? id = some node)
    (loop : node.kind = .parfor)
    (held : plan.decided .placement id = (some placement, some placement)) :
    (setPlacement id placement).result plan = (.ok (), plan) := by
  rw [result_setPlacement found loop]
  exact result_eq_self distinct (fun _ same => by rw [← same]) (fun _ same => by rw [← same]) held

/-- What an operator reads does not show in an aspect that shows neither placements nor slices. -/
theorem preserves_decided_setPartitionFormat {format : PartitionFormat} {slice : α}
    (blind : ∀ node : PlanNode, aspect.record
      ({ node with placement := .inProcess }.setParam .dataPartitionFormat format.name) =
        aspect.record node) : Preserves (decided aspect) (setPartitionFormat id format slice) :=
  .bind (.inspect _) fun _ => .bind (.inspect _) fun _ => .bind (.modify fun _ => rfl) fun _ =>
    preserves_decided_updateNode ⟨fun _ => rfl, fun _ => rfl⟩ blind

/-- Where a node runs does not show in an aspect that neither shows placements nor modes. -/
theorem preserves_decided_setPlacement {placement : Placement}
    (blindRecord : ∀ node, aspect.record { node with placement } = aspect.record node)
    (blindSettings : ∀ settings, aspect.setting { settings with mode := placement } =
      aspect.setting settings) :
    Preserves (decided aspect) (setPlacement id placement) := by
  have keeps : KeepsNode fun node => { node with placement } := ⟨fun _ => rfl, fun _ => rfl⟩
  refine .bind .get fun plan => ?_
  split
  next => exact .fail _
  next node _ =>
    dsimp only
    split
    next => exact preserves_decided keeps blindRecord blindSettings
    next => exact preserves_decided_updateNode keeps blindRecord

end Plan

end ParallelLoop
