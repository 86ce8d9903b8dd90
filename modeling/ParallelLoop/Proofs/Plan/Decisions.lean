/-
# What decisions leave alone

A decision about a plan changes records of nodes and settings of blocks. It does not
change which nodes there are, what they stand for, and which blocks contain which:
this is the layout of a plan. A view of plans that ignores what a decision changes is
preserved by it, and so by every chain of decisions.

`Plan.Ignores erase view` says so of a view relative to the part of a record that
`erase` takes away. The layout ignores all decisions; the choices, which are the tree
without its texts, ignore those that are only written down.
-/

import ParallelLoop.Proofs.Change
import ParallelLoop.Proofs.Plan.Tree
import ParallelLoop.Plan.Basic

namespace ParallelLoop

namespace PlanNode

/-- The record of a node about which nothing was decided. -/
def undecided (node : PlanNode) : PlanNode :=
  { id := node.id, kind := node.kind, placement := .inProcess, block := node.block
    hop := node.hop }

/-- The record of a node as it was given: what it stands for, and its trip count. -/
def given (node : PlanNode) : PlanNode :=
  { node with
    placement := .inProcess, workers := 1
    parameters := { numIterations := node.parameters.numIterations } }

theorem undecided_of_given {node other : PlanNode} (same : other.given = node.given) :
    other.undecided = node.undecided := (congrArg undecided same :)

/-- The trip count is the only text that is given. -/
theorem given_setParam (node : PlanNode) {parameter : Parameter} (text : String)
    (other : parameter ≠ .numIterations) : (node.setParam parameter text).given = node.given := by
  cases parameter with
  | numIterations => exact absurd rfl other
  | _ => rfl

/-- The record of a node without its texts. -/
def untexted (node : PlanNode) : PlanNode := { node with parameters := {} }

end PlanNode

namespace Program

variable {α : Type}

/-- The kinds of the blocks, and which blocks they contain. -/
def shape (program : Program α) : Array (BlockKind × List BlockId) :=
  program.blocks.map fun block => (block.kind, block.children)

/-- A change of one block that does not show in a view of blocks. -/
theorem map_modifyBlock {γ : Type} {view : Block α → γ} {change : Block α → Block α}
    (same : ∀ block, view (change block) = view block) (program : Program α) (id : BlockId) :
    (program.modifyBlock id change).blocks.map view = program.blocks.map view := by
  apply Array.ext_getElem?
  intro index
  unfold modifyBlock
  rw [Array.getElem?_map, Array.getElem?_modify, Array.getElem?_map]
  split
  next => cases program.blocks[index]? <;> simp [same]
  next => rfl

end Program

namespace Plan

open Change (Preserves Respects SameView)

variable {α γ : Type} {erase : PlanNode → PlanNode} {view : Plan α → γ} {id : NodeId}

/-- The view does not show settings of blocks, memory of operators and what is erased from the
records of nodes. -/
structure Ignores (erase : PlanNode → PlanNode) (view : Plan α → γ) : Prop where
  settings : ∀ id change, Preserves view (updateSettings id change)
  memory : ∀ id memory, Preserves view
    (modify fun plan =>
      { plan with program := plan.program.modifyHop id fun hop => { hop with memory } })
  records : ∀ id change, (∀ node, erase (change node) = erase node) →
    Preserves view (updateNode id change)

/-- Changing settings keeps the tree. -/
theorem preserves_tree_updateSettings (id : NodeId)
    (change : ParallelSettings α → ParallelSettings α) :
    Preserves Plan.tree (updateSettings id change) :=
  .bind (.inspect _) fun _ => .bind (.inspect _) fun _ => .modify fun _ => rfl

/-- Changing settings does not show in a view of blocks that leaves settings out. -/
theorem preserves_blocks_updateSettings {view : Block α → γ}
    (blind : ∀ block settings, view { block with settings } = view block) (id : NodeId)
    (change : ParallelSettings α → ParallelSettings α) :
    Preserves (fun plan => plan.program.blocks.map view) (updateSettings id change) :=
  .bind (.inspect _) fun _ => .bind (.inspect _) fun block => .modify fun plan =>
    Program.map_modifyBlock (fun held => blind held _) plan.program block

/-- A view of blocks that leaves settings out ignores all decisions. -/
theorem ignores_blocks {view : Block α → γ}
    (blind : ∀ block settings, view { block with settings } = view block) :
    Ignores erase fun plan => plan.program.blocks.map view where
  settings := preserves_blocks_updateSettings blind
  memory _ _ := .modify fun _ => rfl
  records _ _ _ := .modify fun _ => rfl

/-- The tree up to what is erased. -/
theorem ignores_mapNodes (erase : PlanNode → PlanNode) :
    Ignores erase fun plan : Plan α => plan.tree.mapNodes erase where
  settings id change := (preserves_tree_updateSettings id change).map (PlanTree.mapNodes erase)
  memory _ _ := .modify fun _ => rfl
  records _ _ same :=
    .modify fun plan => PlanTree.mapNodes_update (fun node _ => same node) plan.tree

/-- Which nodes there are, what they stand for, and which blocks contain which. -/
def layout (plan : Plan α) : PlanTree × Array (BlockKind × List BlockId) :=
  (plan.tree.mapNodes PlanNode.undecided, plan.program.shape)

theorem ignores_layout : Ignores PlanNode.undecided (layout (α := α)) where
  settings id change plan := Prod.ext
    ((ignores_mapNodes PlanNode.undecided).settings id change plan)
    (preserves_blocks_updateSettings (fun _ _ => rfl) id change plan)
  memory _ _ := .modify fun _ => rfl
  records id change same plan := Prod.ext
    ((ignores_mapNodes PlanNode.undecided).records id change same plan) rfl

/-- Plans of one layout have the same nodes. -/
theorem ids_eq_of_layout {plan other : Plan α} (same : other.layout = plan.layout) :
    other.tree.ids = plan.tree.ids := by
  have trees : other.tree.mapNodes PlanNode.undecided = plan.tree.mapNodes PlanNode.undecided :=
    congrArg Prod.fst same
  exact PlanTree.ids_of_mapNodes trees fun _ => rfl

theorem nodup_of_layout {plan other : Plan α} (distinct : plan.tree.ids.Nodup)
    (same : other.layout = plan.layout) : other.tree.ids.Nodup := by
  rwa [ids_eq_of_layout same]

theorem isNumbered_of_layout {plan other : Plan α} (numbered : plan.tree.IsNumbered)
    (same : other.layout = plan.layout) : other.tree.IsNumbered :=
  (PlanTree.isNumbered_congr (ids_eq_of_layout same)).mpr numbered

/-- All that was decided about the nodes apart from what is only written down. -/
def choices (plan : Plan α) : PlanTree := plan.tree.mapNodes PlanNode.untexted

theorem ignores_choices : Ignores PlanNode.untexted (choices (α := α)) :=
  ignores_mapNodes PlanNode.untexted

/-! ## Single decisions -/

section

variable {relation : Plan α → Plan α → Prop} [IsPreorder (Plan α) relation]

theorem respects_serializeNodes {nodes : List PlanNode}
    (assigns : ∀ node ∈ nodes, node.kind = .parfor → Respects relation (setWorkers node.id 1)) :
    Respects relation (serializeNodes nodes) := by
  induction nodes with
  | nil => exact .pure _
  | cons node rest ih =>
    rw [List.forall_mem_cons] at assigns
    unfold Plan.serializeNodes
    split
    next loop => exact .bind (assigns.1 loop) fun _ => ih assigns.2
    next => exact ih assigns.2

/-- Making a loop serial is a chain of decisions about workers. -/
theorem respects_serialize
    (assigns : ∀ {id : NodeId} (workers : Nat), Respects relation (setWorkers id workers)) :
    Respects relation (serialize id) := by
  refine .bind .get fun plan => ?_
  split
  next => exact .abort _
  next tree _ => exact respects_serializeNodes fun _ _ _ => assigns 1

/-- The decisions are about loops of the plan. -/
theorem respects_serialize_within {admitted : Plan α → Prop}
    (vacuous : ∀ before after, ¬ admitted before → relation before after)
    (assigns : ∀ plan, admitted plan → ∀ node ∈ plan.tree.nodes, node.kind = .parfor →
      Respects relation (setWorkers node.id 1)) :
    Respects relation (serialize id) := by
  intro plan
  by_cases here : admitted plan
  · rw [serialize, Change.result_bind (Change.result_get plan)]
    split
    next => exact Std.Refl.refl plan
    next tree found =>
      have inside := List.mem_of_find?_eq_some found
      refine respects_serializeNodes (fun node there => ?_) plan
      exact assigns plan here node ((PlanTree.nodes_sublist inside).subset there)
  · exact vacuous plan _ here

end

namespace Ignores

/-- Two views at once. -/
theorem prod {δ : Type} {other : Plan α → δ} (first : Ignores erase view)
    (second : Ignores erase other) : Ignores erase fun plan => (view plan, other plan) where
  settings id change plan := Prod.ext (first.settings id change plan) (second.settings id change plan)
  memory id memory plan := Prod.ext (first.memory id memory plan) (second.memory id memory plan)
  records id change same plan :=
    Prod.ext (first.records id change same plan) (second.records id change same plan)

theorem settings_then_record (ignores : Ignores erase view)
    (settings : ParallelSettings α → ParallelSettings α) {record : PlanNode → PlanNode}
    (same : ∀ node, erase (record node) = erase node) :
    Preserves view (do updateSettings id settings; updateNode id record) :=
  .bind (ignores.settings id settings) fun _ => ignores.records id record same

theorem setTaskPartitioner (ignores : Ignores erase view)
    (texts : ∀ node {parameter} text, parameter ≠ .numIterations →
      erase (PlanNode.setParam node parameter text) = erase node)
    (kind : PartitionerKind) : Preserves view (setTaskPartitioner id kind) :=
  ignores.settings_then_record _ fun node => texts node _ nofun

theorem setDataPartitioner (ignores : Ignores erase view)
    (texts : ∀ node {parameter} text, parameter ≠ .numIterations →
      erase (PlanNode.setParam node parameter text) = erase node)
    (partitioner : DataPartitioner) : Preserves view (setDataPartitioner id partitioner) :=
  ignores.settings_then_record _ fun node => texts node _ nofun

theorem setResultMerge (ignores : Ignores erase view)
    (texts : ∀ node {parameter} text, parameter ≠ .numIterations →
      erase (PlanNode.setParam node parameter text) = erase node)
    (merge : ResultMerge) : Preserves view (setResultMerge id merge) :=
  ignores.settings_then_record _ fun node => texts node _ nofun

theorem setRecompileBudget (ignores : Ignores erase view) (budget : α) :
    Preserves view (setRecompileBudget id budget) := ignores.settings id _

theorem setColocated (ignores : Ignores erase view) (matrix : String) :
    Preserves view (setColocated id matrix) := ignores.settings id _

/-- A view that shows nothing of what is decided shows nothing of what changes what is given. -/
theorem given (ignores : Ignores PlanNode.undecided view) : Ignores PlanNode.given view where
  settings := ignores.settings
  memory := ignores.memory
  records id change same :=
    ignores.records id change fun node => PlanNode.undecided_of_given (same node)

variable (ignores : Ignores PlanNode.given view)

include ignores

theorem setWorkers (workers : Nat) : Preserves view (setWorkers id workers) :=
  ignores.settings_then_record _ fun _ => rfl

theorem setPlacement (placement : Placement) : Preserves view (setPlacement id placement) := by
  refine .bind .get fun plan => ?_
  split
  next => exact .fail _
  next node _ =>
    have record := ignores.records id (fun node => { node with placement }) fun _ => rfl
    dsimp only
    split
    next => exact .bind (ignores.settings id _) fun _ => record
    next => exact record

theorem setPartitionFormat (format : PartitionFormat) (slice : α) :
    Preserves view (setPartitionFormat id format slice) :=
  .bind (.inspect _) fun hop => .bind (.inspect _) fun _ =>
    .bind (ignores.memory hop _) fun _ => ignores.records id _ fun _ => rfl

theorem serialize : Preserves view (serialize id) := respects_serialize ignores.setWorkers

end Ignores

end Plan

end ParallelLoop
