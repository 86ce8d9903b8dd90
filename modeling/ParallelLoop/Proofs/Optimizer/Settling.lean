/-
# What a pass leaves

After a pass nothing is left to decide about the plan: its inputs are partitioned, the loop
runs where it should, all workers are shared out, and so on for each rule. `IsSettled` says
so, in the context that the pass ended with.

What a rule decides is settled right after it, and it has to be seen that the rules after it
leave this alone. They do, because they decide about other aspects of a loop; and the loops
that the last rule demotes do not count any more.
-/

import ParallelLoop.Proofs.Optimizer.Executing
import ParallelLoop.Proofs.Optimizer.Reassigning
import ParallelLoop.Proofs.Plan.Division

namespace ParallelLoop

open Change (Maintains Preserves Respects)

variable {α β γ : Type}

/-- What the first two rules decide, and what they decide it from. -/
abbrev Aspect.inputsAndPlacement : Aspect α (Placement × Option String)
    (Placement × DataPartitioner × List (String × PartitionFormat)) :=
  ⟨fun node => (node.placement, node.param? .dataPartitioner),
    fun settings => (settings.mode, settings.dataPartitioner, settings.candidates)⟩

/-- The record of a node without its place and its texts. -/
def PlanNode.crew (node : PlanNode) : PlanNode :=
  { node with placement := .inProcess, parameters := {} }

/-- A pass in this context has nothing left to decide about the plan. -/
structure PlanningRule.IsSettled [Quantity α] (context : PassContext α) (remoteCost : α)
    (plan : Plan α) : Prop where
  placed : IsPlaced context remoteCost plan
  owns : plan.OwnsBlocks
  inStep : plan.InStep
  shares : SharesBudget context plan.tree
  parallel : ∀ child ∈ plan.tree.children, ∀ node ∈ child.nodes, ¬ node.IsSerialLoop
  tasks : TasksSettled context plan
  merges : MergesSettled context plan plan.tree.loops
  budget : BudgetSettled context plan

/-- A remote loop that is split still runs where it should. -/
theorem PlanningRule.PlacementSettled.division [Quantity α] {context : PassContext α}
    {plan after : Plan α} {chunk : Nat} {var : String} (settled : PlacementSettled context plan)
    (division : Plan.Division plan after chunk var) (formed : plan.IsFormed)
    (remote : plan.tree.root.placement = .remote) : PlacementSettled context after := by
  -- The loop was remote before, so it was found to be better off there.
  have chosen : choosePlacement context after.tree = .remote := by
    rw [choosePlacement_of_localOnly (division.isLocalOnly_eq formed), ← settled.placement_eq,
      remote]
  rw [PlacementSettled, chosen]
  exact division.placement_outer

namespace Optimizer.Stages

open PlanningRule

variable [Quantity α] {optimizer : Optimizer α} {vars : Variables} {plan final : Plan α}
  {summary : PassSummary α} (stages : Stages optimizer vars plan final summary)
  {aspect : Aspect α β γ}

include stages

/-! ## Up to the split -/

/-- Once the loops are serial, no node puts several workers to work while inputs are partitioned. -/
theorem fanOut_partitioned (distinct : plan.tree.ids.Nodup) :
    ∀ node ∈ stages.partitioned.tree.nodes, node.fanOut = 1 := by
  -- Partitioning inputs changes no record as far as workers go.
  have ignores := Plan.ignores_mapNodes (α := α) PlanNode.crew
  have formats {id : NodeId} (format : PartitionFormat) (slice : α) :
      Preserves (fun plan : Plan α => plan.tree.mapNodes PlanNode.crew)
        (Plan.setPartitionFormat id format slice) :=
    .bind (.inspect _) fun hop => .bind (.inspect _) fun _ =>
      .bind (ignores.memory hop _) fun _ => ignores.records id _ fun _ => rfl
  have same : stages.partitioned.tree.mapNodes PlanNode.crew =
      stages.serial.tree.mapNodes PlanNode.crew :=
    stages.dataPartitioner.related (respects_dataPartitioner _ formats
      (ignores.setDataPartitioner fun _ _ _ _ => rfl))
  have serial := Plan.tree_serialize distinct (PlanTree.self_mem_subtrees plan.tree)
    stages.serialized
  intro node there
  obtain ⟨twin, inside, twin_eq⟩ := PlanTree.exists_node_of_mapNodes same there
  rw [serial] at inside
  have fanOut_eq : node.fanOut = twin.fanOut := (congrArg PlanNode.fanOut twin_eq :)
  rw [fanOut_eq, PlanNode.fanOut]
  split
  next loop => rw [Plan.workers_serial inside loop]; rfl
  next => rfl

/-- The footprint is that of the loop with partitioned inputs, however it is executed. -/
theorem memory_partitioned [Quantity.IsLawful α] (distinct : plan.tree.ids.Nodup)
    {remoteCost : α} (hops : optimizer.estimator = .hops remoteCost) :
    stages.partitioned.program.memory remoteCost stages.partitioned.tree.bare =
      .ok stages.footprint := by
  have estimated := stages.reestimated
  rw [hops] at estimated
  rw [Program.memory_bare (stages.fanOut_partitioned distinct)]
  exact estimated

section

variable (formed : plan.IsFormed) (owns : plan.OwnsBlocks)

include formed owns

/-- Once the loops are serial, they stay so while inputs are partitioned. -/
theorem isSerial_partitioned : stages.partitioned.IsSerial := by
  have serial : stages.serial.IsSerial :=
    Plan.isSerial_serialize formed.numbered.distinct owns stages.serialized
  have same : stages.partitioned.decided .workers = stages.serial.decided .workers :=
    stages.dataPartitioner.related (respects_dataPartitioner _
      (fun _ _ => Plan.preserves_decided_setPartitionFormat fun _ => rfl)
      fun _ => Plan.preserves_decided ⟨fun _ => rfl, fun _ => rfl⟩ (fun _ => rfl) fun _ => rfl)
  have layout : stages.partitioned.layout = stages.serial.layout :=
    stages.layout_partitioned.trans stages.layout_serial.symm
  exact serial.of_same (Plan.isLoop_of_layout layout) fun id _ => congrFun same id

/-- They stay so up to the split. -/
theorem isSerial_colocated : stages.colocated.IsSerial := by
  have placed : stages.placed.decided .workers = stages.partitioned.decided .workers :=
    stages.decided_placed (fun _ _ => rfl) fun _ _ => rfl
  have same : stages.colocated.decided .workers = stages.placed.decided .workers :=
    stages.decided_colocated fun _ _ => rfl
  have layout : stages.colocated.layout = stages.partitioned.layout :=
    stages.layout_colocated.trans stages.layout_partitioned.symm
  exact (stages.isSerial_partitioned formed owns).of_same (Plan.isLoop_of_layout layout)
    fun id _ => congrFun (same.trans placed) id

theorem steady_colocated : stages.colocated.IsSteady := by
  have layout := stages.layout_colocated
  have colocated := formed.of_layout layout
  exact ⟨colocated, owns.of_layout layout,
    (stages.isSerial_colocated formed owns).inStep colocated.numbered.distinct⟩

end

/-! ## Placed loops -/

theorem parallel_partitioned : stages.partitioned.tree.root.kind = .parfor :=
  (Plan.root_kind_of_layout stages.layout_partitioned).trans stages.parallel

theorem parallel_colocated : stages.colocated.tree.root.kind = .parfor :=
  (Plan.root_kind_of_layout stages.layout_colocated).trans stages.parallel

section

variable (formed : plan.IsFormed)

include formed

theorem isFormed_partitioned : stages.partitioned.IsFormed :=
  formed.of_layout stages.layout_partitioned

/-- The second rule shows in the placement only. -/
theorem keeps_placed : stages.partitioned.KeepsLoops .slicing stages.placed :=
  keeps_executionStrategy (stages.isFormed_partitioned formed) stages.parallel_partitioned
    (fun _ _ => rfl) (fun _ _ => rfl) stages.executionStrategy

/-- The third rule shows in the matrix only that it chooses. -/
theorem keeps_colocated : stages.placed.KeepsLoops .inputsAndPlacement stages.colocated := by
  have colocates : ∀ {id : NodeId} (matrix : String),
      Respects (Plan.Keeps .inputsAndPlacement) (Plan.setColocated (α := α) id matrix) :=
    fun _ => Plan.keeps_updateSettings fun _ => rfl
  exact stages.colocation.related (respects_colocation _ colocates)
    (stages.keeps_placed formed).formed

/-- Up to the split the loop needs what the footprint says. -/
theorem memory_colocated [Quantity.IsLawful α] {remoteCost : α}
    (hops : optimizer.estimator = .hops remoteCost) :
    stages.colocated.program.memory remoteCost stages.colocated.tree.bare =
      .ok stages.footprint := by
  have kept := (stages.keeps_placed formed).trans
    ((stages.keeps_colocated formed).part Prod.snd Prod.snd)
  rw [Program.memory_of_hops kept.hops_eq, kept.bare_eq,
    stages.memory_partitioned formed.numbered.distinct hops]

/-- Up to the split the loop runs where the second rule puts it. -/
theorem placement_colocated :
    PlacementSettled { stages.context with footprint := stages.footprint } stages.colocated := by
  have placement := of_executionStrategy (stages.isFormed_partitioned formed)
    stages.parallel_partitioned stages.executionStrategy
  exact placement.of_keeps ((stages.keeps_colocated formed).part Prod.fst Prod.fst)
    stages.parallel_colocated

/-- The first three rules leave a plan that is placed. -/
theorem isPlaced_colocated [Quantity.IsLawful α] {remoteCost : α}
    (hops : optimizer.estimator = .hops remoteCost) (whole : stages.context.nested = false) :
    IsPlaced { stages.context with footprint := stages.footprint } remoteCost
      stages.colocated := by
  have kept := (stages.keeps_placed formed).trans
    ((stages.keeps_colocated formed).part Prod.snd Prod.snd)
  have parallel := stages.parallel_colocated
  obtain ⟨candidates, applied, settled⟩ := of_dataPartitioner (formed.of_layout stages.layout_serial)
    stages.dataPartitioner
  have inputs : InputsSettled { stages.context with footprint := stages.footprint }
      stages.partitioned candidates applied := settled.of_context rfl rfl rfl
  exact {
    formed := kept.formed
    parallel
    inputs := ⟨candidates, applied,
      inputs.of_keeps (stages.isFormed_partitioned formed) kept parallel⟩
    footprint := stages.memory_colocated formed hops
    placement := stages.placement_colocated formed
    indexing := by
      rw [indexingLoop, if_neg (by rw [whole]; exact nofun)]
      exact Plan.isLoop_root parallel
    colocation := of_colocation (stages.keeps_placed formed).formed stages.colocation }

end

/-! ## After the split -/

/-- A loop that is split needs what it needed, and runs where it ran. -/
theorem placed_split [Quantity.IsLawful α] {remoteCost : α} (formed : plan.IsFormed)
    (hops : optimizer.estimator = .hops remoteCost) :
    stages.split.IsFormed ∧ stages.split.tree.root.kind = .parfor ∧
      stages.split.program.memory remoteCost stages.split.tree.bare = .ok stages.footprint ∧
      PlacementSettled { stages.context with footprint := stages.footprint } stages.split := by
  have stillFormed := formed.of_layout stages.layout_colocated
  have memory := stages.memory_colocated formed hops
  have settled := stages.placement_colocated formed
  rcases of_nestedParallelism stages.nestedParallelism with ⟨-, same⟩ | ⟨-, pays, inner, cut⟩
  · rw [same]
    exact ⟨stillFormed, stages.parallel_colocated, memory, settled⟩
  · simp only [shouldSplit, Bool.and_eq_true, beq_iff_eq] at pays
    have remote := pays.1.1.1.1.2
    obtain ⟨division⟩ := Plan.exists_division stillFormed.numbered cut
    obtain ⟨_, _, _, _, _, split⟩ := Plan.exists_split stillFormed.numbered.distinct cut
    exact ⟨split.isFormed stillFormed, division.root_kind_eq.trans stages.parallel_colocated,
      (division.memory_eq stillFormed remoteCost).trans memory,
      settled.division division stillFormed remote⟩

/-! ## From rule to rule -/

theorem keeps_distributed (formed : stages.split.IsFormed)
    (blindRecord : ∀ (node : PlanNode) workers,
      aspect.record { node with workers } = aspect.record node)
    (blindSettings : ∀ (settings : ParallelSettings α) workers,
      aspect.setting { settings with workers } = aspect.setting settings) :
    stages.split.KeepsLoops aspect stages.distributed := by
  have keeps : ∀ {id : NodeId} (workers : Nat),
      Respects (Plan.Keeps aspect) (Plan.setWorkers (α := α) id workers) := fun workers =>
    Plan.keeps_setWorkers (fun node => blindRecord node workers)
      fun settings => blindSettings settings workers
  exact stages.degreeOfParallelism.related (respects_degreeOfParallelism _ keeps) formed

theorem keeps_tasked (formed : stages.distributed.IsFormed)
    (blindRecord : ∀ (node : PlanNode) text,
      aspect.record (node.setParam .taskPartitioner text) = aspect.record node)
    (blindSettings : ∀ (settings : ParallelSettings α) taskPartitioner,
      aspect.setting { settings with taskPartitioner } = aspect.setting settings) :
    stages.distributed.KeepsLoops aspect stages.tasked := by
  have keeps : ∀ {id : NodeId} (kind : PartitionerKind),
      Respects (Plan.Keeps aspect) (Plan.setTaskPartitioner (α := α) id kind) := fun kind =>
    Plan.keeps_setTaskPartitioner (fun node => blindRecord node kind.name)
      fun settings => blindSettings settings kind
  exact stages.taskPartitioner.related (respects_taskPartitioner _ keeps) formed

theorem keeps_merged (formed : stages.tasked.IsFormed)
    (blindRecord : ∀ (node : PlanNode) text,
      aspect.record (node.setParam .resultMerge text) = aspect.record node)
    (blindSettings : ∀ (settings : ParallelSettings α) resultMerge,
      aspect.setting { settings with resultMerge } = aspect.setting settings) :
    stages.tasked.KeepsLoops aspect stages.merged := by
  have keeps : ∀ {id : NodeId} (merge : ResultMerge),
      Respects (Plan.Keeps aspect) (Plan.setResultMerge (α := α) id merge) := fun merge =>
    Plan.keeps_setResultMerge (fun node => blindRecord node merge.name)
      fun settings => blindSettings settings merge
  exact stages.resultMerge.related (respects_resultMerge _ keeps) formed

theorem keeps_budgeted (formed : stages.merged.IsFormed)
    (blindSettings : ∀ (settings : ParallelSettings α) recompileBudget,
      aspect.setting { settings with recompileBudget } = aspect.setting settings) :
    stages.merged.KeepsLoops aspect stages.budgeted := by
  have keeps : ∀ {id : NodeId} (budget : α),
      Respects (Plan.Keeps aspect) (Plan.setRecompileBudget (α := α) id budget) := fun budget =>
    Plan.keeps_updateSettings fun settings => blindSettings settings (some budget)
  exact stages.recompileBudget.related (respects_recompileBudget _ keeps) formed

theorem keeps_final (formed : stages.budgeted.IsFormed) :
    stages.budgeted.KeepsLoops aspect final :=
  keeps_demoteEach formed stages.demoted

/-! ## The end of a pass -/

section

variable (formed : stages.split.IsFormed)

include formed

theorem root_kind_final : final.tree.root.kind = stages.split.tree.root.kind := by
  rw [stages.root_final formed.numbered.distinct, Plan.root_kind_of_layout stages.layout_budgeted]

/-- Where the loop runs, and with how many workers, is known once they are distributed. -/
theorem root_choices_final : final.tree.root.placement = stages.distributed.tree.root.placement ∧
    final.tree.root.workers = stages.distributed.tree.root.workers := by
  have roots := congrArg PlanTree.root stages.choices_budgeted
  unfold Plan.choices at roots
  rw [PlanTree.root_mapNodes, PlanTree.root_mapNodes] at roots
  rw [stages.root_final formed.numbered.distinct]
  exact ⟨(congrArg PlanNode.placement roots :), (congrArg PlanNode.workers roots :)⟩

/-- No nested loop has one worker. -/
theorem parallel_final :
    ∀ child ∈ final.tree.children, ∀ node ∈ child.nodes, ¬ node.IsSerialLoop := by
  have distinct := stages.distinct_budgeted formed.numbered.distinct
  have demoted := stages.demoted
  intro child there node inside
  refine not_isSerialLoop_of_demoteEach distinct demoted
    (PlanTree.mem_nodes_of_child there inside) ?_
  have root_eq := congrArg PlanNode.id (stages.root_final formed.numbered.distinct)
  have finalDistinct : final.tree.ids.Nodup := by rwa [ids_demoteEach demoted]
  rw [PlanTree.id, ← root_eq]
  exact PlanTree.id_ne_of_child finalDistinct there inside

/-- Demoting loops with one worker does not change what is shared. -/
theorem load_final :
    final.tree.mapNodes PlanNode.load = stages.distributed.tree.mapNodes PlanNode.load := by
  have distinct := stages.distinct_budgeted formed.numbered.distinct
  have demoted := stages.demoted
  have written : stages.budgeted.tree.mapNodes PlanNode.load =
      stages.distributed.tree.mapNodes PlanNode.load :=
    stages.view_written (Plan.ignores_mapNodes PlanNode.load) PlanNode.load_setParam
  rw [← written]
  refine mapNodes_demoteEach distinct (nodup_nestedSerialLoops distinct) ?_ demoted
  intro node there nested block
  have serial := isSerialLoop_of_mem distinct there nested
  rw [PlanNode.load_of_other fun both => both.2 serial.2]
  exact PlanNode.load_of_other nofun

/-- What the first three rules decided is still so. -/
theorem keeps_situation : stages.split.KeepsLoops .situation final := by
  have distributed : stages.split.KeepsLoops .situation stages.distributed :=
    stages.keeps_distributed formed (fun _ _ => rfl) fun _ _ => rfl
  have tasked : stages.distributed.KeepsLoops .situation stages.tasked :=
    stages.keeps_tasked distributed.formed (fun _ _ => rfl) fun _ _ => rfl
  have merged : stages.tasked.KeepsLoops .situation stages.merged :=
    stages.keeps_merged tasked.formed (fun _ _ => rfl) fun _ _ => rfl
  have budgeted : stages.merged.KeepsLoops .situation stages.budgeted :=
    stages.keeps_budgeted merged.formed fun _ _ => rfl
  exact distributed.trans (tasked.trans (merged.trans (budgeted.trans
    (stages.keeps_final budgeted.formed))))

end

/-! ## Loops in step -/

section

variable (steady : stages.split.IsSteady)

include steady

theorem steady_distributed : stages.distributed.IsSteady :=
  stages.degreeOfParallelism.related
    (respects_degreeOfParallelism _ fun _ => Plan.steady_setWorkers) steady

/-- The workers of the loops that remain are those that they were given. -/
theorem keeps_workers : stages.distributed.KeepsLoops .workers final := by
  have tasked : stages.distributed.KeepsLoops .workers stages.tasked :=
    stages.keeps_tasked (stages.steady_distributed steady).formed (fun _ _ => rfl) fun _ _ => rfl
  have merged : stages.tasked.KeepsLoops .workers stages.merged :=
    stages.keeps_merged tasked.formed (fun _ _ => rfl) fun _ _ => rfl
  have budgeted : stages.merged.KeepsLoops .workers stages.budgeted :=
    stages.keeps_budgeted merged.formed fun _ _ => rfl
  exact tasked.trans (merged.trans (budgeted.trans (stages.keeps_final budgeted.formed)))

theorem steady_final : final.IsSteady := by
  have distributed := stages.steady_distributed steady
  have kept := stages.keeps_workers steady
  have budgetedFormed := steady.formed.of_layout stages.layout_budgeted
  refine ⟨kept.formed, ?_, kept.inStep distributed.formed distributed.inStep⟩
  exact ownsBlocks_demoteEach budgetedFormed (steady.owns.of_layout stages.layout_budgeted)
    stages.demoted

theorem shares_final : SharesBudget stages.last final.tree :=
  (sharesBudget_degreeOfParallelism steady.formed.numbered.distinct
    stages.degreeOfParallelism).of_load (stages.load_final steady.formed)
      (stages.root_choices_final steady.formed) (stages.keeps_workers steady).isLocalOnly_eq
      (stages.parallel_final steady.formed)

variable (loop : stages.split.tree.root.kind = .parfor)

include loop

theorem root_final_parallel : final.tree.root.kind = .parfor := by
  rw [stages.root_kind_final steady.formed, loop]

theorem tasks_final
    (inner : stages.last.nested = true → ∀ id, final.tree.headId? = some id → final.IsLoop id) :
    TasksSettled stages.last final := by
  have distributed := stages.steady_distributed steady
  have alsoLoop : stages.distributed.tree.root.kind = .parfor :=
    (Plan.root_kind_of_layout stages.layout_distributed).trans loop
  have settled := of_taskPartitioner distributed.formed distributed.owns alsoLoop
    stages.taskPartitioner
  have merged : stages.tasked.KeepsLoops .taskPartitioner stages.merged :=
    stages.keeps_merged (steady.formed.of_layout stages.layout_tasked) (fun _ _ => rfl)
      fun _ _ => rfl
  have budgeted : stages.merged.KeepsLoops .taskPartitioner stages.budgeted :=
    stages.keeps_budgeted merged.formed fun _ _ => rfl
  exact settled.of_keeps (merged.trans (budgeted.trans (stages.keeps_final budgeted.formed)))
    (stages.root_final_parallel steady loop) inner

theorem merges_final : MergesSettled stages.last final final.tree.loops := by
  have layout := stages.layout_tasked
  have formed := steady.formed.of_layout layout
  have settled := of_resultMerge formed (steady.owns.of_layout layout)
    ((Plan.root_kind_of_layout layout).trans loop) stages.resultMerge
  have merged : stages.tasked.KeepsLoops .situation stages.merged :=
    stages.keeps_merged formed (fun _ _ => rfl) fun _ _ => rfl
  have budgeted : stages.merged.KeepsLoops .merging stages.budgeted :=
    stages.keeps_budgeted merged.formed fun _ _ => rfl
  exact settled.of_keeps merged.formed.numbered.distinct
    (budgeted.trans (stages.keeps_final budgeted.formed))

theorem budget_final : BudgetSettled stages.last final := by
  have distinct := stages.distinct_budgeted steady.formed.numbered.distinct
  have total := PlanTree.totalWorkers_eq_of_profile
    (profile_demoted distinct stages.demoted)
  exact (of_recompileBudget stages.recompileBudget).of_keeps
    (stages.keeps_final (steady.formed.of_layout stages.layout_budgeted))
    (stages.root_final_parallel steady loop)
    (congrArg PlanNode.placement (stages.root_final steady.formed.numbered.distinct)) total

end

/-- When all is placed before the workers are distributed, all is settled at the end. -/
theorem isSettled {remoteCost : α} (steady : stages.split.IsSteady)
    (placed : IsPlaced stages.last remoteCost stages.split)
    (inner : stages.last.nested = true → ∀ id, final.tree.headId? = some id → final.IsLoop id) :
    IsSettled stages.last remoteCost final := by
  have loop := placed.parallel
  have parallel := stages.root_final_parallel steady loop
  have indexing : final.IsLoop (indexingLoop stages.last final.tree) := by
    unfold indexingLoop
    -- The inner loop of a split if there is one, and the loop itself otherwise.
    split
    next nested =>
      cases head : final.tree.headId? with
      | none =>
        rw [← PlanTree.headId?, head]
        exact Plan.isLoop_root parallel
      | some id =>
        rw [← PlanTree.headId?, head]
        exact inner nested id head
    next => exact Plan.isLoop_root parallel
  have kept := stages.steady_final steady
  exact {
    placed := placed.of_keeps (stages.keeps_situation steady.formed) parallel indexing
    owns := kept.owns
    inStep := kept.inStep
    shares := stages.shares_final steady
    parallel := stages.parallel_final steady.formed
    tasks := stages.tasks_final steady loop inner
    merges := stages.merges_final steady loop
    budget := stages.budget_final steady loop }

end Optimizer.Stages

end ParallelLoop
