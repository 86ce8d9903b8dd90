/-
# Loops that run as distributed tasks

A loop is put on the cluster by the second rule, before it is split, before workers are handed out
and before results are put together. What that rule relies on stays true until the end: the
operators are in the process, the footprint fits into the memory of a task, and the cluster runs
more of the iterations at once than the machine could. With no operator that writes elsewhere, the
seventh rule puts the results of every loop together in the process, also where loops share a
block (`mergesLocally_mergeEach`).
-/

import ParallelLoop.Proofs.Optimizer.Sites
import ParallelLoop.Proofs.Optimizer.WorkerBudget

namespace ParallelLoop

open Change (Maintains Respects)

variable {α β γ : Type}

/-! ## Decisions that are all the same -/

namespace Plan

/-- Deciding the same about any loop leaves a loop about which this is decided. -/
theorem maintains_decided {aspect : Aspect α β γ} {changeRecord : PlanNode → PlanNode}
    {changeSettings : ParallelSettings α → ParallelSettings α} {x : β} {y : γ} {id other : NodeId}
    (keeps : KeepsNode changeRecord) (records : ∀ node, aspect.record (changeRecord node) = x)
    (settings : ∀ s, aspect.setting (changeSettings s) = y) :
    Respects (Maintains fun plan : Plan α => plan.decided aspect id = (some x, some y))
      (do updateSettings other changeSettings; updateNode other changeRecord) := by
  refine .bind (.bind (.inspect _) fun _ => .bind (.inspect _) fun block =>
    .modify fun plan held => ?_) fun _ => .modify fun plan held => ?_
  -- The settings are changed first and the record after that, and in between nothing is lost.
  all_goals
    obtain ⟨node, found, node_eq, read, record_eq, setting_eq⟩ := of_decided held
    rw [settings_eq_ok_iff] at read
  · rw [decided, settings?_modifyBlock, read]
    refine Prod.ext (congrArg Prod.fst held :) ?_
    split
    next => exact congrArg some (settings found)
    next => exact congrArg some setting_eq
  · rw [decided, settings?_updateNode keeps, read, PlanTree.node?_update keeps.id]
    refine Prod.ext ?_ (congrArg some setting_eq)
    split
    next same =>
      rw [← same, node_eq]
      exact congrArg some (records node)
    next =>
      rw [node_eq]
      exact congrArg some record_eq

/-- The results of the loop are put together in the process. -/
def MergesLocally (plan : Plan α) (id : NodeId) : Prop :=
  plan.decided .resultMerge id =
    (some (some ResultMerge.localAutomatic.name), some .localAutomatic)

theorem mergesLocally_setResultMerge (id other : NodeId) :
    Respects (Maintains fun plan : Plan α => plan.MergesLocally id)
      (setResultMerge other .localAutomatic) :=
  maintains_decided ⟨fun _ => rfl, fun _ => rfl⟩
    (fun _ => rfl) fun _ => rfl

end Plan

namespace PlanningRule

variable {context : PassContext α} {plan after : Plan α} {loop : PlanTree}

/-- Operators in the process write nothing elsewhere. -/
theorem writesRemotely_of_local {trees : List PlanTree} (resultVars : List String)
    (here : ∀ tree ∈ trees, tree.root.isRemoteHop = false) (plan : Plan α) :
    (writesRemotely resultVars trees).result plan = (.ok false, plan) := by
  induction trees with
  | nil => rfl
  | cons tree rest ih =>
    rw [List.forall_mem_cons] at here
    have other : ¬(isOperator leftIndexing tree = true ∧ tree.root.placement = .remote) := by
      rintro ⟨operator, elsewhere⟩
      simp only [isOperator, Bool.and_eq_true, beq_iff_eq] at operator
      simp [PlanNode.isRemoteHop, operator.1.2, elsewhere] at here
    rw [writesRemotely, if_neg other]
    exact ih here.2

theorem setResultMerge_of_local (here : ∀ tree ∈ loop.subtrees, tree.root.isRemoteHop = false)
    (leads : (mergeResults context loop).Leads plan () after) :
    (Plan.setResultMerge loop.id .localAutomatic).result plan = (.ok (), after) := by
  obtain ⟨settings, remote, -, writes, set⟩ := of_mergeResults leads
  have inside : ∀ tree ∈ loop.operators, tree.root.isRemoteHop = false :=
    fun tree operator => here tree (List.mem_filter.mp operator).1
  rw [writesRemotely_of_local settings.resultVars inside plan] at writes
  cases writes
  exact set

/-- Along the loops, the results of each are put together in the process and stay so. -/
theorem mergesLocally_mergeEach {loops : List PlanTree}
    (here : ∀ loop ∈ loops, ∀ tree ∈ loop.subtrees, tree.root.isRemoteHop = false)
    (leads : (mergeEach context loops).Leads plan () after) :
    (∀ id, plan.MergesLocally id → after.MergesLocally id) ∧
      ∀ loop ∈ loops, after.MergesLocally loop.id := by
  induction loops generalizing plan with
  | nil =>
    obtain ⟨-, rfl⟩ := leads.of_pure
    exact ⟨fun _ held => held, by simp⟩
  | cons loop rest ih =>
    rw [List.forall_mem_cons] at here
    obtain ⟨_, mid, first, others⟩ := Pass.Leads.of_bind leads
    have set := setResultMerge_of_local here.1 first
    obtain ⟨kept, later⟩ := ih here.2 others
    refine ⟨fun id held => kept id ?_, List.forall_mem_cons.mpr ⟨kept _ ?_, later⟩⟩
    · exact (Plan.mergesLocally_setResultMerge id loop.id).of_result set held
    · exact Plan.decided_setResultMerge set

theorem mergesLocally_resultMerge (parallel : plan.tree.root.kind = .parfor)
    (localOnly : plan.tree.isLocalOnly = true)
    (leads : (runResultMerge context).Leads plan () after) :
    ∀ loop ∈ plan.tree.loops, after.MergesLocally loop.id := by
  have chain := Pass.Leads.of_plan_bind leads
  rw [← mergeEach_loops parallel] at chain
  refine (mergesLocally_mergeEach (fun loop isLoop tree inside => ?_) chain).2
  rw [PlanTree.isLocalOnly_eq_all, List.all_eq_true] at localOnly
  have there := PlanTree.mem_subtrees_trans inside (PlanTree.mem_loops.mp isLoop).1
  simpa using localOnly tree.root (List.mem_map_of_mem there)

/-! ## What the second rule relies on -/

variable [Quantity α]

/-- A loop is put on the cluster only if its operators are in the process, its footprint fits into
the memory of a task, and the cluster runs more iterations at once than the machine could. -/
theorem of_choosePlacement_remote {tree : PlanTree}
    (remote : choosePlacement context tree = .remote) :
    tree.isLocalOnly = true ∧ context.footprint ≤ context.remoteMemory ∧
      min context.localParallelism (context.fittingWorkers context.localMemory) <
        min context.iterations context.remoteParallelism := by
  unfold choosePlacement at remote
  split at remote
  next possible =>
    split at remote
    next pays =>
      refine ⟨possible.1, possible.2, ?_⟩
      simp only [memoryBound, gainsParallelism, Bool.or_eq_true, Bool.and_eq_true,
        decide_eq_true_eq] at pays
      omega
    next => cases remote
  next => cases remote

end PlanningRule

namespace Optimizer

open PlanningRule

variable [Quantity α] {optimizer : Optimizer α} {vars : Variables} {plan final : Plan α}
  {summary : PassSummary α}

/-- A loop that runs on the cluster is sound there and gains by it: a task can hold the footprint,
all operators run inside the tasks, the results of all loops are put together in the process, and
unless the loop is split it has more workers than the machine has and can hold. -/
structure RunsRemotely (settings : OptimizerSettings α) (infrastructure : Infrastructure)
    (summary : PassSummary α) (plan : Plan α) : Prop where
  fits : summary.footprint ≤ settings.memoryShare * Quantity.ofNat infrastructure.remoteMemory
  operators : ∀ node ∈ plan.tree.nodes, node.kind = .hop → node.placement = .inProcess
  merges : ∀ node ∈ plan.tree.nodes, node.kind = .parfor → plan.MergesLocally node.id
  workers : summary.nested = false →
    plan.tree.root.workers = min summary.iterations infrastructure.remoteParallelism ∧
      min infrastructure.localParallelism (fitting settings infrastructure.localMemory summary) <
        plan.tree.root.workers

namespace Stages

variable (stages : Stages optimizer vars plan final summary) (numbered : plan.tree.IsNumbered)

include stages numbered

/-- If no operator is elsewhere, the results of every loop that remains are put together in the
process. -/
theorem mergesLocally (localOnly : final.tree.isLocalOnly = true) {node : PlanNode}
    (there : node ∈ final.tree.nodes) (loop : node.kind = .parfor) :
    final.MergesLocally node.id := by
  have distinct := stages.distinct_budgeted (stages.isNumbered_split numbered).distinct
  obtain ⟨inside, apart⟩ :=
    mem_of_demoteEach distinct (nodup_nestedSerialLoops distinct) stages.demoted there loop
  -- The loop was there when the seventh rule went along the loops.
  obtain ⟨twin, alsoInside, same⟩ :=
    PlanTree.exists_node_of_mapNodes (stages.sites_budgeted.trans stages.sites_tasked.symm) inside
  obtain ⟨id_eq, kind_eq, -⟩ := PlanNode.of_site_eq same
  obtain ⟨tree, member, rfl⟩ := List.mem_map.mp alsoInside
  have isLoop : tree ∈ stages.tasked.tree.loops :=
    PlanTree.mem_loops.mpr ⟨member, kind_eq.symm.trans loop⟩
  have parallel : stages.tasked.tree.root.kind = .parfor :=
    (Plan.root_kind_of_layout stages.layout_tasked).trans (stages.parallel_split numbered)
  have localThen : stages.tasked.tree.isLocalOnly = true := by
    rw [stages.isLocalOnly_tasked numbered, ← stages.isLocalOnly_final numbered, localOnly]
  have merged := mergesLocally_resultMerge parallel localThen stages.resultMerge tree isLoop
  rw [Plan.MergesLocally, decided_demoteEach apart stages.demoted, id_eq,
    stages.decided_budgeted fun _ _ => rfl]
  exact merged

theorem runsRemotely (remote : final.tree.root.placement = .remote) :
    RunsRemotely optimizer.settings stages.infrastructure summary final := by
  obtain ⟨localThen, fits, gains⟩ :=
    of_choosePlacement_remote ((stages.placement_final numbered).symm.trans remote)
  have localOnly : final.tree.isLocalOnly = true := by
    rw [stages.isLocalOnly_final numbered, localThen]
  obtain ⟨iterations, footprint, -⟩ := stages.summary_eq
  obtain ⟨-, -, -, -, remoteParallelism, localMemory, remoteMemory⟩ :=
    PassContext.limits_eq stages.ofPlan
  have localParallelism :
      stages.context.localParallelism = stages.infrastructure.localParallelism := by
    obtain ⟨_, _, -, -, context_eq⟩ := PassContext.of_ofPlan stages.ofPlan
    rw [context_eq]
    rfl
  simp only [placing, PassContext.fittingWorkers, ← footprint, ← iterations, localParallelism,
    remoteParallelism, localMemory, remoteMemory] at fits gains
  refine ⟨fits, fun node there operator => ?_, fun node => stages.mergesLocally numbered localOnly,
    fun whole => ?_⟩
  · rw [PlanTree.isLocalOnly_eq_all, List.all_eq_true] at localOnly
    have here := localOnly node there
    rw [PlanNode.isRemoteHop, operator] at here
    cases placed : node.placement with
    | inProcess => rfl
    | remote => simp [placed] at here
  · have own := ((stages.withinBudget numbered).remote remote).1
    rw [stages.last_eq, remoteWorkers, whole, if_neg Bool.false_ne_true] at own
    simp only [← iterations, remoteParallelism] at own
    rw [own]
    exact ⟨Nat.max_eq_left (by omega), by unfold fitting; omega⟩

end Stages

/-- Optimizing a plan puts its loop on the cluster only where it is sound and gains by it. -/
theorem runsRemotely_optimize (numbered : plan.tree.IsNumbered)
    (done : (optimizer.optimize vars plan).1 = .ok summary)
    (remote : (optimizer.optimize vars plan).2.plan.tree.root.placement = .remote) :
    ∃ infrastructure context partitioned,
      optimizer.probe.resolve = .ok infrastructure ∧
      PassContext.ofPlan optimizer.settings vars infrastructure plan = .ok context ∧
      summary.iterations = context.iterations ∧
      partitioned.layout = plan.layout ∧
      optimizer.estimator.memory 1 partitioned = .ok summary.footprint ∧
      RunsRemotely optimizer.settings infrastructure summary
        (optimizer.optimize vars plan).2.plan := by
  obtain ⟨stages⟩ := exists_stages done
  obtain ⟨iterations, footprint, -⟩ := stages.summary_eq
  exact ⟨stages.infrastructure, stages.context, stages.partitioned, stages.resolved, stages.ofPlan,
    iterations, stages.layout_partitioned, footprint ▸ stages.reestimated,
    stages.runsRemotely numbered remote⟩

/-- A machine with eight workers and memory for two footprints of forty, and a cluster that runs
four tasks at once. -/
def smallMachine : Infrastructure where
  localParallelism := 8
  localMemory := 80
  remoteNodes := 2
  remoteParallelism := 4
  remoteMemory := 50

/-- A pass over plans for it. -/
def fourTasks : Optimizer Rat where
  settings := (ofMachine 8).settings
  probe := smallMachine.probe
  estimator := .hops 1

/-- The operator is taken into the process, where it needs forty, and the loop goes to the cluster,
where four of its iterations run at once. -/
theorem runsRemotely_rowLoop :
    ∃ summary, (fourTasks.optimize rowVars rowLoop).1 = .ok summary ∧
      RunsRemotely fourTasks.settings smallMachine summary
        (fourTasks.optimize rowVars rowLoop).2.plan ∧
      summary.nested = false ∧
      (fourTasks.optimize rowVars rowLoop).2.plan.tree.root.workers = 4 := by
  obtain ⟨summary, done⟩ := Outcome.exists_ok
    (show (fourTasks.optimize rowVars rowLoop).1.toOption.isSome = true by decide +kernel)
  have whole : (fourTasks.optimize rowVars rowLoop).1.toOption.map PassSummary.nested =
      some false := by decide +kernel
  rw [done] at whole
  obtain ⟨infrastructure, _, _, resolved, -, -, -, -, runs⟩ :=
    runsRemotely_optimize ⟨by decide, by decide⟩ done (by decide +kernel)
  obtain rfl := Except.ok.inj resolved
  exact ⟨summary, done, runs, Option.some.inj whole, by decide +kernel⟩

end Optimizer

end ParallelLoop
