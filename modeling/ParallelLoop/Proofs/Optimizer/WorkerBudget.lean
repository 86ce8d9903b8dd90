/-
# The worker budget

An optimized plan never puts more workers to work at once than it has a budget for. A
local loop has the workers that the machine allows and that fit into its memory; a remote
loop has those of the cluster, and each of its tasks has a share of them that fits into
the memory of a task.

The fifth rule distributes the budget. What comes after it keeps the profile of the tree:
the sixth, seventh and eighth rule choose no workers, and the ninth one only demotes loops
that have one.
-/

import ParallelLoop.Proofs.Optimizer.Demotion
import ParallelLoop.Proofs.Optimizer.Workers

namespace ParallelLoop

open PlanTree

variable {α : Type} [Quantity α]

namespace PlanningRule

variable {context : PassContext α} {plan after : Plan α}

/-- The workers of a tree are within the budget that a context has for it. -/
structure WithinBudget (context : PassContext α) (tree : PlanTree) : Prop where
  inProcess : tree.root.placement = .inProcess → tree.totalWorkers ≤ localBudget context tree
  remote : tree.root.placement = .remote →
    tree.root.workers = remoteWorkers context ∧
      tree.totalWorkers ≤ max (remoteWorkers context) context.remoteLimit ∧
      ∀ child ∈ tree.children, child.totalWorkers ≤ taskBudget context (remoteWorkers context)

theorem one_le_localBudget (context : PassContext α) (tree : PlanTree) :
    1 ≤ localBudget context tree := Nat.le_max_right ..

omit [Quantity α] in
theorem one_le_remoteWorkers (context : PassContext α) : 1 ≤ remoteWorkers context := by
  unfold remoteWorkers
  split <;> exact Nat.le_max_right ..

theorem one_le_taskBudget (context : PassContext α) (workers : Nat) :
    1 ≤ taskBudget context workers := Nat.le_max_right ..

/-- The tasks of a remote loop together have no more workers than the cluster, or one each. -/
theorem mul_taskBudget_le (context : PassContext α) (workers : Nat) :
    workers * taskBudget context workers ≤ max workers context.remoteLimit := by
  have share : taskBudget context workers ≤ max (context.remoteLimit / workers) 1 :=
    Nat.max_le.mpr ⟨Nat.le_trans (Nat.min_le_left ..) (Nat.le_max_left ..), Nat.le_max_right ..⟩
  refine Nat.le_trans (Nat.mul_le_mul_left workers share) ?_
  -- With more tasks than workers, every task still has one.
  by_cases spare : 1 ≤ context.remoteLimit / workers
  · rw [Nat.max_eq_left spare]
    exact Nat.le_trans (Nat.mul_div_le context.remoteLimit workers) (Nat.le_max_right ..)
  · rw [Nat.max_eq_right (by omega), Nat.mul_one]
    exact Nat.le_max_left ..

omit [Quantity α] in
/-- Changes of a plan keep its remote operators when they assign workers. -/
theorem isLocalOnly_assign (workers : NodeId → Option Nat) (tree : PlanTree) :
    (tree.mapNodes (PlanNode.assign workers)).isLocalOnly = tree.isLocalOnly :=
  isLocalOnly_mapNodes (fun _ => by rfl) tree

omit [Quantity α] in
/-- Giving the topmost loop its workers and then distributing its share. -/
theorem distributed_root {own share : Nat} {mid : Plan α} (distinct : plan.tree.ids.Nodup)
    (set : (Plan.setWorkers plan.tree.id own).result plan = (.ok (), mid))
    (done : (distributeAll share plan.tree.children).result mid = (.ok (), after)) :
    after.tree.root = { plan.tree.root with workers := own } ∧
      after.tree.isLocalOnly = plan.tree.isLocalOnly ∧
      ∀ child ∈ after.tree.children, child.IsShared share := by
  obtain ⟨root, children, held⟩ : ∃ root children, plan.tree = node root children := by
    cases plan.tree with
    | node root children => exact ⟨root, children, rfl⟩
  have member : node root children ∈ plan.tree.subtrees := held ▸ self_mem_subtrees plan.tree
  rw [held] at set done
  obtain ⟨others, below, apart, tree_eq⟩ := exists_distributed_below
    (fun child _ _ _ distinct there => exists_distributed distinct there) distinct member set done
  rw [tree_eq, isLocalOnly_assign, held, mapNodes_loop apart below]
  exact ⟨rfl, rfl, List.forall_mem_map.mpr below.shared⟩

omit [Quantity α] in
/-- What the fifth rule reports changes nothing. -/
theorem of_reportedWorkers
    (leads : Pass.Leads (do
      let final := (← Pass.plan).tree
      degreeOfParallelism.report s!"k={final.root.workers} (total {final.totalWorkers})" :
        Pass α Unit) plan () after) : after = plan :=
  (Pass.Leads.of_plan_bind leads).of_report

/-- The loop has the workers that a context has for it, and shares what is left over. -/
structure SharesBudget (context : PassContext α) (tree : PlanTree) : Prop where
  inProcess : tree.root.placement = .inProcess →
    tree.root.workers = workersFor context.iterations (localBudget context tree) ∧
      ∀ child ∈ tree.children, child.IsShared (localBudget context tree / tree.root.workers)
  remote : tree.root.placement = .remote →
    tree.root.workers = remoteWorkers context ∧
      ∀ child ∈ tree.children, child.IsShared (taskBudget context tree.root.workers)

/-- The fifth rule shares the budget of the plan. -/
theorem sharesBudget_degreeOfParallelism (distinct : plan.tree.ids.Nodup)
    (leads : (runDegreeOfParallelism context).Leads plan () after) :
    SharesBudget context after.tree := by
  have chain := Pass.Leads.of_plan_bind leads
  dsimp only at chain
  split at chain
  -- The loop runs in the process and shares the budget of the machine with its body.
  next here =>
    obtain ⟨_, mid, set, counted⟩ := Pass.Leads.of_onPlan_bind chain
    obtain ⟨share, shared, handed⟩ := Pass.Leads.of_ofOutcome_bind counted
    obtain ⟨_, _, done, reported⟩ := Pass.Leads.of_onPlan_bind handed
    obtain rfl := of_reportedWorkers reported
    have own := workersFor_le context.iterations (one_le_localBudget context plan.tree)
    rw [remainingShare_eq (one_le_workersFor ..) own] at shared
    obtain rfl := Except.ok.inj shared
    obtain ⟨root_eq, localOnly, below⟩ := distributed_root distinct set done
    have budget_eq : localBudget context after.tree = localBudget context plan.tree := by
      unfold localBudget
      rw [localOnly]
    rw [← budget_eq] at root_eq below
    refine ⟨fun _ => ⟨congrArg PlanNode.workers root_eq, ?_⟩, fun elsewhere => ?_⟩
    · rw [congrArg PlanNode.workers root_eq]
      exact below
    · rw [root_eq] at elsewhere
      exact absurd (here.symm.trans elsewhere) (by decide)
  -- The loop is remote, and each of its tasks has a budget of its own.
  next elsewhere =>
    obtain ⟨_, mid, set, handed⟩ := Pass.Leads.of_onPlan_bind chain
    obtain ⟨_, _, done, reported⟩ := Pass.Leads.of_onPlan_bind handed
    obtain rfl := of_reportedWorkers reported
    obtain ⟨root_eq, -, below⟩ := distributed_root distinct set done
    refine ⟨fun here => ?_, fun _ => ⟨congrArg PlanNode.workers root_eq, ?_⟩⟩
    · rw [root_eq] at here
      exact absurd (elsewhere.symm.trans here) (by decide)
    · rw [congrArg PlanNode.workers root_eq]
      exact below

/-- A loop that shares a budget is within it. -/
theorem SharesBudget.withinBudget {tree : PlanTree} (shares : SharesBudget context tree) :
    WithinBudget context tree := by
  -- Each worker of the loop has the workers of one of the trees below.
  have total {share : Nat} (below : ∀ child ∈ tree.children, child.IsShared share)
      (positive : 1 ≤ tree.root.workers) :
      tree.totalWorkers ≤ tree.root.workers * max share 1 := by
    have fanOut : tree.root.fanOut ≤ tree.root.workers := by
      unfold PlanNode.fanOut
      split <;> omega
    cases tree with
    | node root children =>
      exact Nat.le_trans (totalWorkers_node_le fun child there => (below child there).totalWorkers_le)
        (Nat.mul_le_mul_right _ fanOut)
  refine ⟨fun here => ?_, fun elsewhere => ?_⟩
  · obtain ⟨own, below⟩ := shares.inProcess here
    have some := one_le_localBudget context tree
    have positive : 1 ≤ tree.root.workers := own ▸ one_le_workersFor ..
    have within : tree.root.workers ≤ localBudget context tree := own ▸ workersFor_le _ some
    have most := Nat.le_trans (total below positive) (mul_share_le positive within)
    rwa [Nat.max_eq_left some] at most
  · obtain ⟨own, below⟩ := shares.remote elsewhere
    have positive : 1 ≤ tree.root.workers := own ▸ one_le_remoteWorkers context
    have share := Nat.max_eq_left (one_le_taskBudget context tree.root.workers)
    refine ⟨own, ?_, fun child there => ?_⟩
    · have most := total below positive
      rw [share] at most
      rw [← own]
      exact Nat.le_trans most (mul_taskBudget_le context _)
    · rw [← own]
      exact share ▸ (below child there).totalWorkers_le

/-- Whether a tree is within its budget depends on its profile and its topmost node. -/
theorem WithinBudget.of_profile {tree other : PlanTree} (within : WithinBudget context tree)
    (same : other.profile = tree.profile) (placement : other.root.placement = tree.root.placement)
    (workers : other.root.workers = tree.root.workers) : WithinBudget context other where
  inProcess here := by
    have budget_eq : localBudget context other = localBudget context tree := by
      unfold localBudget
      rw [isLocalOnly_eq_of_profile same]
    rw [totalWorkers_eq_of_profile same, budget_eq]
    exact within.inProcess (placement ▸ here)
  remote elsewhere := by
    obtain ⟨own, total, below⟩ := within.remote (placement ▸ elsewhere)
    rw [workers, totalWorkers_eq_of_profile same]
    refine ⟨own, total, fun child there => ?_⟩
    obtain ⟨twin, twinThere, twin_eq⟩ := exists_child_of_profile same there
    rw [totalWorkers_eq_of_profile twin_eq]
    exact below twin twinThere

theorem WithinBudget.of_choices (within : WithinBudget context plan.tree)
    (same : after.choices = plan.choices) : WithinBudget context after.tree := by
  -- A profile has no texts, so it can be read off what was chosen.
  have forget (tree : PlanTree) : (tree.mapNodes PlanNode.untexted).profile = tree.profile := by
    unfold profile
    rw [mapNodes_mapNodes]
    rfl
  have profile_eq : after.tree.profile = plan.tree.profile := by
    rw [← forget after.tree, ← forget plan.tree]
    exact congrArg profile same
  have root_eq : after.tree.root.untexted = plan.tree.root.untexted := by
    have roots := congrArg root same
    unfold Plan.choices at roots
    rwa [root_mapNodes, root_mapNodes] at roots
  have placement := congrArg PlanNode.placement root_eq
  have workers := congrArg PlanNode.workers root_eq
  exact within.of_profile profile_eq placement workers

theorem WithinBudget.of_unnecessaryLoops {removed : Nat} (within : WithinBudget context plan.tree)
    (distinct : plan.tree.ids.Nodup) (leads : runUnnecessaryLoops.Leads plan removed after) :
    WithinBudget context after.tree := by
  have done := (PlanningRule.of_unnecessaryLoops leads).1
  have root_eq := root_demoteEach (root_not_mem_nestedSerialLoops distinct) done
  refine within.of_profile (profile_demoted distinct done)
    (congrArg PlanNode.placement root_eq) (congrArg PlanNode.workers root_eq)

end PlanningRule

/-! ## The budget of a pass -/

/-- The limits of a context are those of the infrastructure. -/
theorem PassContext.limits_eq {settings : OptimizerSettings α} {vars : Variables}
    {infrastructure : Infrastructure} {plan : Plan α} {context : PassContext α}
    (done : ofPlan settings vars infrastructure plan = .ok context) :
    context.localLimit = scale settings.workerFactor infrastructure.localParallelism ∧
      context.mixedLimit = scale settings.mixedWorkerFactor infrastructure.localParallelism ∧
      context.remoteLimit = scale settings.workerFactor infrastructure.remoteParallelism ∧
      context.remoteNodes = infrastructure.remoteNodes ∧
      context.remoteParallelism = infrastructure.remoteParallelism ∧
      context.localMemory = settings.memoryShare * Quantity.ofNat infrastructure.localMemory ∧
      context.remoteMemory = settings.memoryShare * Quantity.ofNat infrastructure.remoteMemory := by
  obtain ⟨_, _, -, -, rfl⟩ := of_ofPlan done
  exact ⟨rfl, rfl, rfl, rfl, rfl, rfl, rfl⟩

namespace Optimizer

open PlanningRule

/-- How many footprints fit into this many bytes, of which the settings allow a share. -/
def fitting (settings : OptimizerSettings α) (bytes : Nat) (summary : PassSummary α) : Nat :=
  Quantity.fits (settings.memoryShare * Quantity.ofNat bytes) summary.footprint

/-- The workers of a remote loop: one for each node of the cluster when the loop is split. -/
def topWorkers (infrastructure : Infrastructure) (summary : PassSummary α) : Nat :=
  if summary.nested then max infrastructure.remoteNodes 1
  else max (min summary.iterations infrastructure.remoteParallelism) 1

/-- The workers of an optimized plan are within the budget of the place where its loop runs: a local
loop has the workers of the machine that fit into its memory, and a remote loop has those of the
cluster, each of its tasks a share of them that fits into the memory of a task. -/
structure KeepsBudget (settings : OptimizerSettings α) (infrastructure : Infrastructure)
    (summary : PassSummary α) (tree : PlanTree) : Prop where
  inProcess : tree.root.placement = .inProcess →
    let factor := if tree.isLocalOnly then settings.workerFactor else settings.mixedWorkerFactor
    let limit := PassContext.scale factor infrastructure.localParallelism
    tree.totalWorkers ≤ max (min limit (fitting settings infrastructure.localMemory summary)) 1
  remote : tree.root.placement = .remote →
    let limit := PassContext.scale settings.workerFactor infrastructure.remoteParallelism
    tree.root.workers = topWorkers infrastructure summary ∧
      tree.totalWorkers ≤ max tree.root.workers limit ∧
      ∀ child ∈ tree.children, child.totalWorkers ≤
        max (min (limit / tree.root.workers)
          (fitting settings infrastructure.remoteMemory summary)) 1

variable {optimizer : Optimizer α} {vars : Variables} {plan final : Plan α}
  {summary : PassSummary α}

/-- The plan at the end of a pass is within the budget that the last context has for it. -/
theorem Stages.withinBudget (stages : Stages optimizer vars plan final summary)
    (numbered : plan.tree.IsNumbered) : WithinBudget stages.last final.tree := by
  have distinct := (stages.isNumbered_split numbered).distinct
  have shares := sharesBudget_degreeOfParallelism distinct stages.degreeOfParallelism
  have budgeted := shares.withinBudget.of_choices stages.choices_budgeted
  exact budgeted.of_unnecessaryLoops (Plan.nodup_of_layout distinct stages.layout_budgeted)
    stages.unnecessaryLoops

theorem Stages.keepsBudget (stages : Stages optimizer vars plan final summary)
    (numbered : plan.tree.IsNumbered) :
    KeepsBudget optimizer.settings stages.infrastructure summary final.tree := by
  have within := stages.withinBudget numbered
  obtain ⟨localLimit, mixedLimit, remoteLimit, remoteNodes, remoteParallelism, localMemory,
    remoteMemory⟩ := PassContext.limits_eq stages.ofPlan
  have iterations := stages.summary_eq.1
  rw [stages.last_eq] at within
  -- The budget of the context is that of the resources, as the limits of the context are theirs.
  refine ⟨fun here => ?_, fun elsewhere => ?_⟩
  · have total := within.inProcess here
    unfold localBudget PassContext.fittingWorkers at total
    dsimp only at total ⊢
    rw [localMemory] at total
    by_cases alone : final.tree.isLocalOnly = true
    · rw [if_pos alone] at total ⊢
      rwa [localLimit] at total
    · rw [if_neg alone] at total ⊢
      rwa [mixedLimit] at total
  · obtain ⟨own, total, below⟩ := within.remote elsewhere
    have top_eq : remoteWorkers { stages.context with
        footprint := summary.footprint, nested := summary.nested } =
          topWorkers stages.infrastructure summary := by
      unfold remoteWorkers topWorkers
      rw [remoteNodes, remoteParallelism, iterations]
    rw [top_eq] at own total below
    unfold taskBudget PassContext.fittingWorkers at below
    dsimp only at total below ⊢
    rw [remoteLimit] at total below
    rw [remoteMemory] at below
    rw [own]
    exact ⟨rfl, total, below⟩

/-- Optimizing a plan keeps to the worker budget of the resources at hand, for the footprint that
was estimated again. -/
theorem keepsBudget_optimize (numbered : plan.tree.IsNumbered)
    (done : (optimizer.optimize vars plan).1 = .ok summary) :
    ∃ infrastructure context partitioned,
      optimizer.probe.resolve = .ok infrastructure ∧
      PassContext.ofPlan optimizer.settings vars infrastructure plan = .ok context ∧
      summary.iterations = context.iterations ∧
      partitioned.layout = plan.layout ∧
      optimizer.estimator.memory 1 partitioned = .ok summary.footprint ∧
      KeepsBudget optimizer.settings infrastructure summary
        (optimizer.optimize vars plan).2.plan.tree := by
  obtain ⟨stages⟩ := exists_stages done
  obtain ⟨iterations, footprint, -⟩ := stages.summary_eq
  exact ⟨stages.infrastructure, stages.context, stages.partitioned, stages.resolved, stages.ofPlan,
    iterations, stages.view_partitioned Plan.ignores_layout.given, footprint ▸ stages.reestimated,
    stages.keepsBudget numbered⟩

/-- A loop of two iterations around one of ten. -/
def twoLoops : Plan Rat where
  tree :=
    .node { id := ⟨0⟩, kind := .parfor, placement := .inProcess, block := some ⟨0⟩
            parameters := { numIterations := some "2" } }
      [.node { id := ⟨1⟩, kind := .parfor, placement := .inProcess, block := some ⟨1⟩
               parameters := { numIterations := some "10" } } []]
  program :=
    { blocks := #[
        .parallel { var := "i", first := .const 1, last := .const 2, step := 1 } .undecided [⟨1⟩],
        .parallel { var := "j", first := .const 1, last := .const 10, step := 1 } .undecided []]
      hops := #[] }

/-- Two of the five workers for the outer loop leave two for each of its iterations. -/
theorem keepsBudget_twoLoops :
    ∃ summary, ((ofMachine 5).optimize .empty twoLoops).1 = .ok summary ∧
      KeepsBudget (ofMachine 5).settings (Infrastructure.localOnly 5 5) summary
        ((ofMachine 5).optimize .empty twoLoops).2.plan.tree ∧
      ((ofMachine 5).optimize .empty twoLoops).2.plan.tree.totalWorkers = 4 := by
  obtain ⟨summary, done⟩ := Outcome.exists_ok
    (show ((ofMachine 5).optimize .empty twoLoops).1.toOption.isSome = true by decide +kernel)
  obtain ⟨infrastructure, _, _, resolved, -, -, -, -, within⟩ :=
    keepsBudget_optimize ⟨by decide, by decide⟩ done
  obtain rfl := Except.ok.inj resolved
  exact ⟨summary, done, within, by decide +kernel⟩

end Optimizer

end ParallelLoop
