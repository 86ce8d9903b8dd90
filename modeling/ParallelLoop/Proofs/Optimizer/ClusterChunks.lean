/-
# Chunks for the nodes of a cluster

The fourth rule cuts a loop of `n` iterations into chunks of `⌈n / k⌉` for the `k` nodes of a
cluster, and the fifth gives the loop over the chunks one worker for each node. Both quotients are
rounded up, so `⌈n / ⌈n / k⌉⌉` chunks come out of it. These are never more than there are nodes,
but they can be fewer: four iterations on three nodes make two chunks of two, and the third worker
has none. There is one for every worker exactly if the chunks of all nodes but one do not take all
iterations.
-/

import ParallelLoop.Proofs.Optimizer.InnerLoops
import ParallelLoop.Proofs.Optimizer.RemoteLoops
import ParallelLoop.Proofs.Plan.ChunkedValues

namespace ParallelLoop

/-! ## Quotients of quotients -/

section

variable {count nodes : Nat}

/-- There are no more chunks than nodes that they are cut for. -/
theorem divideUp_divideUp_le (some : 1 ≤ nodes) (enough : nodes ≤ count) :
    divideUp count (divideUp count nodes) ≤ nodes := by
  apply Nat.le_of_not_lt
  intro more
  rw [lt_divideUp_iff (one_le_divideUp some enough), Nat.mul_comm] at more
  exact absurd (le_divideUp_mul count some) (Nat.not_le.mpr more)

/-- There is a chunk for every node if those of the others do not suffice. -/
theorem divideUp_divideUp_eq_iff (some : 1 ≤ nodes) (enough : nodes ≤ count) :
    divideUp count (divideUp count nodes) = nodes ↔ (nodes - 1) * divideUp count nodes < count := by
  rw [← lt_divideUp_iff (one_le_divideUp some enough)]
  have most := divideUp_divideUp_le some enough
  omega

end

namespace PlanNode

/-- The loop goes over chunks of so many iterations that were cut for the nodes of a cluster. It
has a worker for each node, and no more chunks than workers. -/
structure IsCutFor (loop : PlanNode) (nodes count : Nat) : Prop where
  workers : loop.workers = nodes
  chunks : loop.tripCount = .ok (divideUp count (divideUp count nodes))
  most : divideUp count (divideUp count nodes) ≤ nodes

/-- The loop has as many iterations as workers: each gets one, and none is left without. -/
def HasOneEach (loop : PlanNode) : Prop := loop.tripCount = .ok loop.workers

instance (loop : PlanNode) : Decidable loop.HasOneEach :=
  inferInstanceAs (Decidable (loop.tripCount = .ok loop.workers))

theorem IsCutFor.hasOneEach_iff {loop : PlanNode} {nodes count : Nat}
    (cut : loop.IsCutFor nodes count) (some : 1 ≤ nodes) (enough : nodes ≤ count) :
    loop.HasOneEach ↔ (nodes - 1) * divideUp count nodes < count := by
  rw [HasOneEach, cut.chunks, cut.workers, Except.ok.injEq, divideUp_divideUp_eq_iff some enough]

end PlanNode

namespace Optimizer

open PlanningRule

variable {α : Type} [Quantity α] {optimizer : Optimizer α} {vars : Variables} {plan final : Plan α}
  {summary : PassSummary α}

namespace Stages

variable (stages : Stages optimizer vars plan final summary)

include stages

/-- What the fourth rule does to the records of the nodes stays until the end at the topmost one. -/
theorem outline_final (numbered : plan.tree.IsNumbered) :
    final.tree.root.outline = stages.split.tree.root.outline := by
  have root := congrArg PlanTree.root stages.outlines_budgeted
  rw [PlanTree.root_mapNodes, PlanTree.root_mapNodes] at root
  rw [stages.root_final (stages.isNumbered_split numbered).distinct, root]

theorem placement_of_split (numbered : plan.tree.IsNumbered) :
    final.tree.root.placement = stages.split.tree.root.placement := by
  have root := congrArg PlanTree.root stages.sites_budgeted
  rw [PlanTree.root_mapNodes, PlanTree.root_mapNodes] at root
  rw [stages.root_final (stages.isNumbered_split numbered).distinct]
  exact (congrArg PlanNode.placement root :)

theorem remoteNodes_eq : stages.context.remoteNodes = stages.infrastructure.remoteNodes := by
  obtain ⟨_, _, -, -, context_eq⟩ := PassContext.of_ofPlan stages.ofPlan
  rw [context_eq]
  rfl

/-- A loop that is split is split for the nodes of the cluster. -/
theorem exists_cluster_division (numbered : plan.tree.IsNumbered)
    (splits : optimizer.Splits plan summary) :
    ∃ count, plan.tree.root.tripCount = .ok count ∧ 0 < stages.infrastructure.remoteNodes ∧
      stages.infrastructure.remoteNodes ≤ count ∧
      Nonempty (Plan.Division stages.colocated stages.split
        (divideUp count stages.infrastructure.remoteNodes) optimizer.settings.nestedVar) := by
  obtain ⟨nested, whole⟩ := splits
  obtain ⟨split, count, split_eq, counted, context_eq⟩ := PassContext.of_ofPlan stages.ofPlan
  obtain rfl := Except.ok.inj (whole.symm.trans split_eq)
  refine ⟨count, (counted.resolve_left nofun).2, ?_⟩
  rcases of_nestedParallelism stages.nestedParallelism with ⟨same, -⟩ | ⟨-, pays, inner, cut⟩
  · -- Without a split the summary would not tell of one.
    rw [stages.summary_eq.2.2, same, context_eq] at nested
    cases nested
  · simp only [shouldSplit, Bool.and_eq_true, beq_iff_eq, decide_eq_true_eq, context_eq] at pays
    obtain ⟨⟨⟨⟨-, nodes⟩, enough⟩, -⟩, -⟩ := pays
    rw [context_eq] at cut
    have division := Plan.exists_division (stages.isNumbered_colocated numbered) cut
    exact ⟨nodes, enough, max_eq_left (one_le_divideUp nodes enough) ▸ division⟩

end Stages

/-- A pass that splits its loop cuts it for the nodes of the cluster. Every worker has a chunk if
and only if those of all nodes but one do not take all iterations. -/
theorem hasOneEach_optimize_iff (numbered : plan.tree.IsNumbered)
    (done : (optimizer.optimize vars plan).1 = .ok summary)
    (splits : optimizer.Splits plan summary) :
    ∃ infrastructure count,
      optimizer.probe.resolve = .ok infrastructure ∧ plan.tree.root.tripCount = .ok count ∧
      0 < infrastructure.remoteNodes ∧ infrastructure.remoteNodes ≤ count ∧
      (optimizer.optimize vars plan).2.plan.tree.root.IsCutFor infrastructure.remoteNodes count ∧
      ((optimizer.optimize vars plan).2.plan.tree.root.HasOneEach ↔
        (infrastructure.remoteNodes - 1) * divideUp count infrastructure.remoteNodes < count) := by
  obtain ⟨stages⟩ := exists_stages done
  obtain ⟨count, counted, nodes, enough, ⟨division⟩⟩ :=
    stages.exists_cluster_division numbered splits
  have cut : (optimizer.optimize vars plan).2.plan.tree.root.IsCutFor
      stages.infrastructure.remoteNodes count := by
    refine ⟨?workers, ?chunks, divideUp_divideUp_le nodes enough⟩
    case workers =>
      have elsewhere : (optimizer.optimize vars plan).2.plan.tree.root.placement = .remote := by
        rw [stages.placement_of_split numbered, division.tree_eq]
        rfl
      have own := ((stages.withinBudget numbered).remote elsewhere).1
      rw [stages.last_eq, remoteWorkers, if_pos splits.1] at own
      rw [own, ← stages.remoteNodes_eq]
      exact max_eq_left (stages.remoteNodes_eq ▸ nodes)
    case chunks =>
      -- The loop that was split has the trip count of the plan.
      have trips := PlanTree.tripCount_of_trips (stages.view_colocated Plan.ignores_trips)
      rw [division.root_eq, division.counted, counted] at trips
      have outline := stages.outline_final numbered
      rw [division.tree_eq, Except.ok.inj trips] at outline
      rw [PlanNode.tripCount_of_outline outline]
      have fits := PlanNode.le_maxCount_of_tripCount counted
      exact PlanNode.tripCount_eq ((divideUp_le (one_le_divideUp nodes enough)).trans fits) rfl
  exact ⟨stages.infrastructure, count, stages.resolved, counted, nodes, enough, cut,
    cut.hasOneEach_iff nodes enough⟩

/-- Four iterations on two nodes make a chunk for each. -/
theorem hasOneEach_oneLoop :
    ∃ summary, ((ofCluster 2 2).optimize .empty oneLoop).1 = .ok summary ∧
      (ofCluster 2 2).Splits oneLoop summary ∧
      ((ofCluster 2 2).optimize .empty oneLoop).2.plan.tree.root.HasOneEach := by
  obtain ⟨summary, done⟩ := Outcome.exists_ok
    (show ((ofCluster 2 2).optimize .empty oneLoop).1.toOption.isSome = true by decide +kernel)
  have nested : ((ofCluster 2 2).optimize .empty oneLoop).1.toOption.map PassSummary.nested =
      some true := by decide +kernel
  rw [done] at nested
  have splits : (ofCluster 2 2).Splits oneLoop summary :=
    ⟨Option.some.inj nested, Plan.splitTripCount_of_flat (by decide) rfl _⟩
  obtain ⟨_, count, resolved, counted, -, -, -, eachIff⟩ :=
    hasOneEach_optimize_iff ⟨by decide, by decide⟩ done splits
  obtain rfl := Except.ok.inj resolved
  have four : oneLoop.tree.root.tripCount = .ok 4 := by decide +kernel
  obtain rfl := Except.ok.inj (four.symm.trans counted)
  exact ⟨summary, done, splits, eachIff.mpr (by decide)⟩

/-- Four iterations on three nodes make two chunks, and one of the three workers has none. -/
theorem not_hasOneEach_oneLoop :
    ∃ summary, ((ofCluster 3 3).optimize .empty oneLoop).1 = .ok summary ∧
      (ofCluster 3 3).Splits oneLoop summary ∧
      ((ofCluster 3 3).optimize .empty oneLoop).2.plan.tree.root.tripCount = .ok 2 ∧
      ((ofCluster 3 3).optimize .empty oneLoop).2.plan.tree.root.workers = 3 ∧
      ¬ ((ofCluster 3 3).optimize .empty oneLoop).2.plan.tree.root.HasOneEach := by
  obtain ⟨summary, done⟩ := Outcome.exists_ok
    (show ((ofCluster 3 3).optimize .empty oneLoop).1.toOption.isSome = true by decide +kernel)
  have nested : ((ofCluster 3 3).optimize .empty oneLoop).1.toOption.map PassSummary.nested =
      some true := by decide +kernel
  rw [done] at nested
  exact ⟨summary, done, ⟨Option.some.inj nested, Plan.splitTripCount_of_flat (by decide) rfl _⟩,
    by decide +kernel, by decide +kernel, by decide +kernel⟩

end Optimizer

end ParallelLoop
