/-
# Optimizing again

A pass over a plan that is settled in its own context takes all workers away, finds
nothing to decide, and gives the workers back: it leaves the plan as it was. Since a pass
settles a plan, optimizing twice is optimizing once, as long as the second pass sees the
loop as the first one left it.

Without splits it does. A loop that was not split is not taken for one that was, and
neither trip counts nor problem sizes change when loops are demoted.
-/

import ParallelLoop.Proofs.Optimizer.Settling
import ParallelLoop.Proofs.Plan.Recognition

namespace ParallelLoop

open Change (Respects)

variable {α : Type}

namespace Plan

variable {plan after : Plan α}

/-- The plan with serial loops, as an overlay. -/
theorem serialize_eq_assign (steady : plan.IsSteady) :
    (serialize plan.tree.id).result plan =
      (.ok (), plan.assign (serialWorkers plan.tree.nodes)) := by
  have distinct := steady.formed.numbered.distinct
  have overlaid := serializeNodes_assign distinct steady.owns steady.inStep
    (fun node there => there) fun _ => none
  rw [result_serialize (PlanTree.find?_eq_some distinct (PlanTree.self_mem_subtrees _))]
  simpa [assign_none] using overlaid

/-- Only loops are made serial. -/
theorem assignsLoops_serialWorkers (plan : Plan α) :
    plan.AssignsLoops (serialWorkers plan.tree.nodes) := by
  intro id other
  exact if_neg fun ⟨node, there, same, loop⟩ => other ⟨node, there, same, loop⟩

end Plan

namespace PassContext

variable [Quantity α] {settings : OptimizerSettings α} {vars : Variables}
  {infrastructure : Infrastructure} {plan : Plan α} {iterations : Nat}

/-- The context of a loop that is not taken for one that was split. -/
theorem ofPlan_of_whole (whole : plan.splitTripCount plan.tree.id settings.nestedVar = .ok none)
    (counted : plan.tree.root.tripCount = .ok iterations) :
    ofPlan settings vars infrastructure plan =
      .ok (ofTree settings vars infrastructure plan.tree iterations false) := by
  have found : plan.splitTripCount plan.tree.root.id settings.nestedVar = .ok none := whole
  unfold ofPlan
  dsimp only
  rw [found, Outcome.ok_bind]
  dsimp only
  rw [counted]
  rfl

/-- The context of a loop that is taken for one that was split. -/
theorem ofPlan_of_split
    (split : plan.splitTripCount plan.tree.id settings.nestedVar = .ok (some iterations)) :
    ofPlan settings vars infrastructure plan =
      .ok (ofTree settings vars infrastructure plan.tree iterations true) := by
  have found : plan.splitTripCount plan.tree.root.id settings.nestedVar = .ok (some iterations) :=
    split
  unfold ofPlan
  dsimp only
  rw [found, Outcome.ok_bind]
  rfl

/-- A context knows no more of a tree than its trip counts. -/
theorem ofTree_of_trips {tree other : PlanTree} (same : other.trips = tree.trips) (nested : Bool) :
    ofTree settings vars infrastructure other iterations nested =
      ofTree settings vars infrastructure tree iterations nested := by
  unfold ofTree
  rw [PlanTree.maxProblemSize_of_trips same]

end PassContext

namespace PlanningRule

variable [Quantity α] {context : PassContext α} {plan : Plan α}

/-- Whether a loop is to be split does not depend on workers. -/
theorem shouldSplit_assign (context : PassContext α) (workers : NodeId → Option Nat)
    (tree : PlanTree) :
    shouldSplit context (tree.mapNodes (PlanNode.assign workers)) = shouldSplit context tree := by
  have kinds (node : PlanNode) : (PlanNode.assign workers node).kind = node.kind := rfl
  unfold shouldSplit
  rw [PlanTree.hasNestedParallelism_mapNodes kinds, PlanTree.root_mapNodes]
  rfl

theorem does_nestedParallelism (whole : shouldSplit context plan.tree = false) :
    (runNestedParallelism context).Does plan context plan := by
  refine .bind (.readPlan plan) ?_
  dsimp only
  rw [whole]
  exact .bind (.pure plan context) (.bind (.say plan _ _) (.pure plan context))

end PlanningRule

namespace Optimizer

open PlanningRule

variable [Quantity α] {optimizer : Optimizer α} {vars : Variables} {plan after : Plan α}
  {summary : PassSummary α} {context : PassContext α}

omit [Quantity α] in
theorem does_estimate {asked : Nat} {footprint : α}
    (known : optimizer.estimator.memory asked plan = .ok footprint) :
    (optimizer.estimate asked).Does plan footprint plan :=
  .bind (.readPlan plan) (.ofExcept known plan)

omit [Quantity α] in
/-- A plan can be summed up again, whatever was demoted. -/
theorem does_summarize {initial : α} {removed : Nat}
    (leads : (summarize context initial removed).Leads plan summary plan) (footprint : α) :
    (summarize context footprint 0).Does plan
      { summary with initialFootprint := footprint, removed := 0 } plan := by
  obtain ⟨settings, found, asked⟩ :=
    Pass.Leads.of_inspect_bind (fun plan => plan.settings _) (Pass.Leads.of_plan_bind leads)
  obtain ⟨decided, mid, counted, returned⟩ := Pass.Leads.of_onPlan_bind asked
  obtain ⟨rfl, rfl⟩ := returned.of_pure
  exact .bind (.readPlan _) (.bind (.inspect (fun plan : Plan α => plan.settings _) found)
    (.bind (.onPlan counted) (.pure _ _)))

/-! ## A pass over a settled plan -/

section

variable {remoteCost : α} (settled : IsSettled context remoteCost plan)

include settled

theorem steady_of_settled : plan.IsSteady :=
  ⟨settled.placed.formed, settled.owns, settled.inStep⟩

/-- With serial loops, the plan is placed just as well. -/
theorem isPlaced_serial :
    IsPlaced context remoteCost (plan.assign (serialWorkers plan.tree.nodes)) := by
  have steady := steady_of_settled settled
  have done := Plan.serialize_eq_assign steady
  have keeps : Respects (Plan.Keeps .situation) (Plan.serialize (α := α) plan.tree.id) :=
    Plan.respects_serialize fun _ => Plan.keeps_setWorkers (fun _ => rfl) fun _ => rfl
  have kept := keeps.of_result done steady.formed
  have layout := Plan.ignores_layout.given.serialize.eq done
  refine settled.placed.of_keeps kept
    ((Plan.root_kind_of_layout layout).trans settled.placed.parallel) ?_
  rw [indexingLoop_of_bare kept.bare_eq]
  exact Plan.isLoop_of_layout layout.symm settled.placed.indexing

/-- With serial loops, the plan needs what the context knows. -/
theorem memory_serial [Quantity.IsLawful α] :
    let serial := plan.assign (serialWorkers plan.tree.nodes)
    serial.program.memory remoteCost serial.tree = .ok context.footprint := by
  have steady := steady_of_settled settled
  have distinct := steady.formed.numbered.distinct
  have placed := isPlaced_serial settled
  have serial := Plan.isSerial_serialize distinct settled.owns
    (Plan.serialize_eq_assign steady)
  rw [← placed.footprint, Program.memory_bare fun node there =>
    serial.fanOut_eq placed.formed.numbered.distinct there]

variable [Quantity.IsLawful α] (hops : optimizer.estimator = .hops remoteCost)

include hops

theorem does_estimate_serial (asked : Nat) :
    (optimizer.estimate asked).Does (plan.assign (serialWorkers plan.tree.nodes))
      context.footprint (plan.assign (serialWorkers plan.tree.nodes)) := by
  apply does_estimate
  rw [hops]
  exact memory_serial settled

/-- The rules take the plan with serial loops back to the plan. -/
theorem does_applyRules (whole : shouldSplit context plan.tree = false) :
    (optimizer.applyRules context).Does (plan.assign (serialWorkers plan.tree.nodes))
      (context, 0) plan := by
  have placed := isPlaced_serial settled
  have distinct := settled.placed.formed.numbered.distinct
  obtain ⟨candidates, applied, inputs⟩ := placed.inputs
  have split : (runNestedParallelism context).Does (plan.assign (serialWorkers plan.tree.nodes))
      context (plan.assign (serialWorkers plan.tree.nodes)) :=
    does_nestedParallelism ((shouldSplit_assign context _ plan.tree).trans whole)
  have degree := does_degreeOfParallelism distinct settled.owns settled.inStep
    settled.placed.parallel settled.parallel settled.shares (plan.assignsLoops_serialWorkers)
  -- Up to the fifth rule the plan differs from the final one in the workers, which that rule
  -- restores.
  unfold applyRules
  refine .bind (.say _ _ _) (.bind (does_dataPartitioner placed.formed.numbered.distinct inputs)
    (.bind (.bind (does_estimate_serial settled hops 1) (.bind (.say _ _ _) (.pure _ _))) ?_))
  refine .bind (.say _ _ _) (.bind (does_executionStrategy placed.formed.numbered.distinct
    placed.parallel placed.placement) ?_)
  refine .bind (.say _ _ _) (.bind (does_colocation placed.colocation) ?_)
  refine .bind (.say _ _ _) (.bind split (.bind (.say _ _ _) (.bind degree ?_)))
  refine .bind (.say _ _ _) (.bind (does_taskPartitioner distinct settled.tasks) ?_)
  refine .bind (.say _ _ _) (.bind (does_resultMerge distinct settled.placed.parallel
    settled.merges) ?_)
  refine .bind (.say _ _ _) (.bind (does_recompileBudget settled.budget) ?_)
  exact .bind (.say _ _ _) (.bind (does_unnecessaryLoops settled.parallel) (.pure _ _))

variable {infrastructure : Infrastructure} (resolved : optimizer.probe.resolve = .ok infrastructure)
  (known : PassContext.ofPlan optimizer.settings vars infrastructure plan =
    .ok { context with footprint := Quantity.zero })

include resolved known

theorem does_prepare :
    (optimizer.prepare vars).Does plan context (plan.assign (serialWorkers plan.tree.nodes)) := by
  have serialized := Plan.serialize_eq_assign (steady_of_settled settled)
  refine .bind (.readPlan plan) ?_
  dsimp only
  rw [if_neg (not_not.mpr settled.placed.parallel)]
  refine .bind (.say _ _ _) (.bind (.ofExcept resolved plan)
    (.bind (.readPlan plan) (.bind (.ofOutcome known plan) (.bind (.say _ _ _) ?_))))
  refine .bind (.onPlan serialized) (.bind (does_estimate_serial settled hops 0)
    (.bind (.say _ _ _) ?_))
  exact .pure _ context

/-- A pass in the context in which a plan is settled leaves it as it is. -/
theorem does_pass (whole : shouldSplit context plan.tree = false)
    (summed : (summarize context context.footprint 0).Does plan summary plan) :
    (optimizer.pass vars).Does plan summary plan :=
  .bind (does_prepare settled hops resolved known)
    (.bind (does_applyRules settled hops whole) (.bind summed
      (.bind (.readPlan plan) (.bind (.say plan _ _) (.pure plan summary)))))

end

/-! ## A second pass -/

namespace Stages

variable {final : Plan α} (stages : Stages optimizer vars plan final summary)

include stages

/-- Demoting loops changes no trip count. -/
theorem trips_final (steady : stages.split.IsSteady) :
    final.tree.trips = stages.split.tree.trips := by
  have distinct := stages.distinct_budgeted steady.formed.numbered.distinct
  rw [← stages.view_budgeted Plan.ignores_trips]
  refine mapNodes_demoteEach distinct (nodup_nestedSerialLoops distinct) ?_
    stages.demoted
  intro node there nested block
  exact PlanNode.trips_demoted (isSerialLoop_of_mem distinct there nested).1 block

/-- A pass that ends in a context in which its plan is seen again does nothing the second time. -/
theorem optimize_again [Quantity.IsLawful α] {remoteCost : α}
    (hops : optimizer.estimator = .hops remoteCost)
    (settled : IsSettled stages.last remoteCost final)
    (known : PassContext.ofPlan optimizer.settings vars stages.infrastructure final =
      .ok { stages.last with footprint := Quantity.zero })
    (whole : shouldSplit stages.last final.tree = false) :
    (optimizer.optimize vars final).1 =
        .ok { summary with initialFootprint := summary.footprint, removed := 0 } ∧
      (optimizer.optimize vars final).2.plan = final := by
  have footprint : stages.last.footprint = summary.footprint := by rw [stages.last_eq]
  have summed := does_summarize stages.summarized summary.footprint
  rw [← footprint] at summed
  obtain ⟨logAfter, done⟩ := does_pass settled hops stages.resolved known whole summed []
  rw [footprint] at done
  unfold optimize
  rw [done]
  exact ⟨rfl, rfl⟩

end Stages

/-- Optimizing twice is optimizing once, when loops are not split and the loop was not split before:
the second pass succeeds, leaves the plan as it is, and sums it up in the same way, with nothing left
to demote and the footprint of the loop as it is now. -/
theorem optimize_optimize [Quantity.IsLawful α] {remoteCost : α} (formed : plan.IsFormed)
    (owns : plan.OwnsBlocks) (hops : optimizer.estimator = .hops remoteCost)
    (flat : optimizer.settings.nestedParallelism = false)
    (whole : plan.splitTripCount plan.tree.id optimizer.settings.nestedVar = .ok none)
    (done : (optimizer.optimize vars plan).1 = .ok summary) :
    let optimized := (optimizer.optimize vars plan).2.plan
    (optimizer.optimize vars optimized).1 =
        .ok { summary with initialFootprint := summary.footprint, removed := 0 } ∧
      (optimizer.optimize vars optimized).2.plan = optimized := by
  obtain ⟨stages⟩ := exists_stages done
  obtain ⟨split, iterations, split_eq, counted, context_eq⟩ :=
    PassContext.of_ofPlan stages.ofPlan
  obtain rfl := Except.ok.inj (whole.symm.trans split_eq)
  obtain trips := (counted.resolve_left nofun).2
  -- Nothing is split, so the context from the fourth rule on is the one before.
  have unsplit : stages.last = { stages.context with footprint := stages.footprint } ∧
      stages.split = stages.colocated := by
    rcases of_nestedParallelism stages.nestedParallelism with same | ⟨-, pays, -⟩
    · exact same
    · rw [context_eq] at pays
      simp [shouldSplit, PassContext.ofTree, flat] at pays
  have steady : stages.split.IsSteady := unsplit.2 ▸ stages.steady_colocated formed owns
  have placed : IsPlaced stages.last remoteCost stages.split := by
    rw [unsplit.1, unsplit.2]
    exact stages.isPlaced_colocated formed hops (by rw [context_eq]; rfl)
  have single : stages.last.nested = false := by
    rw [unsplit.1, context_eq]
    rfl
  have settled := stages.isSettled steady placed fun nested => by simp [single] at nested
  -- The second pass sees the loop as the first one saw it.
  have sameTrips : (optimizer.optimize vars plan).2.plan.tree.trips = plan.tree.trips := by
    rw [stages.trips_final steady, unsplit.2]
    exact stages.view_colocated Plan.ignores_trips
  have sameBounds : stages.split.bounds? = plan.bounds? := by
    rw [unsplit.2]
    exact stages.view_colocated Plan.ignores_bounds
  have sameLayout : stages.split.layout = plan.layout := unsplit.2 ▸ stages.layout_colocated
  have kept := stages.keeps_situation steady.formed
  have stillWhole := Plan.splitTripCount_none formed.numbered.distinct whole sameTrips
    (fun loop => Plan.isLoop_of_layout sameLayout (kept.isLoop loop))
    (fun loop => (kept.bounds_eq loop).trans (congrFun sameBounds _)) settled.inStep
    settled.placed.parallel
  have known : PassContext.ofPlan optimizer.settings vars stages.infrastructure
      (optimizer.optimize vars plan).2.plan =
        .ok { stages.last with footprint := Quantity.zero } := by
    rw [PassContext.ofPlan_of_whole stillWhole ((PlanTree.tripCount_of_trips sameTrips).trans trips),
      PassContext.ofTree_of_trips sameTrips, unsplit.1, context_eq]
    rfl
  refine stages.optimize_again hops settled known ?_
  simp [shouldSplit, unsplit.1, context_eq, PassContext.ofTree, flat]

theorem isBuilt_twoLoops : twoLoops.IsBuilt := by
  have first : Plan.ofLoop twoLoops.program ⟨0⟩ =
      .ok { twoLoops with tree := .node twoLoops.tree.root [] } := rfl
  have second : (Plan.addBlockNode ⟨0⟩ ⟨1⟩).result
      { twoLoops with tree := .node twoLoops.tree.root [] } = (.ok ⟨1⟩, twoLoops) := rfl
  exact .addBlockNode (.ofLoop first) second

theorem ownsBlocks_twoLoops : twoLoops.OwnsBlocks := by
  apply Plan.ownsBlocks_of_injective
  have own : ∀ node ∈ twoLoops.tree.nodes, node.block = some ⟨node.id.index⟩ := by decide
  exact Plan.injective_of_own own

/-- A machine of two workers, on which what loops need follows from their operators. -/
def twoWorkers : Optimizer Rat := { ofMachine 2 with estimator := .hops 1 }

/-- The two workers are spent on the outer loop. The inner one is demoted in the first pass, and
stays so in the second. -/
theorem optimize_optimize_twoLoops :
    ∃ summary, (twoWorkers.optimize .empty twoLoops).1 = .ok summary ∧ summary.removed = 1 ∧
      (twoWorkers.optimize .empty (twoWorkers.optimize .empty twoLoops).2.plan).1 =
        .ok { summary with initialFootprint := summary.footprint, removed := 0 } ∧
      (twoWorkers.optimize .empty (twoWorkers.optimize .empty twoLoops).2.plan).2.plan =
        (twoWorkers.optimize .empty twoLoops).2.plan := by
  obtain ⟨summary, done⟩ := Outcome.exists_ok
    (show (twoWorkers.optimize .empty twoLoops).1.toOption.isSome = true by decide +kernel)
  have removed : ((twoWorkers.optimize .empty twoLoops).1.toOption.map
      PassSummary.removed) = some 1 := by decide +kernel
  rw [done] at removed
  have whole : twoLoops.splitTripCount twoLoops.tree.id twoWorkers.settings.nestedVar =
      .ok none := by decide +kernel
  exact ⟨summary, done, Option.some.inj removed,
    optimize_optimize isBuilt_twoLoops.isFormed ownsBlocks_twoLoops rfl rfl whole done⟩

end Optimizer

end ParallelLoop
