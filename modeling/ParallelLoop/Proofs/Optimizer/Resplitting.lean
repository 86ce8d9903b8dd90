/-
# Optimizing a loop that was split

The first pass over a loop may split it. A second pass tells from the bounds of the two loops
that it did, and what the loop was before. Then it decides as the first one did: the operators
and what they read are the same, whether there is one loop around them or two, and the rules
that ask for the variable of the loop look at the inner one.

All of this rests on the inner loop still being a parallel loop. When the first pass demotes
it, because a chunk has one iteration or a task has one worker, the second pass takes the
outer loop for one that was never split: it counts the chunks instead of the iterations, and
splits the loop again if that pays. So the second pass resumes the split of the first one if
and only if the first one demoted nothing.
-/

import ParallelLoop.Proofs.Optimizer.Repetition
import ParallelLoop.Proofs.Plan.Division

namespace ParallelLoop

variable {α : Type}

/-! ## The operators of two loops -/

namespace Plan.Division

variable {plan after : Plan α} {chunk : Nat} {var : String}
  (division : Division plan after chunk var) (formed : plan.IsFormed)

include division formed

/-- None of the two loops is an operator. -/
theorem operators_eq : after.tree.operators = plan.tree.operators := by
  have root := division.root_kind_ne_hop formed
  have outer : (outerNode division.count chunk division.root).kind ≠ .hop := root
  have inner : (plan.innerNode chunk).kind ≠ .hop := nofun
  have below := PlanTree.operators_node inner division.children
  rw [PlanTree.operators, PlanTree.subtrees_node] at below
  rw [division.tree_eq, division.before, PlanTree.operators_node outer,
    PlanTree.operators_node root, PlanTree.subtreesAll_cons, PlanTree.subtreesAll_nil,
    List.append_nil, PlanTree.subtrees_node, below]

/-- A new node reads no operator, and neither did its id before. -/
theorem readHop_eq (id : NodeId) : after.readHop id = plan.readHop id := by
  have absent : plan.tree.node? plan.tree.freshId = none := by
    by_contra there
    obtain ⟨node, found⟩ := Option.ne_none_iff_exists'.mp there
    obtain ⟨inside, same⟩ := mem_nodes_of_node? found
    exact formed.numbered.freshId_not_mem (same ▸ List.mem_map_of_mem inside)
  -- The outer loop stands for what the root stood for, and the inner one for no operator.
  have reader : (after.tree.node? id).bind PlanNode.hop =
      (plan.tree.node? id).bind PlanNode.hop := by
    rw [division.node?_eq]
    split
    next top =>
      rw [top, division.node?_root]
      rfl
    next =>
      split
      next fresh =>
        rw [fresh, absent]
        rfl
      next => rfl
  unfold readHop hopOf Program.hop
  rw [reader, division.hops_eq]

theorem sameOperators : plan.SameOperators after :=
  ⟨division.operators_eq formed, division.readHop_eq formed⟩

omit formed in
/-- There is one node more. -/
theorem size_eq : after.tree.size = plan.tree.size + 1 := by
  rw [division.tree_eq, division.before]
  simp [PlanTree.size, PlanTree.sizeAll, Nat.add_comm]

end Plan.Division

/-! ## Placed as before -/

namespace PlanningRule

variable [Quantity α] {context : PassContext α} {plan after : Plan α} {chunk : Nat}
  {var : String} {remoteCost : α}

/-- A remote loop that is placed is placed when it is split, in the context in which it is known to
be split. -/
theorem IsPlaced.division [Quantity.IsLawful α] (placed : IsPlaced context remoteCost plan)
    (division : Plan.Division plan after chunk var) (formed : after.IsFormed)
    (whole : context.nested = false) (remote : plan.tree.root.placement = .remote) :
    IsPlaced { context with nested := true } remoteCost after where
  formed := formed
  parallel := division.root_kind_eq.trans placed.parallel
  inputs := by
    obtain ⟨candidates, applied, settled⟩ := placed.inputs
    have inputs : InputsSettled { context with nested := true } plan candidates applied :=
      settled.of_context rfl rfl rfl
    refine ⟨candidates, applied, ?_⟩
    apply inputs.of_sameOperators placed.formed.numbered.distinct
      (division.sameOperators placed.formed) formed.numbered.distinct
    exact division.decided_outer (fun _ => rfl) fun _ => rfl
  footprint := (division.memory_eq placed.formed remoteCost).trans placed.footprint
  placement := placed.placement.division division placed.formed remote
  indexing := by
    rw [indexingLoop, if_pos rfl, ← PlanTree.headId?, division.headId?_eq]
    exact division.isLoop_inner
  colocation := by
    have vars : { context with nested := true }.vars = context.vars := rfl
    apply placed.colocation.of_sameOperators (division.sameOperators placed.formed) vars
    · exact division.decided_outer (fun _ => rfl) fun _ => rfl
    · exact division.decided_outer (fun _ => rfl) fun _ => rfl
    · exact fun _ => remote
    · -- The inner loop has taken over the variable.
      intro bounds here
      rw [indexingLoop, if_neg (by simp [whole]), division.bounds?_root] at here
      obtain rfl := Option.some.inj here
      refine ⟨division.bounds.withinChunk var division.steps, ?_, rfl⟩
      rw [indexingLoop, if_pos rfl, ← PlanTree.headId?, division.headId?_eq]
      exact division.bounds?_inner

end PlanningRule

namespace Optimizer

open PlanningRule

variable [Quantity α] {optimizer : Optimizer α} {vars : Variables} {plan final : Plan α}
  {summary : PassSummary α} {top : BlockId} {bounds : LoopBounds} {count : Nat}

/-- The summary tells how many loops were demoted. -/
theorem Stages.removed_eq (stages : Stages optimizer vars plan final summary) :
    summary.removed = stages.removed := by
  obtain ⟨_, _, -, same⟩ := of_summarize stages.summarized
  exact congrArg PassSummary.removed same

/-! ## A pass that splits its loop -/

/-- The stages of a pass that splits a loop of so many iterations within these bounds. -/
structure SplitStages (optimizer : Optimizer α) (vars : Variables) (plan final : Plan α)
    (summary : PassSummary α) (bounds : LoopBounds) (count : Nat)
    extends Stages optimizer vars plan final summary where
  division : Plan.Division colocated split (divideUp count infrastructure.remoteNodes)
    optimizer.settings.nestedVar
  context_eq : context =
    PassContext.ofTree optimizer.settings vars infrastructure plan.tree count false
  nested_eq : last = { context with footprint, nested := true }
  bounds_eq : division.bounds = bounds
  count_eq : division.count = count
  nodes : 0 < infrastructure.remoteNodes
  /-- There is an iteration for every node of the cluster. -/
  enough : infrastructure.remoteNodes ≤ count
  remote : colocated.tree.root.placement = .remote
  flat : colocated.tree.hasNestedParallelism = false
  steady : split.IsSteady

/-- A pass over a single loop that tells that the loop is split has split it. -/
theorem exists_splitStages (formed : plan.IsFormed)
    (flat : plan.tree.hasNestedParallelism = false)
    (constant : plan.HasConstantBounds top bounds count)
    (recorded : plan.tree.root.tripCount = .ok count)
    (done : (optimizer.optimize vars plan).1 = .ok summary) (nested : summary.nested = true) :
    Nonempty (SplitStages optimizer vars plan (optimizer.optimize vars plan).2.plan summary
      bounds count) := by
  obtain ⟨stages⟩ := exists_stages done
  obtain ⟨split, iterations, split_eq, counted, context_eq⟩ :=
    PassContext.of_ofPlan stages.ofPlan
  -- The loop was not split before, since there is no loop in it.
  have whole := Plan.splitTripCount_of_flat formed.numbered.distinct flat
    optimizer.settings.nestedVar
  obtain rfl := Except.ok.inj (whole.symm.trans split_eq)
  obtain rfl := Except.ok.inj ((counted.resolve_left nofun).2.symm.trans recorded)
  have single : stages.context.nested = false := by rw [context_eq]; rfl
  rcases of_nestedParallelism stages.nestedParallelism with ⟨same, -⟩ | ⟨last_eq, pays, inner, cut⟩
  · -- Without a split it would be told that the loop is whole.
    rw [stages.summary_eq.2.2, same] at nested
    exact absurd nested (by simp [single])
  · have layout := stages.layout_colocated
    have stillFormed := formed.of_layout layout
    have owns := formed.ownsBlocks flat
    simp only [shouldSplit, Bool.and_eq_true, Bool.not_eq_true', beq_iff_eq,
      decide_eq_true_eq] at pays
    obtain ⟨⟨⟨⟨⟨-, remote⟩, nodes⟩, enough⟩, stillFlat⟩, -⟩ := pays
    -- What the rule looks at is what the plan says about the loop.
    rw [context_eq] at nodes enough cut
    change 0 < stages.infrastructure.remoteNodes at nodes
    change stages.infrastructure.remoteNodes ≤ iterations at enough
    change (Plan.splitLoop stages.colocated.tree.id
      (divideUp iterations stages.infrastructure.remoteNodes)
      optimizer.settings.nestedVar).result stages.colocated = (.ok inner, stages.split) at cut
    obtain ⟨division⟩ : Nonempty (Plan.Division stages.colocated stages.split
        (divideUp iterations stages.infrastructure.remoteNodes) optimizer.settings.nestedVar) := by
      have division := Plan.exists_division stillFormed.numbered cut
      rwa [Nat.max_eq_left (one_le_divideUp nodes enough)] at division
    have trips := PlanTree.tripCount_of_trips (stages.view_colocated Plan.ignores_trips)
    have bounds?_eq := congrFun (stages.view_colocated Plan.ignores_bounds) stages.colocated.tree.id
    exact ⟨{
      toStages := stages
      division, context_eq, nodes, enough, remote
      nested_eq := last_eq
      bounds_eq := by
        rw [division.bounds?_root, Plan.id_of_layout layout, constant.bounds?_root] at bounds?_eq
        exact Option.some.inj bounds?_eq
      count_eq := by
        rw [division.before, recorded] at trips
        exact Except.ok.inj (division.counted.symm.trans trips)
      flat := stillFlat
      steady := (stages.isSerial_colocated formed owns).splitLoop stillFormed
        ((Plan.root_kind_of_layout layout).trans stages.parallel) stillFlat cut }⟩

namespace SplitStages

variable (stages : SplitStages optimizer vars plan final summary bounds count)

include stages

theorem isPlaced_split [Quantity.IsLawful α] {remoteCost : α} (formed : plan.IsFormed)
    (hops : optimizer.estimator = .hops remoteCost) :
    IsPlaced stages.last remoteCost stages.split := by
  have whole : stages.context.nested = false := by rw [stages.context_eq]; rfl
  have placed := stages.isPlaced_colocated formed hops whole
  rw [stages.nested_eq]
  exact placed.division stages.division stages.steady.formed whole stages.remote

/-- Every loop at the end is the outer or the inner one. -/
theorem isLoop_cases {id : NodeId} (loop : final.IsLoop id) :
    id = final.tree.id ∨ id = stages.colocated.tree.freshId := by
  have kept := stages.keeps_situation stages.steady.formed
  rw [kept.id_eq]
  exact stages.division.isLoop_cases stages.flat (kept.isLoop loop)

theorem inner_ne_outer : stages.colocated.tree.freshId ≠ final.tree.id := by
  have kept := stages.keeps_situation stages.steady.formed
  rw [kept.id_eq]
  have children := stages.division.children_eq
  have nested := PlanTree.id_ne_of_child stages.steady.formed.numbered.distinct
    (children ▸ List.mem_cons_self ..) (PlanTree.root_mem_nodes _)
  exact nested

/-- The inner loop is still a loop if nothing was demoted, and the other way round. -/
theorem isLoop_inner_iff :
    final.IsLoop stages.colocated.tree.freshId ↔ summary.removed = 0 := by
  obtain ⟨demoted, removed_eq⟩ := of_unnecessaryLoops stages.unnecessaryLoops
  have distinct := stages.distinct_budgeted stages.steady.formed.numbered.distinct
  have layout := stages.layout_budgeted
  rw [stages.removed_eq, removed_eq, List.length_eq_zero_iff]
  constructor
  · intro loop
    -- A loop that is demoted is the inner one, and it is no loop afterwards.
    apply List.eq_nil_iff_forall_not_mem.mpr
    intro id listed
    obtain ⟨node, there, rfl⟩ := List.mem_map.mp ((nestedSerialLoops_sublist _).subset listed)
    have before : stages.split.IsLoop node.id := Plan.isLoop_of_layout layout
      ⟨node, there, rfl, (isSerialLoop_of_mem distinct there listed).1⟩
    rcases stages.division.isLoop_cases stages.flat before with top | inner
    · rw [top, ← Plan.id_of_layout layout] at listed
      exact root_not_mem_nestedSerialLoops distinct listed
    · obtain ⟨other, inside, same, parallel⟩ := loop
      have remains := (mem_of_demoteEach distinct (nodup_nestedSerialLoops distinct) demoted
        inside parallel).2
      rw [same, ← inner] at remains
      exact remains listed
  · intro none
    rw [none] at demoted
    have same : stages.budgeted = final := congrArg Prod.snd demoted
    have stays (id : NodeId) (loop : stages.budgeted.IsLoop id) : final.IsLoop id := same ▸ loop
    exact stays _ (Plan.isLoop_of_layout layout.symm stages.division.isLoop_inner)

theorem parallel_split : stages.split.tree.root.kind = .parfor := by
  rw [stages.division.root_kind_eq, Plan.root_kind_of_layout stages.layout_colocated,
    stages.parallel]

/-- Where the inner loop is still a loop, the loop is taken for one that was split. -/
theorem splitTripCount_of_isLoop (constant : plan.HasConstantBounds top bounds count)
    (inner : final.IsLoop stages.colocated.tree.freshId) :
    final.splitTripCount final.tree.id optimizer.settings.nestedVar = .ok (some count) := by
  obtain ⟨first, last, first_eq, last_eq, -, -⟩ := constant.constant
  have counted := constant.iterationCount_eq first_eq last_eq
  rw [← stages.bounds_eq] at first_eq last_eq counted
  exact stages.division.splitTripCount_eq (stages.keeps_situation stages.steady.formed)
    (stages.steady_final stages.steady).inStep
    (stages.root_final_parallel stages.steady stages.parallel_split) inner ⟨first_eq, last_eq⟩
    counted

/-- Where it is demoted, there is no parallel loop in the loop, and no split is seen. -/
theorem splitTripCount_of_not_isLoop (demoted : ¬ final.IsLoop stages.colocated.tree.freshId) :
    final.splitTripCount final.tree.id optimizer.settings.nestedVar = .ok none := by
  have kept := stages.keeps_situation stages.steady.formed
  apply Plan.splitTripCount_of_not
  intro inner children parallel
  have there : inner ∈ final.tree.children := children ▸ List.mem_cons_self ..
  have loop : final.IsLoop inner.id :=
    ⟨inner.root, PlanTree.mem_nodes_of_child there inner.root_mem_nodes, rfl, parallel⟩
  rcases stages.isLoop_cases loop with top | fresh
  · exact PlanTree.id_ne_of_child kept.formed.numbered.distinct there inner.root_mem_nodes top
  · exact demoted (fresh ▸ loop)

/-- The context of a second pass, as long as the inner loop is still a loop. -/
theorem ofPlan_of_isLoop (constant : plan.HasConstantBounds top bounds count)
    (inner : final.IsLoop stages.colocated.tree.freshId) :
    PassContext.ofPlan optimizer.settings vars stages.infrastructure final =
      .ok { stages.last with footprint := Quantity.zero } := by
  have fits : stages.division.count ≤ Word.maxCount := by
    rw [stages.count_eq]
    exact constant.fits
  have small : divideUp count stages.infrastructure.remoteNodes ≤ stages.division.count := by
    rw [stages.count_eq]
    exact divideUp_le stages.nodes
  -- The outer and the inner loop are no larger than the loop, so the problem is as large as it was.
  have problemSize : max final.tree.maxProblemSize count = max plan.tree.maxProblemSize count := by
    have same := stages.division.maxProblemSize_eq
      (one_le_divideUp stages.nodes stages.enough) small fits
    rw [stages.count_eq] at same
    rw [PlanTree.maxProblemSize_of_trips (stages.trips_final stages.steady), same,
      PlanTree.maxProblemSize_of_trips (stages.view_colocated Plan.ignores_trips)]
  rw [PassContext.ofPlan_of_split (stages.splitTripCount_of_isLoop constant inner),
    stages.nested_eq, stages.context_eq]
  unfold PassContext.ofTree
  rw [problemSize]

theorem shouldSplit_of_isLoop (inner : final.IsLoop stages.colocated.tree.freshId) :
    shouldSplit stages.last final.tree = false := by
  have nested : final.tree.hasNestedParallelism = true := by
    by_contra flat
    obtain ⟨node, there, same, parallel⟩ := inner
    refine Plan.kind_ne_parfor (Bool.eq_false_iff.mpr flat) there ?_ parallel
    rw [same]
    exact stages.inner_ne_outer
  simp [shouldSplit, nested]

/-- When nothing was demoted, a second pass leaves the plan as it is. -/
theorem optimize_again [Quantity.IsLawful α] {remoteCost : α} (formed : plan.IsFormed)
    (hops : optimizer.estimator = .hops remoteCost)
    (constant : plan.HasConstantBounds top bounds count) (kept : summary.removed = 0) :
    (optimizer.optimize vars final).1 =
        .ok { summary with initialFootprint := summary.footprint } ∧
      (optimizer.optimize vars final).2.plan = final := by
  have inner := stages.isLoop_inner_iff.mpr kept
  have settled := stages.isSettled stages.steady (stages.isPlaced_split formed hops) (by
    intro nested id head
    rw [PlanTree.headId?_of_bare (stages.keeps_situation stages.steady.formed).bare_eq,
      stages.division.headId?_eq] at head
    rwa [← Option.some.inj head])
  have again := stages.toStages.optimize_again hops settled (stages.ofPlan_of_isLoop constant inner)
    (stages.shouldSplit_of_isLoop inner)
  rwa [← kept] at again

end SplitStages

/-! ## A second pass -/

/-- A pass that splits a loop that was not taken for one that was split adds a node. -/
theorem Stages.size_of_nested (stages : Stages optimizer vars plan final summary)
    (formed : plan.IsFormed)
    (whole : plan.splitTripCount plan.tree.id optimizer.settings.nestedVar = .ok none)
    (nested : summary.nested = true) : final.tree.size = plan.tree.size + 1 := by
  obtain ⟨split, iterations, split_eq, -, context_eq⟩ := PassContext.of_ofPlan stages.ofPlan
  obtain rfl := Except.ok.inj (whole.symm.trans split_eq)
  rcases of_nestedParallelism stages.nestedParallelism with ⟨same, -⟩ | ⟨-, -, inner, cut⟩
  · rw [stages.summary_eq.2.2, same, context_eq] at nested
    cases nested
  · have stillFormed := formed.of_layout stages.layout_colocated
    obtain ⟨division⟩ := Plan.exists_division stillFormed.numbered cut
    have demoted := stages.demoted
    calc final.tree.size
        = stages.split.tree.size := by
          rw [← PlanTree.length_ids, ids_demoteEach demoted,
            Plan.ids_eq_of_layout stages.layout_budgeted, PlanTree.length_ids]
      _ = stages.colocated.tree.size + 1 := division.size_eq
      _ = plan.tree.size + 1 := by
          rw [← PlanTree.length_ids, Plan.ids_eq_of_layout stages.layout_colocated,
            PlanTree.length_ids]

/-- A pass over a plan takes the loop for one that was split and had so many iterations before. It
keeps all nodes, what is decided about the loop, and all trip counts. -/
structure Resumes (optimizer : Optimizer α) (vars : Variables) (plan : Plan α) (iterations : Nat)
    (summary : PassSummary α) : Prop where
  done : (optimizer.optimize vars plan).1 = .ok summary
  nested : summary.nested = true
  iterations_eq : summary.iterations = iterations
  ids_eq : (optimizer.optimize vars plan).2.plan.tree.ids = plan.tree.ids
  root_eq : (optimizer.optimize vars plan).2.plan.tree.root = plan.tree.root
  settings_eq : (optimizer.optimize vars plan).2.plan.settings? plan.tree.id =
    plan.settings? plan.tree.id
  trips_eq : (optimizer.optimize vars plan).2.plan.tree.trips = plan.tree.trips

/-- A second pass resumes the split of the first one if and only if this one demoted nothing. -/
theorem SplitStages.exists_resumes_iff [Quantity.IsLawful α] {remoteCost : α}
    (stages : SplitStages optimizer vars plan final summary bounds count)
    (formed : plan.IsFormed) (constant : plan.HasConstantBounds top bounds count)
    (hops : optimizer.estimator = .hops remoteCost) (nested : summary.nested = true) :
    (∃ second, Resumes optimizer vars final count second) ↔ summary.removed = 0 := by
  constructor
  · rintro ⟨second, resumes⟩
    by_contra demoted
    -- The outer loop alone is not taken for one that was split, so it is split a second time.
    have whole := stages.splitTripCount_of_not_isLoop (mt stages.isLoop_inner_iff.mp demoted)
    obtain ⟨again⟩ := exists_stages resumes.done
    have grown := again.size_of_nested (stages.steady_final stages.steady).formed whole
      resumes.nested
    rw [← PlanTree.length_ids, resumes.ids_eq, PlanTree.length_ids] at grown
    omega
  · intro kept
    obtain ⟨again, same⟩ := stages.optimize_again formed hops constant kept
    refine ⟨_, again, nested, ?_, ?_, ?_, ?_, ?_⟩
    · rw [stages.summary_eq.1, stages.context_eq]
      rfl
    all_goals rw [same]

/-- After a pass that splits a single loop between constants, a second pass resumes the split if and
only if the first one demoted nothing, that is, left the inner loop a parallel loop. -/
theorem exists_resumes_optimize_iff [Quantity.IsLawful α] {remoteCost : α} (formed : plan.IsFormed)
    (flat : plan.tree.hasNestedParallelism = false)
    (constant : plan.HasConstantBounds top bounds count)
    (recorded : plan.tree.root.tripCount = .ok count)
    (hops : optimizer.estimator = .hops remoteCost)
    (done : (optimizer.optimize vars plan).1 = .ok summary) (nested : summary.nested = true) :
    (∃ second, Resumes optimizer vars (optimizer.optimize vars plan).2.plan count second) ↔
      summary.removed = 0 := by
  obtain ⟨stages⟩ := exists_splitStages formed flat constant recorded done nested
  exact stages.exists_resumes_iff formed constant hops nested

theorem isFormed_oneLoop : oneLoop.IsFormed := by
  have single : Plan.ofLoop oneLoop.program ⟨0⟩ = .ok oneLoop := rfl
  exact (Plan.IsBuilt.ofLoop single).isFormed

theorem hasConstantBounds_oneLoop : oneLoop.HasConstantBounds ⟨0⟩
    { var := "i", first := .const 3, last := .const 9, step := 2 } 4 :=
  ⟨rfl, ⟨_, rfl, rfl⟩, ⟨3, 9, rfl, rfl, by decide, by decide⟩, rfl⟩

/-- Each of the two nodes of the cluster runs two tasks at once, so the two iterations of a chunk
have two workers, and a second pass resumes the split. -/
theorem exists_resumes_oneLoop :
    ∃ summary, ((ofCluster 2 4).optimize .empty oneLoop).1 = .ok summary ∧
      summary.nested = true ∧
      ∃ second, Resumes (ofCluster 2 4) .empty ((ofCluster 2 4).optimize .empty oneLoop).2.plan 4
        second := by
  obtain ⟨summary, done⟩ := Outcome.exists_ok
    (show ((ofCluster 2 4).optimize .empty oneLoop).1.toOption.isSome = true by decide +kernel)
  have facts : (((ofCluster 2 4).optimize .empty oneLoop).1.toOption.map
      fun summary => (summary.nested, summary.removed)) = some (true, 0) := by decide +kernel
  rw [done] at facts
  obtain ⟨nested, kept⟩ := Prod.mk.inj (Option.some.inj facts)
  refine ⟨summary, done, nested, ?_⟩
  exact (exists_resumes_optimize_iff isFormed_oneLoop rfl hasConstantBounds_oneLoop rfl rfl done
    nested).mpr kept

/-- Where each node runs one task at once, the inner loop is demoted. A second pass takes the two
chunks for the iterations of the loop, and splits it again. -/
theorem not_resumes_oneLoop :
    oneLoop.IsFormed ∧ oneLoop.tree.hasNestedParallelism = false ∧
      oneLoop.tree.root.tripCount = .ok 4 ∧
      ∃ summary second, ((ofCluster 2 2).optimize .empty oneLoop).1 = .ok summary ∧
        summary.nested = true ∧
        let optimized := ((ofCluster 2 2).optimize .empty oneLoop).2.plan
        ((ofCluster 2 2).optimize .empty optimized).1 = .ok second ∧ second.iterations = 2 ∧
          ((ofCluster 2 2).optimize .empty optimized).2.plan.tree.size = optimized.tree.size + 1 ∧
          ∀ other, ¬ Resumes (ofCluster 2 2) .empty optimized 4 other := by
  obtain ⟨summary, done⟩ := Outcome.exists_ok
    (show ((ofCluster 2 2).optimize .empty oneLoop).1.toOption.isSome = true by decide +kernel)
  have nested : (((ofCluster 2 2).optimize .empty oneLoop).1.toOption.map
      PassSummary.nested) = some true := by decide +kernel
  rw [done] at nested
  obtain ⟨second, again⟩ := Outcome.exists_ok
    (show ((ofCluster 2 2).optimize .empty
      ((ofCluster 2 2).optimize .empty oneLoop).2.plan).1.toOption.isSome = true by decide +kernel)
  have counted : (((ofCluster 2 2).optimize .empty
      ((ofCluster 2 2).optimize .empty oneLoop).2.plan).1.toOption.map
        PassSummary.iterations) = some 2 := by decide +kernel
  rw [again] at counted
  refine ⟨isFormed_oneLoop, rfl, rfl, summary, second, done, Option.some.inj nested, again,
    Option.some.inj counted, by decide +kernel, fun other resumes => ?_⟩
  obtain rfl := Except.ok.inj (again.symm.trans resumes.done)
  exact absurd (resumes.iterations_eq.symm.trans (Option.some.inj counted)) (by decide)

end Optimizer

end ParallelLoop
