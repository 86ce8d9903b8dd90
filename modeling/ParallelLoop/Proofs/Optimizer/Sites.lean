/-
# Where the nodes of an optimized plan run

Few steps of a pass decide where a node runs. The first rule takes an indexing operator into the
process, the second one decides about the loop itself, a split puts the outer loop where the loop
was to be and the inner one into the process, and a demoted loop runs in the process. Everything
else leaves the kind and the place of every node alone (`sites_budgeted`).

So the operators are where the second rule found them, and the loop is where it put it. The loops
below the topmost one are where they were before the pass.
-/

import ParallelLoop.Proofs.Optimizer.Leftovers
import ParallelLoop.Proofs.Optimizer.Settling

namespace ParallelLoop

open Change (Maintains Respects)

namespace PlanNode

/-- What a node is and where it runs. -/
def site (node : PlanNode) : PlanNode :=
  { id := node.id, kind := node.kind, placement := node.placement }

/-- What a node is and, if it is a parallel loop, where it runs. -/
def loopSite (node : PlanNode) : PlanNode :=
  { id := node.id, kind := node.kind
    placement := if node.kind = .parfor then node.placement else .inProcess }

theorem loopSite_comp_site : loopSite ∘ site = loopSite := rfl

theorem isRemoteHop_site (node : PlanNode) : node.site.isRemoteHop = node.isRemoteHop := rfl

/-- Nodes with the same site run at the same place. -/
theorem of_site_eq {node other : PlanNode} (same : node.site = other.site) :
    node.id = other.id ∧ node.kind = other.kind ∧ node.placement = other.placement := by
  simpa [site] using same

theorem of_loopSite_eq {node other : PlanNode} (same : node.loopSite = other.loopSite) :
    node.id = other.id ∧ node.kind = other.kind ∧
      (node.kind = .parfor → node.placement = other.placement) := by
  simp only [loopSite, mk.injEq, and_true] at same
  obtain ⟨id_eq, kind_eq, placement_eq⟩ := same
  refine ⟨id_eq, kind_eq, fun loop => ?_⟩
  rwa [if_pos loop, if_pos (kind_eq ▸ loop)] at placement_eq

end PlanNode

namespace PlanTree

variable {tree other : PlanTree}

theorem isLocalOnly_eq_of_site (same : other.mapNodes PlanNode.site = tree.mapNodes PlanNode.site) :
    other.isLocalOnly = tree.isLocalOnly := by
  rw [← isLocalOnly_mapNodes PlanNode.isRemoteHop_site, same,
    isLocalOnly_mapNodes PlanNode.isRemoteHop_site]

theorem loopSite_eq_of_site (same : other.mapNodes PlanNode.site = tree.mapNodes PlanNode.site) :
    other.mapNodes PlanNode.loopSite = tree.mapNodes PlanNode.loopSite := by
  rw [← PlanNode.loopSite_comp_site, ← mapNodes_mapNodes, same, mapNodes_mapNodes]

end PlanTree

/-! ## Splitting and placing -/

namespace Plan

variable {α : Type} {plan after : Plan α} {id : NodeId} {chunk : Nat} {var : String}

theorem tree_setPlacement {node : PlanNode} {placement : Placement}
    (found : plan.tree.node? id = some node) (loop : node.kind = .parfor)
    (done : (setPlacement id placement).result plan = (.ok (), after)) :
    after.tree = plan.tree.update id fun node => { node with placement } := by
  rw [result_setPlacement found loop] at done
  obtain ⟨_, mid, settings, record⟩ := Change.of_bind done
  have tree_eq := (preserves_tree_updateSettings id _).eq settings
  cases record
  dsimp only
  rw [tree_eq]

/-- A split of a parallel loop moves no operator. -/
theorem Division.isLocalOnly_eq_of_parfor (division : Division plan after chunk var)
    (parallel : plan.tree.root.kind = .parfor) :
    after.tree.isLocalOnly = plan.tree.isLocalOnly := by
  have here {node : PlanNode} (loop : node.kind = .parfor) : node.isRemoteHop = false := by
    rw [PlanNode.isRemoteHop, loop]
    rfl
  have root : division.root.kind = .parfor := division.root_eq ▸ parallel
  have outer : (outerNode division.count chunk division.root).kind = .parfor := root
  have inner : (plan.innerNode chunk).kind = .parfor := rfl
  rw [division.tree_eq, division.before]
  simp [PlanTree.isLocalOnly, PlanTree.isLocalOnlyAll, here root, here outer, here inner]

end Plan

namespace PlanningRule

variable {α : Type} {base : Plan α}

/-- The loops of both plans run at the same places. -/
abbrev KeepsLoopSites (base other : Plan α) : Prop :=
  other.tree.mapNodes PlanNode.loopSite = base.tree.mapNodes PlanNode.loopSite

/-- The operator that reads a partition of its input is no loop. -/
theorem loopSites_setPartitionFormat (distinct : base.tree.ids.Nodup) {plan : Plan α}
    (kept : KeepsLoopSites base plan) {tree : PlanTree} (there : tree ∈ plan.tree.subtrees)
    (input : isPartitionable tree = true) (format : PartitionFormat) (slice : α) :
    Respects (Maintains (KeepsLoopSites base)) (Plan.setPartitionFormat tree.id format slice) := by
  have distinctHere : plan.tree.ids.Nodup := by
    rwa [PlanTree.ids_of_mapNodes kept fun _ => rfl]
  refine .bind (.inspect _) fun _ => .bind (.inspect _) fun _ =>
    .bind (.modify fun _ held => held) fun _ => .modify fun other alsoKept => ?_
  refine (PlanTree.mapNodes_update_of_mem fun node inside same => ?_).trans alsoKept
  -- The node with the id of the operator is an operator in every plan with the same loops.
  obtain ⟨twin, alsoThere, twin_eq⟩ :=
    PlanTree.exists_node_of_mapNodes (alsoKept.trans kept.symm) inside
  obtain ⟨id_eq, kind_eq, -⟩ := PlanNode.of_loopSite_eq twin_eq
  obtain rfl : twin = tree.root := PlanTree.eq_of_id_eq distinctHere alsoThere
    (List.mem_map_of_mem there) (id_eq.symm.trans same)
  simp only [isPartitionable, isOperator, Bool.and_eq_true, beq_iff_eq] at input
  have operator : node.kind = .hop := kind_eq.trans input.1.1.2
  simp [PlanNode.loopSite, PlanNode.setParam, operator]

/-- A loop is split only when it runs elsewhere. -/
theorem remote_of_shouldSplit [Quantity α] {context : PassContext α} {tree : PlanTree}
    (pays : shouldSplit context tree = true) : tree.root.placement = .remote := by
  simp only [shouldSplit, Bool.and_eq_true, beq_iff_eq] at pays
  exact pays.1.1.1.1.2

end PlanningRule

namespace Optimizer.Stages

open PlanningRule

variable {α : Type} [Quantity α] {optimizer : Optimizer α} {vars : Variables} {plan final : Plan α}
  {summary : PassSummary α} (stages : Stages optimizer vars plan final summary)

include stages

/-- The context in which the second, third and fourth rule decide. -/
def placing : PassContext α := { stages.context with footprint := stages.footprint }

/-- Partitioning inputs moves operators and no loops. -/
theorem loopSites_partitioned (numbered : plan.tree.IsNumbered) :
    stages.partitioned.tree.mapNodes PlanNode.loopSite = plan.tree.mapNodes PlanNode.loopSite := by
  have ignores := Plan.ignores_mapNodes (α := α) PlanNode.loopSite
  have serial : KeepsLoopSites plan stages.serial :=
    (Plan.respects_serialize fun _ => ignores.settings_then_record _ fun _ => rfl).of_result
      stages.serialized
  have kept : Respects (Pass.Across (Maintains (KeepsLoopSites plan)))
      (runDataPartitioner { stages.context with footprint := stages.initialFootprint }) :=
    respects_dataPartitioner_within _ (fun _ _ other here => absurd here other)
      (fun _ here _ there input => loopSites_setPartitionFormat numbered.distinct here there input)
      fun _ _ partitioner =>
        (ignores.setDataPartitioner (fun _ _ _ _ => rfl) partitioner).maintains
          (· = plan.tree.mapNodes PlanNode.loopSite)
  exact stages.dataPartitioner.related kept serial

/-- The second rule changes where the loop runs, and no other node. -/
theorem tree_placed : stages.placed.tree = stages.partitioned.tree.update stages.partitioned.tree.id
      fun node => { node with
        placement := choosePlacement stages.placing stages.partitioned.tree } := by
  obtain ⟨_, mid, placed, reported⟩ :=
    Pass.Leads.of_onPlan_bind (Pass.Leads.of_plan_bind stages.executionStrategy)
  rw [← reported.of_report] at placed
  exact Plan.tree_setPlacement (PlanTree.node?_root _) stages.parallel_partitioned placed

/-- From the split on, nodes stay what they are and where they run until loops are demoted. -/
theorem sites_distributed : stages.distributed.tree.mapNodes PlanNode.site =
    stages.split.tree.mapNodes PlanNode.site :=
  stages.degreeOfParallelism.related (respects_degreeOfParallelism _ fun _ =>
    (Plan.ignores_mapNodes PlanNode.site).settings_then_record _ fun _ => rfl)

theorem sites_tasked : stages.tasked.tree.mapNodes PlanNode.site =
    stages.split.tree.mapNodes PlanNode.site :=
  (stages.taskPartitioner.related (respects_taskPartitioner _
    ((Plan.ignores_mapNodes PlanNode.site).setTaskPartitioner fun _ _ _ _ => rfl))).trans
      stages.sites_distributed

theorem sites_budgeted : stages.budgeted.tree.mapNodes PlanNode.site =
    stages.split.tree.mapNodes PlanNode.site :=
  (stages.view_written (Plan.ignores_mapNodes PlanNode.site) fun _ _ _ _ => rfl).trans
    stages.sites_distributed

/-- The split that the fourth rule makes, if it makes one. -/
theorem split_cases (numbered : plan.tree.IsNumbered) :
    stages.last = stages.placing ∧ stages.split = stages.colocated ∨
      stages.last = { stages.placing with nested := true } ∧
        shouldSplit stages.placing stages.colocated.tree = true ∧
        ∃ chunk, Nonempty (Plan.Division stages.colocated stages.split chunk
          optimizer.settings.nestedVar) := by
  rcases of_nestedParallelism stages.nestedParallelism with same | ⟨last_eq, pays, inner, divided⟩
  · exact .inl same
  · have settings_eq : stages.context.settings = optimizer.settings := by
      obtain ⟨_, _, -, -, context_eq⟩ := PassContext.of_ofPlan stages.ofPlan
      rw [context_eq]
      rfl
    obtain division := Plan.exists_division (stages.isNumbered_colocated numbered) divided
    dsimp only at division
    rw [settings_eq] at division
    exact .inr ⟨last_eq, pays, _, division⟩

/-- The loop after the second rule. -/
theorem exists_tree_placed : ∃ root children, stages.partitioned.tree = .node root children ∧
    stages.placed.tree = .node { root with
      placement := choosePlacement stages.placing stages.partitioned.tree } children := by
  obtain ⟨root, children, before⟩ := stages.partitioned.tree.exists_eq_node
  refine ⟨root, children, before, ?_⟩
  have id_eq : stages.partitioned.tree.id = root.id := by rw [before]; rfl
  rw [stages.tree_placed, id_eq, before]
  exact PlanTree.update_root root children

theorem isLocalOnly_placed :
    stages.placed.tree.isLocalOnly = stages.partitioned.tree.isLocalOnly := by
  have loop := stages.parallel_partitioned
  obtain ⟨root, children, before, after⟩ := stages.exists_tree_placed
  rw [before] at loop
  rw [after, before, PlanTree.isLocalOnly, PlanTree.isLocalOnly, PlanNode.isRemoteHop,
    PlanNode.isRemoteHop, show root.kind = .parfor from loop]
  rfl

section

variable (numbered : plan.tree.IsNumbered)

include numbered

theorem parallel_split : stages.split.tree.root.kind = .parfor := by
  rcases stages.split_cases numbered with ⟨-, same⟩ | ⟨-, -, chunk, ⟨division⟩⟩
  · rw [same, stages.parallel_colocated]
  · rw [division.root_kind_eq, stages.parallel_colocated]

/-- From the second rule on no operator moves. -/
theorem isLocalOnly_split :
    stages.split.tree.isLocalOnly = stages.partitioned.tree.isLocalOnly := by
  rw [← stages.isLocalOnly_placed, ← stages.tree_colocated]
  rcases stages.split_cases numbered with ⟨-, same⟩ | ⟨-, -, chunk, ⟨division⟩⟩
  · rw [same]
  · exact division.isLocalOnly_eq_of_parfor stages.parallel_colocated

theorem isLocalOnly_tasked :
    stages.tasked.tree.isLocalOnly = stages.partitioned.tree.isLocalOnly :=
  (PlanTree.isLocalOnly_eq_of_site stages.sites_tasked).trans (stages.isLocalOnly_split numbered)

theorem isLocalOnly_final :
    final.tree.isLocalOnly = stages.partitioned.tree.isLocalOnly := by
  have distinct := stages.distinct_budgeted (stages.isNumbered_split numbered).distinct
  rw [PlanTree.isLocalOnly_eq_of_profile (profile_demoted distinct stages.demoted),
    PlanTree.isLocalOnly_eq_of_site stages.sites_budgeted, stages.isLocalOnly_split numbered]

/-- The loop runs where the second rule put it. -/
theorem placement_final : final.tree.root.placement =
    choosePlacement stages.placing stages.partitioned.tree := by
  have placed : stages.colocated.tree.root.placement =
      choosePlacement stages.placing stages.partitioned.tree := by
    obtain ⟨root, children, -, after⟩ := stages.exists_tree_placed
    rw [stages.tree_colocated, after]
    rfl
  have root := congrArg (fun tree => tree.root.placement) stages.sites_budgeted
  simp only [PlanTree.root_mapNodes, PlanNode.site] at root
  rw [stages.root_final (stages.isNumbered_split numbered).distinct, root, ← placed]
  rcases stages.split_cases numbered with ⟨-, same⟩ | ⟨-, pays, chunk, ⟨division⟩⟩
  · rw [same]
  · rw [remote_of_shouldSplit pays, division.tree_eq]
    rfl

end

end Optimizer.Stages

end ParallelLoop
