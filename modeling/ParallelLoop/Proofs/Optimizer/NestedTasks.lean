/-
# Distributed loops below another loop

A loop below the topmost one runs where its block says when the plan is built. No rule puts such a
loop on the cluster, and only two take one off it: a loop with one worker is demoted, and the loop
that a split puts into another one runs in the process. So the loops that run on the cluster below
the topmost one at the end are those that did so before and have several workers. What the topmost
loop does plays no part in it, and tasks can start tasks of their own.
-/

import ParallelLoop.Proofs.Optimizer.Backing
import ParallelLoop.Proofs.Optimizer.InnerLoops

namespace ParallelLoop

/-! ## Loops on the cluster -/

namespace PlanTree

variable {tree other : PlanTree} {id : NodeId}

/-- The node with this id is below the topmost one, and a parallel loop that runs on the cluster. -/
def NestsRemote (tree : PlanTree) (id : NodeId) : Prop :=
  id ≠ tree.id ∧
    ∃ node ∈ tree.nodes, node.id = id ∧ node.kind = .parfor ∧ node.placement = .remote

instance (tree : PlanTree) (id : NodeId) : Decidable (tree.NestsRemote id) :=
  inferInstanceAs (Decidable (_ ∧ _))

theorem NestsRemote.of_loopSite
    (same : other.mapNodes PlanNode.loopSite = tree.mapNodes PlanNode.loopSite)
    (nests : other.NestsRemote id) : tree.NestsRemote id := by
  obtain ⟨nested, node, there, rfl, loop, remote⟩ := nests
  have root_eq : other.id = tree.id := id_of_mapNodes same fun _ => rfl
  obtain ⟨twin, inside, shown⟩ := exists_node_of_mapNodes same there
  obtain ⟨id_eq, kind_eq, placement_eq⟩ := PlanNode.of_loopSite_eq shown
  exact ⟨root_eq ▸ nested, twin, inside, id_eq.symm, kind_eq ▸ loop, placement_eq loop ▸ remote⟩

theorem nestsRemote_congr
    (same : other.mapNodes PlanNode.loopSite = tree.mapNodes PlanNode.loopSite) :
    other.NestsRemote id ↔ tree.NestsRemote id :=
  ⟨.of_loopSite same, .of_loopSite same.symm⟩

/-- Only the nodes below the topmost one count. -/
theorem nestsRemote_node {root : PlanNode} {children : List PlanTree} :
    (node root children).NestsRemote id ↔ id ≠ root.id ∧
      ∃ node ∈ children.flatMap nodes, node.id = id ∧ node.kind = .parfor ∧
        node.placement = .remote := by
  refine and_congr_right fun nested => ?_
  rw [nodes_node]
  constructor
  · rintro ⟨node, there, same, rest⟩
    refine ⟨node, (List.mem_cons.mp there).resolve_left ?_, same, rest⟩
    rintro rfl
    exact nested same.symm
  · rintro ⟨node, there, rest⟩
    exact ⟨node, List.mem_cons_of_mem root there, rest⟩

/-- Without parallel loops below the topmost one, none of them runs on the cluster. -/
theorem not_nestsRemote_of_flat (flat : tree.hasNestedParallelism = false) :
    ¬ tree.NestsRemote id := by
  cases tree with
  | node root children =>
    rw [nestsRemote_node]
    rintro ⟨-, node, below, -, loop, -⟩
    rw [hasNestedParallelism_eq_any, List.any_eq_false] at flat
    exact flat node below (beq_iff_eq.mpr loop)

end PlanTree

namespace Plan

variable {α : Type} {plan after : Plan α} {chunk : Nat} {var : String} {id : NodeId}

/-- Neither does one after a split, which puts its new loop into the process. -/
theorem Division.not_nestsRemote (division : Division plan after chunk var)
    (flat : plan.tree.hasNestedParallelism = false) : ¬ after.tree.NestsRemote id := by
  rw [division.before, PlanTree.hasNestedParallelism_eq_any, List.any_eq_false] at flat
  rw [division.tree_eq, PlanTree.nestsRemote_node, List.flatMap_singleton, PlanTree.nodes_node]
  rintro ⟨-, node, there, -, loop, remote⟩
  rcases List.mem_cons.mp there with rfl | below
  · cases remote
  · exact flat node below (beq_iff_eq.mpr loop)

/-- The node of a loop runs where the settings of its block say. -/
theorem placement_of_nodeOfBlock {blockId : BlockId} {block : Block α} {node : PlanNode}
    (made : nodeOfBlock id blockId block = .ok node) (loop : node.kind = .parfor) :
    node.placement = (block.settings.map ParallelSettings.mode).getD .inProcess := by
  unfold nodeOfBlock at made
  split at made
  next kind placement chosen =>
    have placed : kind = .parfor →
        placement = (block.settings.map ParallelSettings.mode).getD .inProcess := by
      cases of_kind : block.kind <;> rw [of_kind] at chosen <;> cases chosen <;> simp
    split at made
    next =>
      obtain ⟨count, -, returned⟩ := Outcome.of_bind made
      cases returned
      exact placed loop
    next =>
      cases made
      exact placed loop

/-- So the loops that run on the cluster when a plan is built are those whose settings say so. -/
theorem IsBuilt.exists_remote_settings (built : plan.IsBuilt) (nests : plan.tree.NestsRemote id) :
    ∃ settings, plan.settings id = .ok settings ∧ settings.mode = .remote := by
  obtain ⟨-, node, there, rfl, loop, remote⟩ := nests
  cases built.isNew node there with
  | operator kind_eq => exact absurd (loop.symm.trans kind_eq) nofun
  | @block blockId block held made =>
    have found := PlanTree.node?_eq_some built.isFormed.numbered.distinct there
    have mode_eq := placement_of_nodeOfBlock made loop
    cases of_block : block.settings with
    | none => simp [of_block, remote] at mode_eq
    | some settings =>
      refine ⟨settings, settings_eq_ok_iff.mpr ?_, by simpa [of_block, remote] using mode_eq.symm⟩
      rw [settings?, block?_of_node? found (of_nodeOfBlock made).2.1 held, Option.bind_some,
        of_block]

end Plan

/-! ## Demoting loops -/

/-- Demoting the loops with one worker leaves those on the cluster that have more. -/
theorem PlanningRule.nestsRemote_demoteEach {α : Type} {plan after : Plan α} {removed : Nat}
    {node : PlanNode} (distinct : plan.tree.ids.Nodup)
    (unnests : plan.tree.Unnests after.tree removed)
    (done : (demoteEach (nestedSerialLoops plan.tree)).result plan = (.ok (), after))
    (there : node ∈ after.tree.nodes) :
    after.tree.NestsRemote node.id ↔ plan.tree.NestsRemote node.id ∧ 2 ≤ node.workers := by
  have once := nodup_nestedSerialLoops distinct
  have root_eq := id_demoted distinct done
  have finalDistinct : after.tree.ids.Nodup := by rwa [ids_demoteEach done]
  constructor
  · rintro ⟨nested, twin, inside, same, loop, remote⟩
    obtain rfl := PlanTree.eq_of_id_eq finalDistinct inside there same
    obtain ⟨_, -, several, -⟩ := unnests.several twin there nested loop
    have before := (mem_of_demoteEach distinct once done there loop).1
    exact ⟨⟨root_eq ▸ nested, twin, before, rfl, loop, remote⟩, several⟩
  · rintro ⟨⟨nested, twin, inside, same, loop, remote⟩, several⟩
    have kept : node.kind = twin.kind := by
      by_contra other
      obtain ⟨-, -, single⟩ := (unnests.changed node there twin inside same.symm).1.mp other
      omega
    have before := (mem_of_demoteEach distinct once done there (kept.trans loop)).1
    obtain rfl := PlanTree.eq_of_id_eq distinct inside before same
    exact ⟨root_eq ▸ nested, twin, there, rfl, loop, remote⟩

/-! ## A pass -/

namespace Optimizer

open PlanningRule

variable {α : Type} [Quantity α] {optimizer : Optimizer α} {vars : Variables} {plan final : Plan α}
  {summary : PassSummary α} {id : NodeId}

namespace Stages

variable (stages : Stages optimizer vars plan final summary) (numbered : plan.tree.IsNumbered)

include stages numbered

/-- Up to the fourth rule the loops below the topmost one stay where they are. -/
theorem nestsRemote_colocated : stages.colocated.tree.NestsRemote id ↔ plan.tree.NestsRemote id := by
  obtain ⟨root, children, before, after⟩ := stages.exists_tree_placed
  rw [← PlanTree.nestsRemote_congr (stages.loopSites_partitioned numbered), stages.tree_colocated,
    before, after, PlanTree.nestsRemote_node, PlanTree.nestsRemote_node]

theorem nestsRemote_split : stages.split.tree.NestsRemote id ↔ plan.tree.NestsRemote id := by
  rw [← stages.nestsRemote_colocated numbered]
  rcases stages.split_cases numbered with ⟨-, same⟩ | ⟨-, pays, chunk, ⟨division⟩⟩
  · rw [same]
  · have flat := (of_shouldSplit pays).2.2
    exact iff_of_false (division.not_nestsRemote flat) (PlanTree.not_nestsRemote_of_flat flat)

theorem nestsRemote_final : final.tree.NestsRemote id ↔
    plan.tree.NestsRemote id ∧ ∃ node ∈ final.tree.nodes, node.id = id ∧ 2 ≤ node.workers := by
  have distinct := stages.distinct_budgeted (stages.isNumbered_split numbered).distinct
  have unnests := (stages.unnests_split numbered).of_outline stages.outlines_budgeted.symm
  have demoted {node : PlanNode} (there : node ∈ final.tree.nodes) :
      final.tree.NestsRemote node.id ↔ plan.tree.NestsRemote node.id ∧ 2 ≤ node.workers := by
    rw [nestsRemote_demoteEach distinct unnests stages.demoted there,
      PlanTree.nestsRemote_congr (PlanTree.loopSite_eq_of_site stages.sites_budgeted),
      stages.nestsRemote_split numbered]
  constructor
  · intro nests
    have ⟨_, node, there, same, _⟩ := nests
    subst same
    obtain ⟨before, several⟩ := (demoted there).mp nests
    exact ⟨before, node, there, rfl, several⟩
  · rintro ⟨before, node, there, rfl, several⟩
    exact (demoted there).mpr ⟨before, several⟩

end Stages

/-- After a pass the loops on the cluster below the topmost one are those that were there before and
have several workers. -/
theorem nestsRemote_optimize_iff (numbered : plan.tree.IsNumbered)
    (done : (optimizer.optimize vars plan).1 = .ok summary) (id : NodeId) :
    (optimizer.optimize vars plan).2.plan.tree.NestsRemote id ↔
      plan.tree.NestsRemote id ∧
        ∃ node ∈ (optimizer.optimize vars plan).2.plan.tree.nodes,
          node.id = id ∧ 2 ≤ node.workers := by
  obtain ⟨stages⟩ := exists_stages done
  exact stages.nestsRemote_final numbered

/-- A loop over two iterations, and one in it over ten whose block puts it on the cluster. -/
def nestedTasks : Plan Rat where
  tree :=
    .node { id := ⟨0⟩, kind := .parfor, placement := .inProcess, block := some ⟨0⟩
            parameters := { numIterations := some "2" } }
      [.node { id := ⟨1⟩, kind := .parfor, placement := .remote, block := some ⟨1⟩
               parameters := { numIterations := some "10" } } []]
  program :=
    { blocks := #[
        .parallel { var := "i", first := .const 1, last := .const 2, step := 1 } .undecided [⟨1⟩],
        .parallel { var := "j", first := .const 1, last := .const 10, step := 1 }
          { ParallelSettings.undecided with mode := .remote } []]
      hops := #[] }

theorem isBuilt_nestedTasks : nestedTasks.IsBuilt := by
  obtain ⟨plan, single⟩ : ∃ plan, Plan.ofLoop nestedTasks.program ⟨0⟩ = .ok plan := ⟨_, rfl⟩
  have second : (Plan.addBlockNode ⟨0⟩ ⟨1⟩).result plan = (.ok ⟨1⟩, nestedTasks) := by
    cases single
    rfl
  exact .addBlockNode (.ofLoop single) second

/-- Where two tasks run at once, each iteration has one worker for the inner loop, which is demoted;
where four do, the inner loop has two and stays on the cluster. -/
theorem nestsRemote_iff_nestedTasks :
    ∃ first second, ((ofCluster 2 2).optimize .empty nestedTasks).1 = .ok first ∧
      ((ofCluster 2 4).optimize .empty nestedTasks).1 = .ok second ∧
      ¬ ((ofCluster 2 2).optimize .empty nestedTasks).2.plan.tree.NestsRemote ⟨1⟩ ∧
      ((ofCluster 2 4).optimize .empty nestedTasks).2.plan.tree.NestsRemote ⟨1⟩ := by
  obtain ⟨first, done⟩ := Outcome.exists_ok
    (show ((ofCluster 2 2).optimize .empty nestedTasks).1.toOption.isSome = true by decide +kernel)
  obtain ⟨second, alsoDone⟩ := Outcome.exists_ok
    (show ((ofCluster 2 4).optimize .empty nestedTasks).1.toOption.isSome = true by decide +kernel)
  have numbered := isBuilt_nestedTasks.isFormed.numbered
  refine ⟨first, second, done, alsoDone, ?_, ?_⟩
  · rw [nestsRemote_optimize_iff numbered done]
    decide +kernel
  · rw [nestsRemote_optimize_iff numbered alsoDone]
    decide +kernel

/-- So a loop whose iterations are distributed tasks can have one in it that is distributed too. -/
theorem exists_nestsRemote_nestedTasks :
    nestedTasks.IsBuilt ∧
      ∃ summary, ((ofCluster 2 4).optimize .empty nestedTasks).1 = .ok summary ∧
        ((ofCluster 2 4).optimize .empty nestedTasks).2.plan.tree.root.placement = .remote ∧
        ∃ id, ((ofCluster 2 4).optimize .empty nestedTasks).2.plan.tree.NestsRemote id := by
  obtain ⟨summary, done⟩ := Outcome.exists_ok
    (show ((ofCluster 2 4).optimize .empty nestedTasks).1.toOption.isSome = true by decide +kernel)
  exact ⟨isBuilt_nestedTasks, summary, done, by decide +kernel, ⟨1⟩, by decide +kernel⟩

/-! ## Many passes -/

/-- However many passes there are, none of them puts such a loop on the cluster. -/
theorem Passes.nestsRemote {start : Plan α} {summaries : List (PassSummary α)}
    (passes : Passes start summaries final) (numbered : start.tree.IsNumbered)
    (nests : final.tree.NestsRemote id) : start.tree.NestsRemote id := by
  induction passes with
  | refl => exact nests
  | pass before _ _ done ih =>
    obtain ⟨stages⟩ := exists_stages done
    exact ih ((stages.nestsRemote_final (before.isNumbered numbered)).mp nests).1

/-- If the plan was built, its block says so from the start. -/
theorem Passes.exists_remote_settings {start : Plan α} {summaries : List (PassSummary α)}
    (passes : Passes start summaries final) (built : start.IsBuilt)
    (nests : final.tree.NestsRemote id) :
    ∃ settings, start.settings id = .ok settings ∧ settings.mode = .remote :=
  built.exists_remote_settings (passes.nestsRemote built.isFormed.numbered nests)

end Optimizer

end ParallelLoop
