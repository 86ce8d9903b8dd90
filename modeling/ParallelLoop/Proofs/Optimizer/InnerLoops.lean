/-
# Loops that stay inside a loop

The last rule leaves no parallel loop below the topmost node that has one worker. Each one that
stays has at least two, and no more than it has iterations, because workers are handed out by the
recorded trip counts. Each one with one worker becomes a sequential loop of the process in the same
place, with the same trip count and the same nodes below, and these are all the nodes whose kind
changes (`Unnests`).

Nothing else changes the shape of a tree but a split, which puts one node between the loop and its
body. The tree that the last rule starts from is that of the plan, or the tree that the split made
of it (`Plan.splitTree`).
-/

import ParallelLoop.Proofs.Optimizer.Resplitting
import ParallelLoop.Proofs.Optimizer.Sites
import ParallelLoop.Proofs.Optimizer.Success

namespace ParallelLoop

/-! ## Shapes of trees -/

namespace PlanNode

/-- What a node is, with its trip count. -/
def outline (node : PlanNode) : PlanNode :=
  { id := node.id, kind := node.kind, placement := .inProcess
    parameters := { numIterations := node.parameters.numIterations } }

/-- The node with its trip count, whatever it is. -/
def frame (node : PlanNode) : PlanNode := { node.outline with kind := .generic }

theorem outline_comp_given : outline ∘ given = outline := rfl

theorem of_outline_eq {node other : PlanNode} (same : node.outline = other.outline) :
    node.id = other.id ∧ node.kind = other.kind := by
  simp only [outline, mk.injEq] at same
  exact ⟨same.1, same.2.1⟩

theorem kind_comp_outline : kind ∘ outline = kind := rfl

theorem frame_eq_comp : frame = frame ∘ outline := rfl

/-- Nodes with the same outline have the same trip count. -/
theorem tripCount_of_outline {node other : PlanNode} (same : node.outline = other.outline) :
    node.tripCount = other.tripCount :=
  tripCount_congr (of_outline_eq same).1
    (congrArg (fun node => node.parameters.numIterations) same)

theorem frame_demoted (node : PlanNode) (block : BlockId) :
    (node.demoted block).frame = node.frame := rfl

theorem id_eq_of_load {node twin : PlanNode} (same : node.load = twin.load) : node.id = twin.id := by
  have shown (node : PlanNode) : node.load.id = node.id := by
    unfold load
    split <;> rfl
  rw [← shown, same, shown]

end PlanNode

namespace PlanTree

theorem outline_eq_of_given {tree other : PlanTree}
    (same : other.mapNodes PlanNode.given = tree.mapNodes PlanNode.given) :
    other.mapNodes PlanNode.outline = tree.mapNodes PlanNode.outline := by
  rw [← PlanNode.outline_comp_given, ← mapNodes_mapNodes, same, mapNodes_mapNodes]

/-- The loops inside a loop are as they should be in a tree that came from another one: those that
stayed have several workers and as many iterations, and those with one worker, as many as were
removed, became sequential loops in their places. -/
structure Unnests (before after : PlanTree) (removed : Nat) : Prop where
  frame : after.mapNodes PlanNode.frame = before.mapNodes PlanNode.frame
  several : ∀ node ∈ after.nodes, node.id ≠ after.id → node.kind = .parfor →
    ∃ count, node.tripCount = .ok count ∧ 2 ≤ node.workers ∧ node.workers ≤ count
  changed : ∀ node ∈ after.nodes, ∀ twin ∈ before.nodes, node.id = twin.id →
    (node.kind ≠ twin.kind ↔ twin.id ≠ before.id ∧ twin.kind = .parfor ∧ node.workers = 1) ∧
      (node.kind ≠ twin.kind → node.kind = .for ∧ node.placement = .inProcess)
  removed_eq : removed =
    ((after.nodes.map PlanNode.kind).zip (before.nodes.map PlanNode.kind)).countP
      fun kinds => kinds.1 != kinds.2

/-- Only what the nodes of the tree before are, and their trip counts, matter. -/
theorem Unnests.of_outline {before other after : PlanTree} {removed : Nat}
    (unnests : before.Unnests after removed)
    (same : before.mapNodes PlanNode.outline = other.mapNodes PlanNode.outline) :
    other.Unnests after removed := by
  have frames : other.mapNodes PlanNode.frame = before.mapNodes PlanNode.frame := by
    rw [PlanNode.frame_eq_comp, ← mapNodes_mapNodes, ← same, mapNodes_mapNodes]
  have kinds : before.nodes.map PlanNode.kind = other.nodes.map PlanNode.kind := by
    have all := congrArg (fun tree => tree.nodes.map PlanNode.kind) same
    rwa [nodes_mapNodes, nodes_mapNodes, List.map_map, List.map_map,
      PlanNode.kind_comp_outline] at all
  have root_eq : before.id = other.id := id_of_mapNodes same fun _ => rfl
  refine ⟨unnests.frame.trans frames.symm, unnests.several, ?_, kinds ▸ unnests.removed_eq⟩
  intro node there twin alsoThere id_eq
  obtain ⟨old, inside, shown⟩ := exists_node_of_mapNodes same.symm alsoThere
  obtain ⟨old_eq, kind_eq⟩ := PlanNode.of_outline_eq shown
  rw [kind_eq, old_eq, ← root_eq]
  exact unnests.changed node there old inside (id_eq.trans old_eq)

theorem Unnests.size_eq {before after : PlanTree} {removed : Nat}
    (unnests : before.Unnests after removed) : after.size = before.size := by
  rw [← length_ids, ids_of_mapNodes unnests.frame fun _ => rfl, length_ids]

end PlanTree

/-- The tree that a split of the loop makes: the loop goes over chunks of its iterations, and a new
loop in it over those of a chunk. -/
def Plan.splitTree {α : Type} (plan : Plan α) (iterations chunk : Nat) : PlanTree :=
  .node (outerNode iterations chunk plan.tree.root) [.node (plan.innerNode chunk) plan.tree.children]

/-! ## Workers of the loops inside -/

/-- The workers of a loop as its share of a budget: one, or several and no more than iterations. -/
def PlanNode.HasShare (node : PlanNode) : Prop :=
  node.workers = 1 ∨
    ∃ count, node.tripCount = .ok count ∧ 2 ≤ node.workers ∧ node.workers ≤ count

theorem PlanTree.IsShared.hasShare {limit : Nat} {tree : PlanTree}
    (shared : tree.IsShared limit) {node : PlanNode} (there : node ∈ tree.nodes)
    (loop : node.kind = .parfor) : node.HasShare := by
  induction shared with
  | spent none serial => exact .inl (serial node there loop)
  | @loop limit iterations root children some parallel counted own below ih =>
    rw [nodes_node, List.mem_cons, List.mem_flatMap] at there
    rcases there with rfl | ⟨child, inside, deeper⟩
    · rw [PlanningRule.workersFor] at own
      by_cases single : node.workers = 1
      · exact .inl single
      · exact .inr ⟨iterations, counted, by omega, by omega⟩
    · exact ih child inside deeper
  | @other limit root children some sequential below ih =>
    rw [nodes_node, List.mem_cons, List.mem_flatMap] at there
    rcases there with rfl | ⟨child, inside, deeper⟩
    · exact absurd loop sequential
    · exact ih child inside deeper

namespace PlanningRule

variable {α : Type} {plan after : Plan α}

/-- Exactly the loops with one worker below the topmost one are demoted. -/
theorem mem_nestedSerialLoops_iff {tree : PlanTree} {node : PlanNode} (distinct : tree.ids.Nodup)
    (there : node ∈ tree.nodes) :
    node.id ∈ nestedSerialLoops tree ↔
      node.id ≠ tree.id ∧ node.kind = .parfor ∧ node.workers = 1 := by
  constructor
  · intro listed
    refine ⟨fun top => root_not_mem_nestedSerialLoops distinct (top ▸ listed), ?_⟩
    exact isSerialLoop_of_mem distinct there listed
  · rintro ⟨nested, serial⟩
    exact mem_nestedSerialLoops there serial nested

/-- As many nodes have the id of a nested loop with one worker as there are such loops. -/
theorem countP_nestedSerialLoops {tree : PlanTree} (distinct : tree.ids.Nodup) :
    tree.nodes.countP (fun node => node.id ∈ nestedSerialLoops tree) =
      (nestedSerialLoops tree).length := by
  have outside := root_not_mem_nestedSerialLoops distinct
  have serial {node : PlanNode} (there : node ∈ tree.nodes) :=
    isSerialLoop_of_mem distinct there
  have counts : (nestedSerialLoops tree).length =
      (tree.children.flatMap PlanTree.nodes).countP fun node => node.IsSerialLoop := by
    rw [nestedSerialLoops, serialLoops, List.length_map, List.countP_eq_length_filter]
  cases tree with
  | node root children =>
    change root.id ∉ _ at outside
    rw [PlanTree.nodes_node] at serial ⊢
    rw [counts, List.countP_cons_of_neg (by simpa using outside)]
    refine List.countP_congr fun node below => ?_
    simp only [decide_eq_true_eq]
    exact ⟨serial (List.mem_cons_of_mem root below), fun single =>
      List.mem_map_of_mem (List.mem_filter.mpr ⟨below, decide_eq_true single⟩)⟩

theorem id_demoted (distinct : plan.tree.ids.Nodup)
    (done : (demoteEach (nestedSerialLoops plan.tree)).result plan = (.ok (), after)) :
    after.tree.id = plan.tree.id :=
  congrArg PlanNode.id (root_demoteEach (root_not_mem_nestedSerialLoops distinct) done)

/-- Demoting the loops with one worker unnests the tree, if the others have no more workers than
iterations. -/
theorem unnests_of_demoteEach (distinct : plan.tree.ids.Nodup)
    (shared : ∀ node ∈ plan.tree.nodes, node.id ≠ plan.tree.id → node.kind = .parfor →
      node.HasShare)
    (done : (demoteEach (nestedSerialLoops plan.tree)).result plan = (.ok (), after)) :
    plan.tree.Unnests after.tree (nestedSerialLoops plan.tree).length := by
  have once := nodup_nestedSerialLoops distinct
  obtain ⟨blocks, tree_eq⟩ := tree_demoteEach distinct once done
  refine
    { frame := mapNodes_demoteEach distinct once (fun node _ _ => node.frame_demoted) done
      several := ?several
      changed := ?changed
      removed_eq := ?removed }
  case several =>
    intro node there nested loop
    have inside := (mem_of_demoteEach distinct once done there loop).1
    rw [id_demoted distinct done] at nested
    -- A nested loop with a single worker would have been demoted.
    refine (shared node inside nested loop).resolve_left fun single => ?_
    exact not_isSerialLoop_of_demoteEach distinct done there nested ⟨loop, single⟩
  case changed =>
    intro node there twin alsoThere same
    rw [tree_eq, PlanTree.nodes_mapNodes] at there
    obtain ⟨old, inside, rfl⟩ := List.mem_map.mp there
    obtain rfl : old = twin := by
      refine PlanTree.eq_of_id_eq distinct inside alsoThere (Eq.trans ?_ same)
      split <;> rfl
    by_cases listed : old.id ∈ nestedSerialLoops plan.tree
    · obtain ⟨nested, loop, single⟩ := (mem_nestedSerialLoops_iff distinct inside).mp listed
      rw [if_pos listed]
      simp [PlanNode.demoted, loop, single, nested]
    · have kept := (mem_nestedSerialLoops_iff distinct inside).not.mp listed
      rw [if_neg listed]
      simpa using kept
  case removed =>
    rw [tree_eq, PlanTree.nodes_mapNodes, List.map_map, List.zip_map', List.countP_map,
      ← countP_nestedSerialLoops distinct]
    refine List.countP_congr fun node there => ?_
    by_cases listed : node.id ∈ nestedSerialLoops plan.tree
    · have loop := ((mem_nestedSerialLoops_iff distinct there).mp listed).2.1
      simp [listed, PlanNode.demoted, loop]
    · simp [listed]

variable [Quantity α] {context : PassContext α}

theorem SharesBudget.hasShare {tree : PlanTree} {node : PlanNode}
    (shares : SharesBudget context tree) (there : node ∈ tree.nodes) (nested : node.id ≠ tree.id)
    (loop : node.kind = .parfor) : node.HasShare := by
  obtain ⟨limit, shared⟩ : ∃ limit, ∀ child ∈ tree.children, child.IsShared limit := by
    cases here : tree.root.placement with
    | inProcess => exact ⟨_, (shares.inProcess here).2⟩
    | remote => exact ⟨_, (shares.remote here).2⟩
  cases tree with
  | node root children =>
    rw [PlanTree.nodes_node, List.mem_cons, List.mem_flatMap] at there
    rcases there with rfl | ⟨child, inside, deeper⟩
    · exact absurd rfl nested
    · exact (shared child inside).hasShare deeper loop

end PlanningRule

/-! ## A pass -/

namespace Plan

variable {α : Type} {plan base after : Plan α} {chunk count : Nat} {var : String}

/-- A split makes the tree of the loop that it splits, also when the loop looked different then. -/
theorem Division.outline_eq (division : Division plan after chunk var)
    (same : plan.tree.mapNodes PlanNode.outline = base.tree.mapNodes PlanNode.outline)
    (counted : base.tree.root.tripCount = .ok count) :
    after.tree.mapNodes PlanNode.outline =
      (base.splitTree count chunk).mapNodes PlanNode.outline := by
  have fresh : plan.tree.freshId = base.tree.freshId := by
    have ids := PlanTree.ids_of_mapNodes same fun _ => rfl
    rw [PlanTree.freshId, PlanTree.freshId, ← PlanTree.length_ids, ids, PlanTree.length_ids]
  rw [division.before] at same
  obtain ⟨root, children, base_eq⟩ := base.tree.exists_eq_node
  rw [base_eq, PlanTree.mapNodes_node, PlanTree.mapNodes_node, PlanTree.node.injEq] at same
  obtain ⟨root_eq, children_eq⟩ := same
  have count_eq : division.count = count := by
    have trips := PlanNode.tripCount_of_outline root_eq
    rw [base_eq] at counted
    exact Except.ok.inj (division.counted.symm.trans (trips.trans counted))
  obtain ⟨id_eq, kind_eq⟩ := PlanNode.of_outline_eq root_eq
  -- The new loops differ only in what was decided before the split, which an outline leaves out.
  have outer : (outerNode count chunk division.root).outline =
      (outerNode count chunk root).outline := by
    simp [PlanNode.outline, outerNode, PlanNode.setParam, NodeParameters.set, id_eq, kind_eq]
  have inner : (plan.innerNode chunk).outline = (base.innerNode chunk).outline := by
    simp [PlanNode.outline, innerNode, fresh]
  have grown : base.splitTree count chunk =
      .node (outerNode count chunk root) [.node (base.innerNode chunk) children] := by
    rw [splitTree, base_eq]
    rfl
  rw [division.tree_eq, grown, count_eq]
  simp only [PlanTree.mapNodes_node, List.map_cons, List.map_nil, outer, inner, children_eq]

theorem size_splitTree (plan : Plan α) (count chunk : Nat) :
    (plan.splitTree count chunk).size = plan.tree.size + 1 := by
  obtain ⟨root, children, tree_eq⟩ := plan.tree.exists_eq_node
  rw [splitTree, tree_eq]
  simp only [PlanTree.size, PlanTree.sizeAll, PlanTree.children]
  omega

end Plan

namespace Optimizer

open PlanningRule

variable {α : Type} [Quantity α] {optimizer : Optimizer α} {vars : Variables} {plan final : Plan α}
  {summary : PassSummary α}

/-- The pass split the loop: afterwards it is a loop that was split, and before it was not. -/
def Splits (optimizer : Optimizer α) (plan : Plan α) (summary : PassSummary α) : Prop :=
  summary.nested = true ∧
    plan.splitTripCount plan.tree.id optimizer.settings.nestedVar = .ok none

namespace Stages

variable (stages : Stages optimizer vars plan final summary)

include stages

theorem outlines_colocated :
    stages.colocated.tree.mapNodes PlanNode.outline = plan.tree.mapNodes PlanNode.outline :=
  PlanTree.outline_eq_of_given (stages.view_colocated (Plan.ignores_mapNodes PlanNode.given))

theorem outlines_budgeted : stages.budgeted.tree.mapNodes PlanNode.outline =
    stages.split.tree.mapNodes PlanNode.outline :=
  PlanTree.outline_eq_of_given (stages.view_budgeted (Plan.ignores_mapNodes PlanNode.given))

variable (numbered : plan.tree.IsNumbered)

include numbered

theorem hasShare_budgeted {node : PlanNode} (there : node ∈ stages.budgeted.tree.nodes)
    (nested : node.id ≠ stages.budgeted.tree.id) (loop : node.kind = .parfor) : node.HasShare := by
  by_cases single : node.workers = 1
  · exact .inl single
  have shares : SharesBudget stages.last stages.distributed.tree :=
    sharesBudget_degreeOfParallelism (stages.isNumbered_split numbered).distinct
      stages.degreeOfParallelism
  -- The texts of the later rules do not show in what a loop has to do with the sharing.
  have loads := stages.view_written (Plan.ignores_mapNodes PlanNode.load) PlanNode.load_setParam
  obtain ⟨twin, inside, same⟩ := PlanTree.exists_node_of_mapNodes loads there
  obtain ⟨alsoLoop, workers_eq, trips⟩ := PlanNode.of_load_of_loop same.symm loop single
  unfold PlanNode.HasShare
  rw [← workers_eq, ← trips]
  refine shares.hasShare inside (fun top => nested ?_) alsoLoop
  rw [PlanNode.id_eq_of_load same, top, Plan.id_of_layout stages.layout_distributed,
    Plan.id_of_layout stages.layout_budgeted]

theorem unnests_split :
    stages.split.tree.Unnests final.tree summary.removed := by
  have distinct := stages.distinct_budgeted (stages.isNumbered_split numbered).distinct
  have unnests := unnests_of_demoteEach distinct
    (fun _ => stages.hasShare_budgeted numbered) stages.demoted
  rw [← (of_unnecessaryLoops stages.unnecessaryLoops).2, ← stages.removed_eq] at unnests
  exact unnests.of_outline stages.outlines_budgeted

end Stages

/-- A pass leaves no loop with one worker in a loop. The tree is that of the plan, or that of the
plan with its loop split if the pass split it, but for the loops that are no longer parallel. -/
theorem unnests_optimize (numbered : plan.tree.IsNumbered)
    (done : (optimizer.optimize vars plan).1 = .ok summary) :
    ∃ grown : PlanTree, grown.Unnests (optimizer.optimize vars plan).2.plan.tree summary.removed ∧
      (¬ optimizer.Splits plan summary → grown = plan.tree ∧
        (optimizer.optimize vars plan).2.plan.tree.size = plan.tree.size) ∧
      (optimizer.Splits plan summary →
        (∃ chunk, grown = plan.splitTree summary.iterations chunk) ∧
          (optimizer.optimize vars plan).2.plan.tree.size = plan.tree.size + 1) := by
  obtain ⟨stages⟩ := exists_stages done
  obtain ⟨iterations, -, nested_eq⟩ := stages.summary_eq
  obtain ⟨found, count, found_eq, counted, context_eq⟩ := PassContext.of_ofPlan stages.ofPlan
  have unnests := stages.unnests_split numbered
  -- The loops are removed from the tree that was given, or from the one that splitting it makes.
  rcases stages.split_cases numbered with ⟨same, tree_eq⟩ | ⟨same, pays, chunk, ⟨division⟩⟩
  · rw [tree_eq] at unnests
    replace unnests := unnests.of_outline stages.outlines_colocated
    have whole : ¬ optimizer.Splits plan summary := by
      rintro ⟨nested, fresh⟩
      obtain rfl := Except.ok.inj (fresh.symm.trans found_eq)
      rw [nested_eq, same, Stages.placing, context_eq] at nested
      cases nested
    exact ⟨plan.tree, unnests, fun _ => ⟨rfl, unnests.size_eq⟩, fun split => absurd split whole⟩
  · have kinds (node : PlanNode) : node.outline.kind = node.kind := rfl
    have flat : plan.tree.hasNestedParallelism = false := by
      rw [← PlanTree.hasNestedParallelism_mapNodes kinds, ← stages.outlines_colocated,
        PlanTree.hasNestedParallelism_mapNodes kinds]
      exact (of_shouldSplit pays).2.2
    have fresh := Plan.splitTripCount_of_flat numbered.distinct flat optimizer.settings.nestedVar
    obtain rfl := Except.ok.inj (fresh.symm.trans found_eq)
    have split : optimizer.Splits plan summary := ⟨by rw [nested_eq, same], fresh⟩
    have counted := counted.resolve_left nofun
    have count_eq : summary.iterations = count := by
      rw [iterations, context_eq]
      rfl
    replace unnests := unnests.of_outline
      (division.outline_eq stages.outlines_colocated counted.2)
    refine ⟨_, unnests, absurd split, fun _ => ⟨⟨chunk, by rw [count_eq]⟩, ?_⟩⟩
    rw [unnests.size_eq, Plan.size_splitTree]

/-- The loop over four iterations is split, and the new loop in it gets one worker. -/
theorem unnests_oneLoop :
    ∃ summary, ((ofCluster 2 2).optimize .empty oneLoop).1 = .ok summary ∧
      (ofCluster 2 2).Splits oneLoop summary ∧
      (∃ chunk, (oneLoop.splitTree 4 chunk).Unnests
        ((ofCluster 2 2).optimize .empty oneLoop).2.plan.tree 1) ∧
      ((ofCluster 2 2).optimize .empty oneLoop).2.plan.tree.size = 2 := by
  obtain ⟨summary, done⟩ := Outcome.exists_ok
    (show ((ofCluster 2 2).optimize .empty oneLoop).1.toOption.isSome = true by decide +kernel)
  have told : ((ofCluster 2 2).optimize .empty oneLoop).1.toOption.map
      (fun summary => (summary.nested, summary.iterations, summary.removed)) =
        some (true, 4, 1) := by decide +kernel
  rw [done] at told
  obtain ⟨nested, iterations, removed⟩ := by simpa using Option.some.inj told
  have splits : (ofCluster 2 2).Splits oneLoop summary :=
    ⟨nested, Plan.splitTripCount_of_flat (by decide) rfl _⟩
  obtain ⟨_, unnests, -, grows⟩ := unnests_optimize ⟨by decide, by decide⟩ done
  obtain ⟨⟨chunk, rfl⟩, size_eq⟩ := grows splits
  rw [iterations, removed] at unnests
  exact ⟨summary, done, splits, ⟨chunk, unnests⟩, size_eq⟩

end Optimizer

end ParallelLoop
