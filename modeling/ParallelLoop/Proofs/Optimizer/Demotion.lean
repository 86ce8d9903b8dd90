/-
# Demoting serial loops

The ninth rule walks through the tree that it was given and demotes one loop after the
other, so it is the same as demoting the loops of a list: those with one worker below
the topmost node, each before the loops in it.

Demoting such a loop does not change how many workers any part of the tree puts to
work, nor where its operators run. The nodes keep their ids, so that the plan at the end
of a pass is numbered like the one it was given.
-/

import Mathlib.Logic.Function.Basic
import ParallelLoop.Proofs.Optimizer.Stages
import ParallelLoop.Proofs.Plan.Operations

namespace ParallelLoop

namespace PlanNode

/-- The node is a parallel loop with one worker. -/
def IsSerialLoop (node : PlanNode) : Prop := node.kind = .parfor ∧ node.workers = 1

instance (node : PlanNode) : Decidable node.IsSerialLoop := inferInstanceAs (Decidable (_ ∧ _))

end PlanNode

namespace PlanningRule

variable {α : Type} {plan after : Plan α}

/-- The ids of the parallel loops with one worker among the nodes. -/
def serialLoops (nodes : List PlanNode) : List NodeId :=
  (nodes.filter fun node => decide node.IsSerialLoop).map PlanNode.id

/-- Demotes one loop after the other. -/
def demoteEach : List NodeId → Change (Plan α) Unit
  | [] => pure ()
  | id :: rest => do
    Plan.demote id
    demoteEach rest

theorem demoteEach_append (first second : List NodeId) :
    demoteEach (first ++ second) =
      (do demoteEach first; demoteEach second : Change (Plan α) Unit) := by
  induction first with
  | nil => rw [List.nil_append, demoteEach, pure_bind]
  | cons id rest ih => rw [List.cons_append, demoteEach, demoteEach, ih, bind_assoc]

theorem serialLoops_cons (node : PlanNode) (nodes : List PlanNode) :
    serialLoops (node :: nodes) =
      if node.IsSerialLoop then node.id :: serialLoops nodes else serialLoops nodes := by
  unfold serialLoops
  rw [List.filter_cons]
  split <;> simp_all

theorem serialLoops_append (first second : List PlanNode) :
    serialLoops (first ++ second) = serialLoops first ++ serialLoops second := by
  rw [serialLoops, List.filter_append, List.map_append]
  rfl

/-- Demotes the loops of a list and counts them. -/
def demoteAndCount (ids : List NodeId) : Change (Plan α) Nat := do
  demoteEach ids
  return ids.length

theorem demoteAndCount_nil : demoteAndCount [] = (pure 0 : Change (Plan α) Nat) := by
  rw [demoteAndCount, demoteEach, pure_bind]
  rfl

theorem demoteAndCount_singleton (id : NodeId) :
    demoteAndCount [id] = (do Plan.demote id; pure 1 : Change (Plan α) Nat) := by
  rw [demoteAndCount, demoteEach, demoteEach, bind_assoc]
  simp only [pure_bind]
  rfl

theorem demoteAndCount_append (first second : List NodeId) :
    demoteAndCount (first ++ second) = (do
      let earlier ← demoteAndCount first
      let later ← demoteAndCount second
      return earlier + later : Change (Plan α) Nat) := by
  unfold demoteAndCount
  rw [demoteEach_append]
  simp only [bind_assoc, pure_bind, List.length_append]

/-- The nodes of trees: the first one, those below it, and those of the other trees. -/
theorem serialLoops_trees (tree : PlanTree) (rest : List PlanTree) :
    serialLoops ((tree :: rest).flatMap PlanTree.nodes) =
      serialLoops [tree.root] ++ serialLoops (tree.children.flatMap PlanTree.nodes) ++
        serialLoops (rest.flatMap PlanTree.nodes) := by
  cases tree with
  | node root children =>
    rw [List.flatMap_cons, PlanTree.nodes_node, List.cons_append, ← List.singleton_append,
      serialLoops_append, serialLoops_append, ← List.append_assoc]
    rfl

/-- Walking through trees demotes the serial loops in them. -/
theorem demoteSerialAll_eq (trees : List PlanTree) :
    demoteSerialAll trees =
      (demoteAndCount (serialLoops (trees.flatMap PlanTree.nodes)) : Change (Plan α) Nat) := by
  -- The walk demotes a loop before the loops in it, and all these before the trees beside it.
  have walk (trees : List PlanTree)
      (below : ∀ tree ∈ trees, demoteSerial tree =
        (demoteAndCount (serialLoops (tree.children.flatMap PlanTree.nodes)) :
          Change (Plan α) Nat)) :
      demoteSerialAll trees =
        (demoteAndCount (serialLoops (trees.flatMap PlanTree.nodes)) : Change (Plan α) Nat) := by
    induction trees with
    | nil => rfl
    | cons tree rest ih =>
      rw [List.forall_mem_cons] at below
      rw [serialLoops_trees, demoteAndCount_append, demoteAndCount_append, demoteSerialAll,
        below.1, ih below.2, serialLoops_cons]
      split
      next serial =>
        change tree.root.IsSerialLoop at serial
        rw [if_pos serial, show serialLoops [] = [] from rfl, demoteAndCount_singleton]
        simp only [bind_assoc, pure_bind]
        rfl
      next parallel =>
        change ¬ tree.root.IsSerialLoop at parallel
        rw [if_neg parallel, show serialLoops [] = [] from rfl, demoteAndCount_nil]
        simp only [bind_assoc, pure_bind]
  have each (tree : PlanTree) : demoteSerial tree =
      (demoteAndCount (serialLoops (tree.children.flatMap PlanTree.nodes)) :
        Change (Plan α) Nat) := by
    induction tree using PlanTree.induction with
    | node root children ih => exact walk children ih
  exact walk trees fun tree _ => each tree

theorem demoteSerial_eq (tree : PlanTree) :
    demoteSerial tree = (demoteSerialAll tree.children : Change (Plan α) Nat) := by
  cases tree with
  | node root children => rfl

/-- The nested loops with one worker. -/
def nestedSerialLoops (tree : PlanTree) : List NodeId :=
  serialLoops (tree.children.flatMap PlanTree.nodes)

theorem nestedSerialLoops_sublist (tree : PlanTree) :
    (nestedSerialLoops tree).Sublist tree.ids := by
  cases tree with
  | node root children =>
    have below : (nestedSerialLoops (.node root children)).Sublist
        ((children.flatMap PlanTree.nodes).map PlanNode.id) := List.filter_sublist.map _
    refine below.trans ?_
    rw [PlanTree.ids, PlanTree.nodes_node, List.map_cons]
    exact List.sublist_cons_self ..

section

variable {relation : Plan α → Plan α → Prop} [IsPreorder (Plan α) relation]

theorem respects_demoteEach (demotes : ∀ {id : NodeId}, Change.Respects relation (Plan.demote id))
    (ids : List NodeId) : Change.Respects relation (demoteEach ids) := by
  induction ids with
  | nil => exact .pure _
  | cons id rest ih => exact .bind demotes fun _ => ih

theorem respects_unnecessaryLoops
    (demotes : ∀ {id : NodeId}, Change.Respects relation (Plan.demote id)) :
    Change.Respects (Pass.Across relation) (runUnnecessaryLoops : Pass α Nat) := by
  refine .bind Pass.respects_plan fun plan => ?_
  have demoted : Change.Respects relation (demoteSerial plan.tree) := by
    rw [demoteSerial_eq, demoteSerialAll_eq]
    exact .bind (respects_demoteEach demotes _) fun _ => .pure _
  exact .bind (Pass.respects_onPlan demoted) fun _ => .bind (respects_report _ _) fun _ => .pure _

end

/-- The nodes that the ninth rule demotes. -/
theorem isSerialLoop_of_mem {tree : PlanTree} {node : PlanNode} (distinct : tree.ids.Nodup)
    (there : node ∈ tree.nodes) (nested : node.id ∈ nestedSerialLoops tree) :
    node.IsSerialLoop := by
  cases tree with
  | node root children =>
    obtain ⟨other, found, same⟩ := List.mem_map.mp nested
    obtain ⟨below, serial⟩ := List.mem_filter.mp found
    have inTree : other ∈ (PlanTree.node root children).nodes := by
      rw [PlanTree.nodes_node]
      exact List.mem_cons_of_mem root below
    rw [← PlanTree.eq_of_id_eq distinct inTree there same]
    exact of_decide_eq_true serial

theorem root_not_mem_nestedSerialLoops {tree : PlanTree} (distinct : tree.ids.Nodup) :
    tree.id ∉ nestedSerialLoops tree := by
  cases tree with
  | node root children =>
    rw [PlanTree.ids_node, List.nodup_cons] at distinct
    intro nested
    obtain ⟨other, listed, same⟩ := List.mem_map.mp nested
    refine distinct.1 (List.mem_flatMap.mpr ?_)
    obtain ⟨child, there, inside⟩ := List.mem_flatMap.mp (List.mem_of_mem_filter listed)
    have found : other.id = root.id := same
    exact ⟨child, there, found ▸ List.mem_map_of_mem inside⟩

/-- The ninth rule demotes the nested loops with one worker. -/
theorem of_unnecessaryLoops {removed : Nat}
    (leads : runUnnecessaryLoops.Leads plan removed after) :
    (demoteEach (nestedSerialLoops plan.tree)).result plan = (.ok (), after) ∧
      removed = (nestedSerialLoops plan.tree).length := by
  obtain ⟨count, mid, demoted, reported⟩ :=
    Pass.Leads.of_onPlan_bind (Pass.Leads.of_plan_bind leads)
  have returned := Pass.Leads.of_say_bind reported
  obtain ⟨rfl, rfl⟩ := Pass.Leads.of_pure returned
  rw [demoteSerial_eq, demoteSerialAll_eq] at demoted
  obtain ⟨_, final, each, counted⟩ := Change.of_bind demoted
  cases counted
  exact ⟨each, rfl⟩

end PlanningRule

/-! ## What does not change -/

namespace PlanNode

/-- How many workers a node puts to work, and whether it is a distributed job. -/
def profile (node : PlanNode) : PlanNode :=
  if node.isRemoteHop then { id := node.id, kind := .hop, placement := .remote }
  else { id := node.id, kind := .parfor, placement := .inProcess, workers := node.fanOut }

theorem isRemoteHop_profile (node : PlanNode) : node.profile.isRemoteHop = node.isRemoteHop := by
  unfold profile
  split
  next remote => rw [remote]; rfl
  next other => rw [Bool.eq_false_iff.mpr other]; rfl

theorem fanOut_profile (node : PlanNode) : node.profile.fanOut = node.fanOut := by
  unfold profile
  split
  next remote =>
    simp only [isRemoteHop, Bool.and_eq_true, beq_iff_eq] at remote
    have single : node.fanOut = 1 := if_neg (by rw [remote.1]; decide)
    rw [single]
    rfl
  next =>
    have positive : 1 ≤ node.fanOut := by
      unfold fanOut
      split <;> omega
    exact (if_pos rfl).trans (Nat.max_eq_left positive)

/-- Nodes with one worker that are no distributed job have the same profile. -/
theorem profile_eq_of_single {node other : PlanNode} (same : other.id = node.id)
    (fanOut : node.fanOut = 1) (here : node.isRemoteHop = false) (otherFanOut : other.fanOut = 1)
    (otherHere : other.isRemoteHop = false) : other.profile = node.profile := by
  unfold profile
  rw [here, otherHere, fanOut, otherFanOut, same]

end PlanNode

namespace PlanTree

variable {tree other : PlanTree}

/-- The tree as far as its workers and the place of its operators go. -/
def profile (tree : PlanTree) : PlanTree := tree.mapNodes PlanNode.profile

theorem totalWorkers_eq_of_profile (same : other.profile = tree.profile) :
    other.totalWorkers = tree.totalWorkers := by
  have plain (tree : PlanTree) : tree.profile.totalWorkers = tree.totalWorkers :=
    totalWorkers_mapNodes fun node _ => node.fanOut_profile
  rw [← plain, same, plain]

theorem isLocalOnly_eq_of_profile (same : other.profile = tree.profile) :
    other.isLocalOnly = tree.isLocalOnly := by
  have plain (tree : PlanTree) : tree.profile.isLocalOnly = tree.isLocalOnly :=
    isLocalOnly_mapNodes PlanNode.isRemoteHop_profile tree
  rw [← plain, same, plain]

/-- Trees with the same profile have children with the same profiles. -/
theorem exists_child_of_profile {child : PlanTree} (same : other.profile = tree.profile)
    (there : child ∈ other.children) :
    ∃ twin ∈ tree.children, child.profile = twin.profile := by
  have below : other.children.map profile = tree.children.map profile := by
    have lists := congrArg children same
    unfold profile at lists
    rw [children_mapNodes, children_mapNodes] at lists
    exact lists
  have member : child.profile ∈ tree.children.map profile := below ▸ List.mem_map_of_mem there
  obtain ⟨twin, inside, twin_eq⟩ := List.mem_map.mp member
  exact ⟨twin, inside, twin_eq.symm⟩

end PlanTree

/-- What a demotion makes of the node of a loop, whose block is a new one. -/
def PlanNode.demoted (block : BlockId) (node : PlanNode) : PlanNode :=
  { node with block := some block, kind := .for, placement := .inProcess }

namespace PlanningRule

variable {α β γ : Type} {aspect : Aspect α β γ} {plan after : Plan α}

/-- Demoting loops changes their nodes and no others. -/
theorem tree_demoteEach {ids : List NodeId} (distinct : plan.tree.ids.Nodup) (once : ids.Nodup)
    (done : (demoteEach ids).result plan = (.ok (), after)) :
    ∃ blocks : NodeId → BlockId, after.tree = plan.tree.mapNodes fun node =>
      if node.id ∈ ids then node.demoted (blocks node.id) else node := by
  induction ids generalizing plan with
  | nil =>
    cases done
    exact ⟨fun _ => ⟨0⟩, by simp [PlanTree.mapNodes_eq_self]⟩
  | cons id rest ih =>
    obtain ⟨_, mid, first, others⟩ := Change.of_bind done
    obtain ⟨-, -, -, -, -, -, tree_eq, -⟩ := Plan.of_demote first
    have ids_eq : mid.tree.ids = plan.tree.ids := by
      rw [tree_eq]
      apply PlanTree.ids_update
      exact fun _ => rfl
    rw [List.nodup_cons] at once
    obtain ⟨blocks, rest_eq⟩ := ih (ids_eq ▸ distinct) once.2 others
    -- The first loop gets the block that is next now, and the others get later ones.
    refine ⟨Function.update blocks id plan.program.nextBlock, ?_⟩
    rw [rest_eq, tree_eq, PlanTree.update_eq_mapNodes distinct, PlanTree.mapNodes_mapNodes]
    refine PlanTree.mapNodes_congr fun node _ => ?_
    by_cases here : node.id = id
    · simp [here, once.1, PlanNode.demoted]
    · simp [here]

/-- What a view of nodes does not show of a demotion, it does not show of many. -/
theorem mapNodes_demoteEach {ids : List NodeId} {view : PlanNode → PlanNode}
    (distinct : plan.tree.ids.Nodup) (once : ids.Nodup)
    (blind : ∀ node ∈ plan.tree.nodes, node.id ∈ ids → ∀ block,
      view (node.demoted block) = view node)
    (done : (demoteEach ids).result plan = (.ok (), after)) :
    after.tree.mapNodes view = plan.tree.mapNodes view := by
  obtain ⟨blocks, tree_eq⟩ := tree_demoteEach distinct once done
  rw [tree_eq, PlanTree.mapNodes_mapNodes]
  refine PlanTree.mapNodes_congr fun node there => ?_
  rw [Function.comp_apply]
  split
  next listed => exact blind node there listed _
  next => rfl

/-- A parallel loop after some were demoted is one of the others. -/
theorem mem_of_demoteEach {ids : List NodeId} {node : PlanNode} (distinct : plan.tree.ids.Nodup)
    (once : ids.Nodup) (done : (demoteEach ids).result plan = (.ok (), after))
    (there : node ∈ after.tree.nodes) (loop : node.kind = .parfor) :
    node ∈ plan.tree.nodes ∧ node.id ∉ ids := by
  obtain ⟨blocks, tree_eq⟩ := tree_demoteEach distinct once done
  rw [tree_eq, PlanTree.nodes_mapNodes] at there
  obtain ⟨twin, inside, rfl⟩ := List.mem_map.mp there
  by_cases listed : twin.id ∈ ids
  · rw [if_pos listed] at loop
    cases loop
  · rw [if_neg listed]
    exact ⟨inside, listed⟩

/-- Demoting loops with one worker keeps the profile of the tree. -/
theorem profile_demoted (distinct : plan.tree.ids.Nodup)
    (done : (demoteEach (nestedSerialLoops plan.tree)).result plan = (.ok (), after)) :
    after.tree.profile = plan.tree.profile := by
  have once := (nestedSerialLoops_sublist plan.tree).nodup distinct
  refine mapNodes_demoteEach distinct once (fun node there nested block => ?_) done
  obtain ⟨loop, serial⟩ := isSerialLoop_of_mem distinct there nested
  have same : (node.demoted block).id = node.id := rfl
  apply PlanNode.profile_eq_of_single same
  · simp [PlanNode.fanOut, serial]
  · simp [PlanNode.isRemoteHop, loop]
  · rfl
  · rfl

/-- Demoting loops keeps the topmost node, unless it is one of them. -/
theorem root_demoteEach {ids : List NodeId} (apart : plan.tree.id ∉ ids)
    (done : (demoteEach ids).result plan = (.ok (), after)) : after.tree.root = plan.tree.root := by
  induction ids generalizing plan with
  | nil =>
    cases done
    rfl
  | cons id rest ih =>
    rw [List.mem_cons, not_or] at apart
    obtain ⟨_, mid, first, others⟩ := Change.of_bind done
    obtain ⟨old, block, bounds, -, -, -, tree_eq, -⟩ := Plan.of_demote first
    have same : mid.tree.root = plan.tree.root := by
      rw [tree_eq, PlanTree.root_update_of_ne apart.1]
    rw [← same]
    refine ih ?_ others
    rw [PlanTree.id, same]
    exact apart.2

/-- Demoting loops does not show in the others. -/
theorem decided_demoteEach {ids : List NodeId} {id : NodeId} (apart : id ∉ ids)
    (done : (demoteEach ids).result plan = (.ok (), after)) :
    after.decided aspect id = plan.decided aspect id := by
  induction ids generalizing plan with
  | nil =>
    cases done
    rfl
  | cons first rest ih =>
    rw [List.mem_cons, not_or] at apart
    obtain ⟨_, mid, demoted, others⟩ := Change.of_bind done
    rw [ih apart.2 others, Plan.decided_of_demote apart.1 demoted]

theorem ids_demoteEach {ids : List NodeId}
    (done : (demoteEach ids).result plan = (.ok (), after)) : after.tree.ids = plan.tree.ids := by
  induction ids generalizing plan with
  | nil =>
    cases done
    rfl
  | cons id rest ih =>
    obtain ⟨_, mid, first, others⟩ := Change.of_bind done
    obtain ⟨old, block, bounds, -, -, -, tree_eq, -⟩ := Plan.of_demote first
    rw [ih others, tree_eq]
    apply PlanTree.ids_update
    intro node
    rfl

/-- Demoting loops keeps the operators and the other loops. -/
theorem keeps_demoteEach {ids : List NodeId} (formed : plan.IsFormed)
    (done : (demoteEach ids).result plan = (.ok (), after)) : plan.KeepsLoops aspect after := by
  induction ids generalizing plan with
  | nil =>
    cases done
    exact .refl formed
  | cons id rest ih =>
    obtain ⟨_, mid, first, others⟩ := Change.of_bind done
    have kept : plan.KeepsLoops aspect mid := Plan.keeps_demote formed first
    exact kept.trans (ih kept.formed others)

theorem ownsBlocks_demoteEach {ids : List NodeId} (formed : plan.IsFormed)
    (owns : plan.OwnsBlocks) (done : (demoteEach ids).result plan = (.ok (), after)) :
    after.OwnsBlocks := by
  induction ids generalizing plan with
  | nil =>
    cases done
    exact owns
  | cons id rest ih =>
    obtain ⟨_, mid, first, others⟩ := Change.of_bind done
    exact ih (formed.demote first) (owns.demote formed first) others

/-! ## The ninth rule twice -/

theorem nodup_nestedSerialLoops {tree : PlanTree} (distinct : tree.ids.Nodup) :
    (nestedSerialLoops tree).Nodup := (nestedSerialLoops_sublist tree).nodup distinct

theorem mem_nestedSerialLoops {tree : PlanTree} {node : PlanNode} (there : node ∈ tree.nodes)
    (serial : node.IsSerialLoop) (nested : node.id ≠ tree.id) :
    node.id ∈ nestedSerialLoops tree := by
  cases tree with
  | node root children =>
    rw [PlanTree.nodes_node, List.mem_cons] at there
    rcases there with rfl | below
    · exact absurd rfl nested
    · exact List.mem_map_of_mem (List.mem_filter.mpr ⟨below, decide_eq_true serial⟩)

/-- Once the nested loops with one worker are demoted, there are none. -/
theorem not_isSerialLoop_of_demoteEach {node : PlanNode} (distinct : plan.tree.ids.Nodup)
    (done : (demoteEach (nestedSerialLoops plan.tree)).result plan = (.ok (), after))
    (there : node ∈ after.tree.nodes) (nested : node.id ≠ plan.tree.id) : ¬ node.IsSerialLoop := by
  intro serial
  obtain ⟨inside, remains⟩ :=
    mem_of_demoteEach distinct (nodup_nestedSerialLoops distinct) done there serial.1
  exact remains (mem_nestedSerialLoops inside serial nested)

/-- Without nested loops with one worker the ninth rule does nothing. -/
theorem does_unnecessaryLoops
    (parallel : ∀ child ∈ plan.tree.children, ∀ node ∈ child.nodes, ¬ node.IsSerialLoop) :
    runUnnecessaryLoops.Does plan 0 plan := by
  have none : serialLoops (plan.tree.children.flatMap PlanTree.nodes) = [] := by
    refine List.map_eq_nil_iff.mpr (List.filter_eq_nil_iff.mpr fun node listed => ?_)
    obtain ⟨child, there, inside⟩ := List.mem_flatMap.mp listed
    simpa using parallel child there node inside
  have nothing : (demoteSerial plan.tree).result plan = (.ok 0, plan) := by
    rw [demoteSerial_eq, demoteSerialAll_eq, none, demoteAndCount_nil]
    rfl
  exact .bind (.readPlan plan) (.bind (.onPlan nothing)
    (.bind (.say plan _ _) (.pure plan 0)))

end PlanningRule

/-! ## The end of a pass -/

namespace Optimizer

open PlanningRule

variable {α β γ : Type} [Quantity α] {optimizer : Optimizer α} {vars : Variables}
  {plan final : Plan α} {summary : PassSummary α}

namespace Stages

variable (stages : Stages optimizer vars plan final summary)

include stages

/-- A pass ends with the demotion of the nested loops that have one worker. -/
theorem demoted : (demoteEach (nestedSerialLoops stages.budgeted.tree)).result stages.budgeted =
    (.ok (), final) := (of_unnecessaryLoops stages.unnecessaryLoops).1

variable (distinct : stages.split.tree.ids.Nodup)

include distinct

/-- The last rule starts from nodes with distinct ids. -/
theorem distinct_budgeted : stages.budgeted.tree.ids.Nodup :=
  Plan.nodup_of_layout distinct stages.layout_budgeted

theorem root_final : final.tree.root = stages.budgeted.tree.root :=
  root_demoteEach (root_not_mem_nestedSerialLoops (stages.distinct_budgeted distinct))
    stages.demoted

/-- What was decided about the loop stays as it is. -/
theorem decided_final {aspect : Aspect α β γ} :
    final.decided aspect final.tree.id = stages.budgeted.decided aspect stages.budgeted.tree.id := by
  rw [PlanTree.id, stages.root_final distinct]
  exact decided_demoteEach (root_not_mem_nestedSerialLoops (stages.distinct_budgeted distinct))
    stages.demoted

end Stages

/-- The nodes of an optimized plan are numbered again, so that it can be optimized once more. -/
theorem isNumbered_optimize (numbered : plan.tree.IsNumbered)
    (done : (optimizer.optimize vars plan).1 = .ok summary) :
    (optimizer.optimize vars plan).2.plan.tree.IsNumbered := by
  obtain ⟨stages⟩ := exists_stages done
  apply (PlanTree.isNumbered_congr (ids_demoteEach stages.demoted)).mpr
  exact Plan.isNumbered_of_layout (stages.isNumbered_split numbered) stages.layout_budgeted

end Optimizer

end ParallelLoop
