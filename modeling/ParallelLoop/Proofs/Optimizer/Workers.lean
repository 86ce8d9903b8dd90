/-
# Distributing workers

Distributing a budget of workers changes nothing of a tree but the workers of the nodes
below the one where it starts. `PlanTree.IsShared` says which workers these are: a loop with
`k` of `limit` workers hands `limit / k` down to its body, and where nothing is left to hand
down every loop has one. As `k` times `limit / k` is within the limit again, all workers
of a tree together are, at every level.

A distribution reads a tree while it changes the plan. The changes made for one tree do
not touch the trees beside it, so each of these is still what was read.
-/

import ParallelLoop.Proofs.Optimizer.Rules

namespace ParallelLoop

/-! ## Assigning workers -/

namespace PlanNode

/-- The record of a node with the workers that are assigned to its id, if there are any. -/
def assign (workers : NodeId → Option Nat) (node : PlanNode) : PlanNode :=
  { node with workers := (workers node.id).getD node.workers }

theorem assign_comp (later earlier : NodeId → Option Nat) :
    assign later ∘ assign earlier = assign fun id => (later id).or (earlier id) := by
  funext node
  simp only [Function.comp_apply, assign]
  cases later node.id <;> rfl

theorem assign_eq_self {workers : NodeId → Option Nat} {node : PlanNode}
    (none : workers node.id = none) : node.assign workers = node := by
  rw [assign, none, Option.getD_none]

end PlanNode

namespace PlanTree

variable {tree : PlanTree} {workers other : NodeId → Option Nat}

theorem mapNodes_assign_eq_self (outside : ∀ id ∈ tree.ids, workers id = none) :
    tree.mapNodes (PlanNode.assign workers) = tree :=
  mapNodes_eq_self fun node member =>
    PlanNode.assign_eq_self (outside node.id (List.mem_map_of_mem member))

theorem mapNodes_assign_congr (same : ∀ id ∈ tree.ids, workers id = other id) :
    tree.mapNodes (PlanNode.assign workers) = tree.mapNodes (PlanNode.assign other) := by
  refine mapNodes_congr fun node member => ?_
  rw [PlanNode.assign, PlanNode.assign, same node.id (List.mem_map_of_mem member)]

theorem ids_mapNodes_assign (tree : PlanTree) :
    (tree.mapNodes (PlanNode.assign workers)).ids = tree.ids :=
  ids_mapNodes (fun _ => by rfl) tree

end PlanTree

/-- Workers for a single node. -/
def onlyWorkers (id : NodeId) (workers : Nat) : NodeId → Option Nat :=
  fun other => if other = id then some workers else none

/-- One worker for each parallel loop among the nodes. -/
def serialWorkers (nodes : List PlanNode) : NodeId → Option Nat :=
  fun id => if ∃ node ∈ nodes, node.id = id ∧ node.kind = .parfor then some 1 else none

namespace Plan

variable {α : Type} {plan after : Plan α} {id : NodeId}

theorem tree_setWorkers {workers : Nat} (distinct : plan.tree.ids.Nodup)
    (done : (setWorkers id workers).result plan = (.ok (), after)) :
    after.tree = plan.tree.mapNodes (PlanNode.assign (onlyWorkers id workers)) := by
  obtain ⟨_, mid, settings, record⟩ := Change.of_bind done
  have tree_eq := (preserves_tree_updateSettings id _).eq settings
  cases record
  dsimp only
  rw [tree_eq, PlanTree.update_eq_mapNodes distinct]
  refine PlanTree.mapNodes_congr fun node _ => ?_
  unfold PlanNode.assign onlyWorkers
  split <;> rfl

theorem tree_serializeNodes {nodes : List PlanNode} (distinct : plan.tree.ids.Nodup)
    (done : (serializeNodes nodes).result plan = (.ok (), after)) :
    after.tree = plan.tree.mapNodes (PlanNode.assign (serialWorkers nodes)) := by
  induction nodes generalizing plan with
  | nil =>
    cases done
    exact (PlanTree.mapNodes_assign_eq_self fun id _ => by simp [serialWorkers]).symm
  | cons node rest ih =>
    unfold serializeNodes at done
    split at done
    next loop =>
      obtain ⟨_, mid, set, others⟩ := Change.of_bind done
      have first := tree_setWorkers distinct set
      -- Later workers win over earlier ones, but all of them are one.
      have second := ih (by rwa [first, PlanTree.ids_mapNodes_assign]) others
      rw [second, first, PlanTree.mapNodes_mapNodes, PlanNode.assign_comp]
      refine PlanTree.mapNodes_assign_congr fun id _ => ?_
      unfold serialWorkers onlyWorkers
      by_cases same : id = node.id
      · have found : ∃ other ∈ node :: rest, other.id = id ∧ other.kind = .parfor :=
          ⟨node, List.mem_cons_self .., same.symm, loop⟩
        rw [if_pos same, if_pos found]
        split <;> rfl
      · rw [if_neg same, Option.or_none]
        simp [Ne.symm same]
    next other =>
      rw [ih distinct done]
      refine PlanTree.mapNodes_assign_congr fun id _ => ?_
      simp [serialWorkers, other]

theorem tree_serialize {tree : PlanTree} (distinct : plan.tree.ids.Nodup)
    (member : tree ∈ plan.tree.subtrees)
    (done : (serialize tree.id).result plan = (.ok (), after)) :
    after.tree = plan.tree.mapNodes (PlanNode.assign (serialWorkers tree.nodes)) := by
  have done := Change.of_get_bind done
  rw [PlanTree.find?_eq_some distinct member] at done
  exact tree_serializeNodes distinct done

/-- Every loop in a tree that was made serial has one worker. -/
theorem workers_serial {tree : PlanTree} {node : PlanNode}
    (there : node ∈ (tree.mapNodes (PlanNode.assign (serialWorkers tree.nodes))).nodes)
    (loop : node.kind = .parfor) : node.workers = 1 := by
  rw [PlanTree.nodes_mapNodes] at there
  obtain ⟨twin, inside, rfl⟩ := List.mem_map.mp there
  have found : ∃ other ∈ tree.nodes, other.id = twin.id ∧ other.kind = .parfor :=
    ⟨twin, inside, rfl, loop⟩
  rw [PlanNode.assign, serialWorkers, if_pos found, Option.getD_some]

end Plan

/-! ## Distributing a budget -/

/-- What a loop hands down: the limit divided by its workers, rounded down after all. -/
theorem remainingShare_eq {limit workers : Nat} (positive : 0 < workers)
    (within : workers ≤ limit) :
    PlanningRule.remainingShare limit workers = .ok (limit / workers) := by
  rw [PlanningRule.remainingShare, if_pos within, divideUp]
  congr 2
  omega

theorem one_le_workersFor (iterations limit : Nat) :
    1 ≤ PlanningRule.workersFor iterations limit := Nat.le_max_right ..

theorem workersFor_le {limit : Nat} (iterations : Nat) (positive : 1 ≤ limit) :
    PlanningRule.workersFor iterations limit ≤ limit :=
  Nat.max_le.mpr ⟨Nat.min_le_right .., positive⟩

/-- What a loop uses and hands down is within the limit. -/
theorem mul_share_le {limit workers : Nat} (positive : 1 ≤ workers) (within : workers ≤ limit) :
    workers * max (limit / workers) 1 ≤ max limit 1 := by
  rw [Nat.max_eq_left (Nat.div_pos within positive)]
  exact Nat.le_trans (Nat.mul_div_le limit workers) (Nat.le_max_left ..)

namespace PlanTree

/-- The workers of the loops in a tree are those that a budget provides. -/
inductive IsShared : Nat → PlanTree → Prop
  | spent {limit : Nat} {tree : PlanTree} (none : limit ≤ 1)
      (serial : ∀ node ∈ tree.nodes, node.kind = .parfor → node.workers = 1) : IsShared limit tree
  | loop {limit iterations : Nat} {root : PlanNode} {children : List PlanTree} (some : 1 < limit)
      (parallel : root.kind = .parfor) (counted : root.tripCount = .ok iterations)
      (own : root.workers = PlanningRule.workersFor iterations limit)
      (below : ∀ child ∈ children, IsShared (limit / root.workers) child) :
      IsShared limit (.node root children)
  | other {limit : Nat} {root : PlanNode} {children : List PlanTree} (some : 1 < limit)
      (sequential : root.kind ≠ .parfor) (below : ∀ child ∈ children, IsShared limit child) :
      IsShared limit (.node root children)

/-- The workers of a node are those of the trees below it, as often as it fans out. -/
theorem totalWorkers_node_le {root : PlanNode} {children : List PlanTree} {share : Nat}
    (below : ∀ child ∈ children, child.totalWorkers ≤ max share 1) :
    (node root children).totalWorkers ≤ root.fanOut * max share 1 := by
  rw [totalWorkers]
  exact Nat.mul_le_mul_left _ (totalWorkersAll_le.mpr ⟨Nat.le_max_right .., below⟩)

/-- All workers of a tree are within its budget. -/
theorem IsShared.totalWorkers_le {limit : Nat} {tree : PlanTree} (shared : tree.IsShared limit) :
    tree.totalWorkers ≤ max limit 1 := by
  induction shared with
  | @spent limit tree none serial =>
    have single : tree.totalWorkers = 1 := totalWorkers_eq_one fun node there => by
      unfold PlanNode.fanOut
      split
      next loop => rw [serial node there loop]; rfl
      next => rfl
    rw [single]
    exact Nat.le_max_right ..
  | @loop limit iterations root children some parallel counted own below ih =>
    have positive : 1 ≤ root.workers := own ▸ one_le_workersFor iterations limit
    have within : root.workers ≤ limit := own ▸ workersFor_le iterations (by omega)
    have fanOut : root.fanOut = root.workers := (if_pos parallel).trans (Nat.max_eq_left positive)
    have total := @totalWorkers_node_le root children _ ih
    rw [fanOut] at total
    -- Each worker of the loop has the part of the limit that is left for it.
    exact Nat.le_trans total (mul_share_le positive within)
  | @other limit root children some sequential below ih =>
    have alone : root.fanOut = 1 := if_neg sequential
    have total := @totalWorkers_node_le root children _ ih
    rwa [alone, Nat.one_mul] at total

end PlanTree

namespace PlanningRule

open PlanTree

variable {α : Type} {plan after : Plan α} {tree : PlanTree} {trees : List PlanTree} {limit : Nat}
  {workers : NodeId → Option Nat}

/-- The plan afterwards has other workers at some of these trees: those that the budget provides. -/
structure Distributed (limit : Nat) (trees : List PlanTree) (plan after : Plan α)
    (workers : NodeId → Option Nat) : Prop where
  tree_eq : after.tree = plan.tree.mapNodes (PlanNode.assign workers)
  outside : ∀ id ∉ trees.flatMap ids, workers id = none
  shared : ∀ tree ∈ trees, (tree.mapNodes (PlanNode.assign workers)).IsShared limit

/-- A subtree that was not touched is still there. -/
theorem mem_subtrees_of_outside
    (tree_eq : after.tree = plan.tree.mapNodes (PlanNode.assign workers))
    (member : tree ∈ plan.tree.subtrees) (outside : ∀ id ∈ tree.ids, workers id = none) :
    tree ∈ after.tree.subtrees := by
  rw [tree_eq, ← mapNodes_assign_eq_self outside]
  exact mapNodes_mem_subtrees member

theorem Distributed.distinct (distributed : Distributed limit trees plan after workers)
    (distinct : plan.tree.ids.Nodup) : after.tree.ids.Nodup := by
  rwa [distributed.tree_eq, ids_mapNodes_assign]

/-- Distributing among the first tree and then among those beside it. -/
theorem Distributed.cons {mid : Plan α} {rest : List PlanTree} {others : NodeId → Option Nat}
    (first : Distributed limit [tree] plan mid workers)
    (second : Distributed limit rest mid after others)
    (apart : tree.ids.Disjoint (rest.flatMap ids)) :
    Distributed limit (tree :: rest) plan after fun id => (others id).or (workers id) where
  tree_eq := by
    rw [second.tree_eq, first.tree_eq, mapNodes_mapNodes, PlanNode.assign_comp]
  outside id absent := by
    rw [List.flatMap_cons, List.mem_append, not_or] at absent
    rw [second.outside id absent.2, first.outside id (by simpa using absent.1)]
    rfl
  shared := by
    intro other member
    rcases List.mem_cons.mp member with rfl | later
    · have same : other.mapNodes (PlanNode.assign fun id => (others id).or (workers id)) =
          other.mapNodes (PlanNode.assign workers) :=
        mapNodes_assign_congr fun id inside => by
          rw [second.outside id (apart inside), Option.none_or]
      rw [same]
      exact first.shared other (List.mem_singleton_self other)
    -- What the first tree got does not reach the trees beside it.
    · have same : other.mapNodes (PlanNode.assign fun id => (others id).or (workers id)) =
          other.mapNodes (PlanNode.assign others) := by
        refine mapNodes_assign_congr fun id inside => ?_
        have below : id ∈ rest.flatMap ids := List.mem_flatMap.mpr ⟨other, later, inside⟩
        have absent : id ∉ [tree].flatMap ids := by
          simpa using fun inTree => apart inTree below
        rw [first.outside id absent, Option.or_none]
      rw [same]
      exact second.shared other later

/-- Distributing among trees, when distributing in each of them is known. -/
theorem distributed_of_all
    (single : ∀ tree ∈ trees, ∀ plan after : Plan α, plan.tree.ids.Nodup →
      tree ∈ plan.tree.subtrees → (distribute limit tree).result plan = (.ok (), after) →
        ∃ workers, Distributed limit [tree] plan after workers)
    (distinct : plan.tree.ids.Nodup) (members : ∀ tree ∈ trees, tree ∈ plan.tree.subtrees)
    (apart : (trees.flatMap ids).Nodup)
    (done : (distributeAll limit trees).result plan = (.ok (), after)) :
    ∃ workers, Distributed limit trees plan after workers := by
  induction trees generalizing plan with
  | nil =>
    cases done
    exact ⟨fun _ => none, (mapNodes_assign_eq_self fun _ _ => rfl).symm, fun _ _ => rfl, by simp⟩
  | cons tree rest ih =>
    rw [List.forall_mem_cons] at single members
    rw [List.flatMap_cons, List.nodup_append'] at apart
    obtain ⟨-, apartRest, disjoint⟩ := apart
    obtain ⟨_, mid, head, tail⟩ := Change.of_bind done
    obtain ⟨workers, first⟩ := single.1 plan mid distinct members.1 head
    -- The trees beside the first one are still what was read.
    have still (other : PlanTree) (there : other ∈ rest) : other ∈ mid.tree.subtrees := by
      refine mem_subtrees_of_outside first.tree_eq (members.2 other there) fun id inside => ?_
      refine first.outside id fun touched => ?_
      have inTree : id ∈ tree.ids := by simpa using touched
      exact disjoint inTree (List.mem_flatMap.mpr ⟨other, there, inside⟩)
    obtain ⟨others, second⟩ := ih single.2 (first.distinct distinct) still apartRest tail
    exact ⟨_, first.cons second disjoint⟩

/-- A node below a loop gets its workers from what the loop hands down. -/
theorem mapNodes_below_loop {root : PlanNode} {children : List PlanTree} {child : PlanTree}
    {own : Nat} {others : NodeId → Option Nat} (apart : root.id ∉ children.flatMap ids)
    (there : child ∈ children) :
    child.mapNodes (PlanNode.assign fun id => (others id).or (onlyWorkers root.id own id)) =
      child.mapNodes (PlanNode.assign others) := by
  refine mapNodes_assign_congr fun id inside => ?_
  have different : id ≠ root.id := by
    rintro rfl
    exact apart (List.mem_flatMap.mpr ⟨child, there, inside⟩)
  rw [onlyWorkers, if_neg different, Option.or_none]

/-- A loop itself keeps the workers that it gets before its body does. -/
theorem assign_loop {root : PlanNode} {children : List PlanTree} {mid : Plan α} {own share : Nat}
    {others : NodeId → Option Nat} (apart : root.id ∉ children.flatMap ids)
    (below : Distributed share children mid after others) :
    root.assign (fun id => (others id).or (onlyWorkers root.id own id)) =
      { root with workers := own } := by
  rw [PlanNode.assign, below.outside root.id apart, onlyWorkers, if_pos rfl]
  rfl

/-- Giving a loop its workers and then distributing its share, when distributing in each of the
trees below it is known. -/
theorem exists_distributed_below {root : PlanNode} {children : List PlanTree} {mid : Plan α}
    {own share : Nat}
    (single : ∀ child ∈ children, ∀ plan after : Plan α, plan.tree.ids.Nodup →
      child ∈ plan.tree.subtrees → (distribute share child).result plan = (.ok (), after) →
        ∃ workers, Distributed share [child] plan after workers)
    (distinct : plan.tree.ids.Nodup) (member : node root children ∈ plan.tree.subtrees)
    (set : (Plan.setWorkers root.id own).result plan = (.ok (), mid))
    (done : (distributeAll share children).result mid = (.ok (), after)) :
    ∃ others, Distributed share children mid after others ∧ root.id ∉ children.flatMap ids ∧
      after.tree = plan.tree.mapNodes
        (PlanNode.assign fun id => (others id).or (onlyWorkers root.id own id)) := by
  have apart : (node root children).ids.Nodup := distinct.sublist (ids_sublist member)
  obtain ⟨rootApart, apartBelow⟩ := List.nodup_cons.mp (ids_node root children ▸ apart)
  have tree_eq := Plan.tree_setWorkers distinct set
  -- The trees below the loop are not changed by what the loop gets.
  have still (child : PlanTree) (there : child ∈ children) : child ∈ mid.tree.subtrees := by
    have before := mem_subtrees_trans (mem_subtrees_of_mem_children there) member
    refine mem_subtrees_of_outside tree_eq before fun id inside => if_neg ?_
    rintro rfl
    exact rootApart (List.mem_flatMap.mpr ⟨child, there, inside⟩)
  have distinctMid : mid.tree.ids.Nodup := by rwa [tree_eq, ids_mapNodes_assign]
  obtain ⟨others, below⟩ := distributed_of_all single distinctMid still apartBelow done
  refine ⟨others, below, rootApart, ?_⟩
  rw [below.tree_eq, tree_eq, mapNodes_mapNodes, PlanNode.assign_comp]

/-- A loop and its body with the workers that they got. -/
theorem mapNodes_loop {root : PlanNode} {children : List PlanTree} {mid : Plan α} {own share : Nat}
    {others : NodeId → Option Nat} (apart : root.id ∉ children.flatMap ids)
    (below : Distributed share children mid after others) :
    (node root children).mapNodes
        (PlanNode.assign fun id => (others id).or (onlyWorkers root.id own id)) =
      node { root with workers := own } (children.map (mapNodes (PlanNode.assign others))) := by
  rw [mapNodes_node, assign_loop apart below]
  congr 1
  exact List.map_congr_left fun child there => mapNodes_below_loop apart there

/-- Distributing a budget in a tree shares it. -/
theorem exists_distributed (distinct : plan.tree.ids.Nodup) (member : tree ∈ plan.tree.subtrees)
    (done : (distribute limit tree).result plan = (.ok (), after)) :
    ∃ workers, Distributed limit [tree] plan after workers := by
  induction tree using induction generalizing limit plan after with
  | node root children ih =>
    unfold distribute at done
    split at done
    -- Nothing is left to distribute: every loop from here on gets one worker.
    next spent =>
      refine ⟨_, Plan.tree_serialize distinct member done, fun id absent => ?_, ?_⟩
      · rw [List.flatMap_singleton] at absent
        refine if_neg ?_
        rintro ⟨node, there, rfl, -⟩
        exact absent (List.mem_map_of_mem there)
      · rw [List.forall_mem_singleton]
        exact .spent spent fun node there loop => Plan.workers_serial there loop
    next some =>
      split at done
      -- A loop takes its workers and hands down its share of the limit.
      next parallel =>
        obtain ⟨iterations, found, counted⟩ := Change.of_ofExcept_bind done
        obtain ⟨_, mid, set, shared⟩ := Change.of_bind counted
        have own := workersFor_le iterations (show 1 ≤ limit by omega)
        rw [remainingShare_eq (one_le_workersFor iterations limit) own] at shared
        obtain ⟨others, below, apart, tree_eq⟩ := exists_distributed_below
          (fun child there _ _ => ih child there) distinct member set shared
        refine ⟨_, tree_eq, fun id absent => ?_, ?_⟩
        · rw [List.flatMap_singleton, ids_node, List.mem_cons, not_or] at absent
          rw [below.outside id absent.2, onlyWorkers, if_neg absent.1]
          rfl
        · rw [List.forall_mem_singleton, mapNodes_loop apart below]
          have trips : { root with workers := workersFor iterations limit }.tripCount =
              root.tripCount := PlanNode.tripCount_congr rfl rfl
          exact .loop (by omega) parallel (trips.trans found) rfl
            (List.forall_mem_map.mpr below.shared)
      -- Any other node hands down the limit as it is.
      next other =>
        have apart : (node root children).ids.Nodup := distinct.sublist (ids_sublist member)
        have apartBelow := (List.nodup_cons.mp (ids_node root children ▸ apart)).2
        have members (child : PlanTree) (there : child ∈ children) : child ∈ plan.tree.subtrees :=
          mem_subtrees_trans (mem_subtrees_of_mem_children there) member
        obtain ⟨workers, below⟩ := distributed_of_all (fun child there _ _ => ih child there)
          distinct members apartBelow done
        refine ⟨workers, below.tree_eq, fun id absent => below.outside id ?_, ?_⟩
        · rw [List.flatMap_singleton, ids_node, List.mem_cons, not_or] at absent
          exact absent.2
        · rw [List.forall_mem_singleton, mapNodes_node]
          exact .other (by omega) other (List.forall_mem_map.mpr below.shared)

end PlanningRule

end ParallelLoop
