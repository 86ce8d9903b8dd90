/-
# Queries about subtrees

What is asked about a subtree is answered by recursion over it. Three of the answers can be read off
the listing of its nodes, whatever the order. The number of workers cannot: it is the largest
product along a way down from the topmost node to one with nothing below it.

A node with one worker has no part in such a product. So the workers of no subtree change when one
is put in between a node and everything below it, or when a parallel loop with one worker becomes a
sequential one.
-/

import Mathlib.Algebra.BigOperators.Group.List.Basic
import Mathlib.Order.Bounds.Defs
import ParallelLoop.Proofs.Plan.Listing
import ParallelLoop.Word

namespace ParallelLoop

/-! ## Answers in a listing -/

/-- The largest of some counts, zero when there are none. -/
def largestCount (counts : List Nat) : Nat := counts.max?.getD 0

/-- The trip count of a node that is a loop and has one. -/
def PlanNode.loopCount? (node : PlanNode) : Option Nat :=
  if node.kind.isLoop then node.tripCount.toOption else none

/-- The product of the workers of the parallel loops among some nodes, at least one for each. -/
def PlanNode.workersAlong (path : List PlanNode) : Nat :=
  ((path.filter fun node => node.kind = .parfor).map fun node => max node.workers 1).prod

namespace PlanArena

/-- The records of the nodes in a listing. -/
def records (arena : PlanArena) (listing : List NodeId) : List PlanNode :=
  listing.filterMap arena.node?

/-- The records on a way down from a node to one that has nothing below it. -/
inductive WayDown (arena : PlanArena) : NodeId → List PlanNode → Prop
  | leaf {id : NodeId} {node : PlanNode} (row : arena.row? id = some (node, [])) :
      WayDown arena id [node]
  | down {id next : NodeId} {node : PlanNode} {below : List NodeId} {path : List PlanNode}
      (row : arena.row? id = some (node, below)) (listed : next ∈ below)
      (rest : WayDown arena next path) : WayDown arena id (node :: path)

end PlanArena

namespace PlanTree

mutual

/-- Number of workers that can be active at once in the tree, when no product on the way to it
exceeds a machine word. -/
def totalWorkers? : PlanTree → Option Nat
  | node root children => do
    let below ← totalWorkersAll? children
    Word.count? (root.fanOut * below)

/-- Largest number of workers that can be active at once in one of the trees. -/
def totalWorkersAll? : List PlanTree → Option Nat
  | [] => some 1
  | tree :: rest => do
    let workers ← tree.totalWorkers?
    let others ← totalWorkersAll? rest
    return max workers others

end

/-- The answers of a subtree are read off the listing of its nodes and the ways down in it. -/
structure ReadsFrom (subtree : PlanTree) (arena : PlanArena) (listing : List NodeId) : Prop where
  recorded : (arena.records listing).map PlanNode.id = listing
  localOnly : subtree.isLocalOnly = true ↔
    ∀ node ∈ arena.records listing, node.kind = .hop → node.placement ≠ .remote
  nested : subtree.hasNestedParallelism = true ↔
    ∃ node ∈ arena.records listing, node.id ≠ subtree.id ∧ node.kind = .parfor
  problemSize : subtree.maxProblemSize =
    largestCount ((arena.records listing).filterMap PlanNode.loopCount?)
  workers : IsGreatest
    {count | ∃ path, arena.WayDown subtree.id path ∧ PlanNode.workersAlong path = count}
    subtree.totalWorkers
  words : subtree.totalWorkers? = Word.count? subtree.totalWorkers

/-- Number of workers that can be active at once in the subtree of a node. -/
def workersAt? (tree : PlanTree) (id : NodeId) : Option Nat := (tree.find? id).map totalWorkers

/-- The subtrees of the nodes of one tree have the same numbers of workers in another one. -/
def KeepsWorkers (before after : PlanTree) : Prop :=
  ∀ id ∈ before.ids, after.workersAt? id = before.workersAt? id

end PlanTree

/-! ## Largest counts -/

theorem largestCount_cons (count : Nat) (rest : List Nat) :
    largestCount (count :: rest) = max count (largestCount rest) := by
  unfold largestCount
  rw [List.max?_cons]
  cases rest.max? with
  | none => exact (Nat.max_zero count).symm
  | some most => rfl

theorem largestCount_append (counts others : List Nat) :
    largestCount (counts ++ others) = max (largestCount counts) (largestCount others) := by
  induction counts with
  | nil => exact (Nat.zero_max _).symm
  | cons count rest ih =>
    rw [List.cons_append, largestCount_cons, largestCount_cons, ih, Nat.max_assoc]

theorem largestCount_flatMap {γ : Type} (counts : γ → List Nat) (items : List γ) :
    largestCount (items.flatMap counts) =
      (items.map fun item => largestCount (counts item)).foldr max 0 := by
  induction items with
  | nil => rfl
  | cons item rest ih =>
    rw [List.flatMap_cons, largestCount_append, ih, List.map_cons, List.foldr_cons]

namespace Word

variable {factor : Nat}

/-- The larger of two counts is a word exactly when both are. -/
theorem bind_count?_max (first second : Nat) :
    ((count? first).bind fun word => (count? second).bind fun other => some (max word other)) =
      count? (max first second) := by
  unfold count?
  by_cases fits : first ≤ maxCount
  · rw [if_pos fits, Option.bind_some]
    by_cases alsoFits : second ≤ maxCount
    · rw [if_pos alsoFits, Option.bind_some, if_pos (Nat.max_le.mpr ⟨fits, alsoFits⟩)]
    · rw [if_neg alsoFits, Option.bind_none,
        if_neg fun both => alsoFits ((Nat.le_max_right ..).trans both)]
  · rw [if_neg fits, Option.bind_none, if_neg fun both => fits ((Nat.le_max_left ..).trans both)]

/-- A count is a word when a multiple of it is. -/
theorem bind_count?_mul (positive : 1 ≤ factor) (count : Nat) :
    ((count? count).bind fun word => count? (factor * word)) = count? (factor * count) := by
  unfold count?
  by_cases fits : count ≤ maxCount
  · rw [if_pos fits, Option.bind_some]
  · have more : count ≤ factor * count := Nat.le_mul_of_pos_left _ positive
    rw [if_neg fits, Option.bind_none, if_neg fun whole => fits (more.trans whole)]

end Word

namespace PlanNode

theorem largestCount_loopCount? (node : PlanNode) (rest : List PlanNode) :
    largestCount ((node :: rest).filterMap loopCount?) =
      max node.problemSize (largestCount (rest.filterMap loopCount?)) := by
  have size : node.problemSize = node.loopCount?.getD 0 := by
    unfold problemSize loopCount?
    split
    next => cases node.tripCount <;> rfl
    next => rfl
  rw [size]
  cases count : node.loopCount? with
  | none => rw [List.filterMap_cons_none count, Option.getD_none, Nat.zero_max]
  | some trips => rw [List.filterMap_cons_some count, largestCount_cons, Option.getD_some]

theorem workersAlong_cons (node : PlanNode) (path : List PlanNode) :
    workersAlong (node :: path) = node.fanOut * workersAlong path := by
  unfold workersAlong fanOut
  rw [List.filter_cons]
  by_cases loop : node.kind = .parfor
  · rw [if_pos (decide_eq_true loop), if_pos loop, List.map_cons, List.prod_cons]
  · rw [if_neg (by simpa using loop), if_neg loop, Nat.one_mul]

end PlanNode

/-! ## Answers and records -/

namespace PlanTree

variable {tree subtree : PlanTree} {root fresh : PlanNode} {children : List PlanTree}
  {change : PlanNode → PlanNode} {id parent : NodeId}

theorem maxProblemSize_eq_largestCount (tree : PlanTree) :
    tree.maxProblemSize = largestCount (tree.nodes.filterMap PlanNode.loopCount?) := by
  induction tree using induction with
  | node root children ih =>
    rw [maxProblemSize, nodes_node, PlanNode.largestCount_loopCount?, maxProblemSizeAll_eq_foldr,
      List.map_congr_left ih, List.filterMap_flatMap, largestCount_flatMap]

/-- The records in the listing of a subtree are its nodes. -/
theorem records_arena (numbered : tree.IsNumbered) (there : subtree ∈ tree.subtrees) :
    tree.arena.records subtree.ids = subtree.nodes := by
  have record : ∀ node ∈ subtree.nodes, tree.arena.node? node.id = some node := by
    intro node inside
    have found := node?_eq_some numbered.distinct ((nodes_sublist there).subset inside)
    rw [PlanArena.node?, row?_arena numbered, row?, Option.map_map]
    exact found
  rw [PlanArena.records, ids, List.filterMap_map]
  exact (List.filterMap_congr record).trans List.filterMap_some

/-- Parallel loops below the topmost node are those that are not the topmost node. -/
theorem hasNestedParallelism_iff (distinct : tree.ids.Nodup) :
    tree.hasNestedParallelism = true ↔
      ∃ node ∈ tree.nodes, node.id ≠ tree.id ∧ node.kind = .parfor := by
  rw [hasNestedParallelism_eq_any, List.any_eq_true]
  cases tree with
  | node root children =>
    constructor
    · rintro ⟨node, inside, loop⟩
      obtain ⟨child, there, deeper⟩ := List.mem_flatMap.mp inside
      exact ⟨node, mem_nodes_of_child there deeper, id_ne_of_child distinct there deeper,
        beq_iff_eq.mp loop⟩
    · rintro ⟨node, inside, other, loop⟩
      rw [nodes_node] at inside
      rcases List.mem_cons.mp inside with rfl | below
      · exact absurd rfl other
      · exact ⟨node, below, beq_iff_eq.mpr loop⟩

theorem isLocalOnly_iff (tree : PlanTree) :
    tree.isLocalOnly = true ↔ ∀ node ∈ tree.nodes, node.kind = .hop → node.placement ≠ .remote := by
  rw [isLocalOnly_eq_all, List.all_eq_true]
  refine forall₂_congr fun node _ => ?_
  rw [PlanNode.isRemoteHop, Bool.not_eq_true', Bool.and_eq_false_iff, beq_eq_false_iff_ne,
    beq_eq_false_iff_ne]
  exact imp_iff_not_or.symm

/-! ## Workers -/

theorem one_le_totalWorkers (tree : PlanTree) : 1 ≤ tree.totalWorkers := by
  cases tree with
  | node root children =>
    exact Nat.mul_le_mul root.one_le_fanOut (one_le_totalWorkersAll children)

/-- One of the trees has the largest number of workers. -/
theorem exists_totalWorkersAll {trees : List PlanTree} (nonempty : trees ≠ []) :
    ∃ tree ∈ trees, tree.totalWorkers = totalWorkersAll trees := by
  induction trees with
  | nil => exact absurd rfl nonempty
  | cons tree rest ih =>
    rw [totalWorkersAll]
    -- Without trees the largest number is one, which the last tree has at least.
    by_cases last : rest = []
    · subst last
      exact ⟨tree, List.mem_singleton_self tree, (Nat.max_eq_left tree.one_le_totalWorkers).symm⟩
    · obtain ⟨largest, there, most⟩ := ih last
      rcases Nat.le_total (totalWorkersAll rest) tree.totalWorkers with less | more
      · exact ⟨tree, List.mem_cons_self, (Nat.max_eq_left less).symm⟩
      · exact ⟨largest, List.mem_cons_of_mem _ there, most.trans (Nat.max_eq_right more).symm⟩

/-- On every way down from a node, the product of the workers is at most that of its subtree. -/
theorem workersAlong_le (numbered : tree.IsNumbered) {path : List PlanNode}
    (way : tree.arena.WayDown id path) : ∀ subtree ∈ tree.subtrees, subtree.id = id →
      PlanNode.workersAlong path ≤ subtree.totalWorkers := by
  -- Along the way each node multiplies what the rest of the way needs, as the tree does.
  induction way with
  | leaf row =>
    rintro ⟨root, children⟩ there rfl
    rw [row?_arena_of_mem numbered there] at row
    obtain ⟨rfl, -⟩ := Prod.mk.inj (Option.some.inj row)
    rw [PlanNode.workersAlong_cons]
    exact Nat.mul_le_mul_left root.fanOut (one_le_totalWorkersAll children)
  | down row listed _ ih =>
    rintro ⟨root, children⟩ there rfl
    rw [row?_arena_of_mem numbered there] at row
    obtain ⟨rfl, rfl⟩ := Prod.mk.inj (Option.some.inj row)
    obtain ⟨child, under, named⟩ := List.mem_map.mp listed
    have deeper := ih child (child_mem_subtrees there under) named
    rw [PlanNode.workersAlong_cons]
    exact Nat.mul_le_mul_left root.fanOut (deeper.trans (totalWorkers_le_totalWorkersAll under))

/-- On one of the ways down it is that of the subtree. -/
theorem exists_wayDown (numbered : tree.IsNumbered) (there : subtree ∈ tree.subtrees) :
    ∃ path, tree.arena.WayDown subtree.id path ∧
      PlanNode.workersAlong path = subtree.totalWorkers := by
  induction subtree using induction with
  | node root children ih =>
    have row : tree.arena.row? (node root children).id = some (root, children.map PlanTree.id) :=
      row?_arena_of_mem numbered there
    by_cases bare : children = []
    · subst bare
      exact ⟨[root], .leaf row, PlanNode.workersAlong_cons root []⟩
    · obtain ⟨child, under, most⟩ := exists_totalWorkersAll bare
      obtain ⟨path, way, product⟩ := ih child under (child_mem_subtrees there under)
      refine ⟨root :: path, .down row (List.mem_map_of_mem under) way, ?_⟩
      rw [PlanNode.workersAlong_cons, product, most, totalWorkers]

theorem isGreatest_totalWorkers (numbered : tree.IsNumbered) (there : subtree ∈ tree.subtrees) :
    IsGreatest
      {count | ∃ path, tree.arena.WayDown subtree.id path ∧ PlanNode.workersAlong path = count}
      subtree.totalWorkers := by
  refine ⟨exists_wayDown numbered there, ?_⟩
  rintro _ ⟨path, way, rfl⟩
  exact workersAlong_le numbered way subtree there rfl

theorem totalWorkersAll?_eq {trees : List PlanTree}
    (single : ∀ tree ∈ trees, tree.totalWorkers? = Word.count? tree.totalWorkers) :
    totalWorkersAll? trees = Word.count? (totalWorkersAll trees) := by
  induction trees with
  | nil => rfl
  | cons tree rest ih =>
    rw [List.forall_mem_cons] at single
    rw [totalWorkersAll?, single.1, ih single.2, totalWorkersAll]
    exact Word.bind_count?_max _ _

/-- Products exceed a machine word only where the result does. -/
theorem totalWorkers?_eq (tree : PlanTree) :
    tree.totalWorkers? = Word.count? tree.totalWorkers := by
  induction tree using induction with
  | node root children ih =>
    rw [totalWorkers?, totalWorkersAll?_eq ih, totalWorkers]
    exact Word.bind_count?_mul root.one_le_fanOut _

/-- The answers of a subtree agree with the arena. -/
theorem readsFrom_arena (numbered : tree.IsNumbered) (there : subtree ∈ tree.subtrees) :
    subtree.ReadsFrom tree.arena subtree.ids where
  recorded := congrArg (List.map PlanNode.id) (records_arena numbered there)
  localOnly := by rw [records_arena numbered there, isLocalOnly_iff]
  nested := by
    have distinct := numbered.distinct.sublist (ids_sublist there)
    rw [records_arena numbered there, hasNestedParallelism_iff distinct]
  problemSize := by rw [records_arena numbered there, maxProblemSize_eq_largestCount]
  workers := isGreatest_totalWorkers numbered there
  words := totalWorkers?_eq subtree

/-! ## Nodes with one worker -/

theorem workersAt?_of_mem (distinct : tree.ids.Nodup) (there : subtree ∈ tree.subtrees) :
    tree.workersAt? subtree.id = some subtree.totalWorkers := by
  rw [workersAt?, find?_eq_some distinct there, Option.map_some]

section Alter

variable {rebuild : PlanNode → List PlanTree → PlanTree}

theorem totalWorkers_alter
    (same : ∀ root ∈ tree.nodes, root.id = id → ∀ children,
      (rebuild root children).totalWorkers = (node root children).totalWorkers) :
    (tree.alter id rebuild).totalWorkers = tree.totalWorkers := by
  induction tree using induction with
  | node root children ih =>
    rw [nodes_node, List.forall_mem_cons] at same
    rw [alter]
    split
    next here => exact same.1 here children
    next =>
      rw [alterAll_eq_map, totalWorkers, totalWorkers, totalWorkersAll_eq_foldr,
        totalWorkersAll_eq_foldr, List.map_map]
      congr 2
      refine List.map_congr_left fun child there => ih child there fun node inside => ?_
      exact same.2 node (List.mem_flatMap.mpr ⟨child, there, inside⟩)

/-- A node can be rebuilt without any change to the workers when the trees below it stay and its own
subtree has as many workers as before. -/
theorem keepsWorkers_alter (distinct : tree.ids.Nodup) (still : (tree.alter id rebuild).ids.Nodup)
    (keeps : ∀ root children, (rebuild root children).id = root.id)
    (stays : ∀ root children, ∀ child ∈ children, child ∈ (rebuild root children).subtrees)
    (same : ∀ root ∈ tree.nodes, root.id = id → ∀ children,
      (rebuild root children).totalWorkers = (node root children).totalWorkers) :
    tree.KeepsWorkers (tree.alter id rebuild) := by
  intro other inside
  obtain ⟨subtree, there, rfl⟩ := exists_subtree inside
  -- Rebuilt like the whole tree, the subtree is found under the same id, also where the node that
  -- is rebuilt is not in it.
  have named : (subtree.alter id rebuild).id = subtree.id := by
    cases subtree with
    | node root children =>
      rw [alter]
      split
      next => exact keeps root children
      next => rfl
  have rebuilt := workersAt?_of_mem still (alter_mem_subtrees id rebuild distinct stays there)
  have workers : (subtree.alter id rebuild).totalWorkers = subtree.totalWorkers :=
    totalWorkers_alter fun root member => same root ((nodes_sublist there).subset member)
  rw [workersAt?_of_mem distinct there, ← named, rebuilt, workers]

end Alter

theorem totalWorkers_wedge (single : fresh.fanOut = 1) (same : (change root).fanOut = root.fanOut) :
    (wedge fresh change root children).totalWorkers = (node root children).totalWorkers := by
  have below := one_le_totalWorkersAll children
  rw [wedge, totalWorkers, totalWorkersAll, totalWorkersAll, totalWorkers, single, same,
    Nat.one_mul, Nat.max_eq_left below, totalWorkers]

theorem keepsWorkers_wedge (distinct : tree.ids.Nodup)
    (still : (tree.alter id (wedge fresh change)).ids.Nodup)
    (keeps : ∀ node, (change node).id = node.id) (single : fresh.fanOut = 1)
    (same : ∀ node, (change node).fanOut = node.fanOut) :
    tree.KeepsWorkers (tree.alter id (wedge fresh change)) := by
  refine keepsWorkers_alter distinct still (fun root _ => keeps root) (fun root children => ?_)
    fun root _ _ _ => totalWorkers_wedge single (same root)
  intro child there
  exact mem_subtrees_node.mpr
    (.inr ⟨_, List.mem_singleton_self _, mem_subtrees_of_mem_children there⟩)

theorem fanOut_of_workers (single : fresh.workers = 1) : fresh.fanOut = 1 := by
  unfold PlanNode.fanOut
  rw [single]
  exact ite_self 1

theorem keepsWorkers_insertBelow (numbered : tree.IsNumbered) (inside : parent ∈ tree.ids)
    (next : fresh.id = tree.freshId) (single : fresh.workers = 1) :
    tree.KeepsWorkers (tree.insertBelow parent fresh) :=
  keepsWorkers_wedge numbered.distinct (numbered.insertBelow inside next).distinct (fun _ => rfl)
    (fanOut_of_workers single) fun _ => rfl

/-- A record can change in all that the number of its workers does not depend on. -/
theorem keepsWorkers_update (numbered : tree.IsNumbered)
    (keeps : ∀ node, (change node).id = node.id)
    (same : ∀ node, tree.node? id = some node → (change node).fanOut = node.fanOut) :
    tree.KeepsWorkers (tree.update id change) := by
  refine keepsWorkers_alter numbered.distinct (numbered.update keeps id).distinct
    (fun root _ => keeps root) (fun _ _ _ => mem_subtrees_of_mem_children) ?_
  intro root inside here children
  rw [totalWorkers, totalWorkers, same root (here ▸ node?_eq_some numbered.distinct inside)]

/-- A node with one worker can become one that is no parallel loop. -/
theorem keepsWorkers_update_single (numbered : tree.IsNumbered) {node : PlanNode}
    (found : tree.node? id = some node) (single : node.workers = 1)
    (keeps : ∀ node, (change node).id = node.id) (other : ∀ node, (change node).kind ≠ .parfor) :
    tree.KeepsWorkers (tree.update id change) := by
  refine keepsWorkers_update numbered keeps fun record alsoFound => ?_
  obtain rfl := Option.some.inj (found.symm.trans alsoFound)
  exact (if_neg (other node)).trans (fanOut_of_workers single).symm

end PlanTree

namespace Plan

variable {α : Type} {plan after : Plan α} {id inner : NodeId}

/-- The inner loop of a split begins with one worker. -/
theorem keepsWorkers_splitLoop (numbered : plan.tree.IsNumbered) {chunk : Nat} {var : String}
    (done : (splitLoop id chunk var).result plan = (.ok inner, after)) :
    plan.tree.KeepsWorkers after.tree := by
  have still := (nodes_splitLoop numbered done).1.distinct
  obtain ⟨_, _, _, count, _, _, _, -, -, -, -, -, -, -, tree_eq, -⟩ := of_splitLoop done
  rw [tree_eq, PlanTree.update_insertBelow] at still ⊢
  exact PlanTree.keepsWorkers_wedge numbered.distinct still (id_outerNode count (max chunk 1)) rfl
    fun _ => rfl

theorem keepsWorkers_demote (numbered : plan.tree.IsNumbered) {node : PlanNode}
    (found : plan.tree.node? id = some node) (single : node.workers = 1)
    (done : (demote id).result plan = (.ok (), after)) : plan.tree.KeepsWorkers after.tree := by
  obtain ⟨_, _, _, -, -, -, tree_eq, -⟩ := of_demote done
  rw [tree_eq]
  exact PlanTree.keepsWorkers_update_single numbered found single (fun _ => rfl) fun _ => nofun

/-- In every plan that operations lead to, the tree is stored in an arena that they lead to, as long
as there are ids for all nodes, and the answers of a subtree are read off the listing of its nodes
and the ways down in it. The workers of no subtree change when a node with one worker and an id of
its own is put in between a node and everything below it, as a split does, or when a parallel loop
with one worker becomes a sequential one, as in a demotion. -/
theorem queries_follow_listing (reached : plan.IsReached) (bound : plan.tree.size ≤ idLimit) :
    plan.tree.arena.IsReached ∧
    (∀ id ∈ plan.tree.ids, ∃ subtree listing, plan.tree.find? id = some subtree ∧
      plan.tree.arena.descendants id = some listing ∧
        subtree.ReadsFrom plan.tree.arena listing) ∧
    (∀ parent ∈ plan.tree.ids, ∀ fresh : PlanNode, plan.tree.size < idLimit →
      fresh.id = plan.tree.arena.freshId → fresh.workers = 1 →
        plan.tree.KeepsWorkers (plan.tree.insertBelow parent fresh)) ∧
    (∀ id node, plan.tree.node? id = some node → node.kind = .parfor → node.workers = 1 →
      plan.tree.KeepsWorkers (plan.tree.update id fun node => { node with kind := .for })) ∧
    (∀ id chunk var inner after, plan.tree.size < idLimit →
      (splitLoop id chunk var).result plan = (.ok inner, after) →
        inner = plan.tree.arena.freshId ∧ plan.tree.KeepsWorkers after.tree) ∧
    ∀ id node after, plan.tree.node? id = some node → node.workers = 1 →
      (demote id).result plan = (.ok (), after) → plan.tree.KeepsWorkers after.tree := by
  have numbered := reached.isStored.numbered
  refine ⟨reached.isStored.reached bound, fun id inside => ?_,
    fun parent inside fresh room next single => ?_, fun id node found _ single => ?_,
    fun id chunk var inner after room done => ⟨?_, ?_⟩, fun id node after found single done => ?_⟩
  · obtain ⟨subtree, there, rfl⟩ := PlanTree.exists_subtree inside
    have found := PlanTree.find?_eq_some numbered.distinct there
    refine ⟨subtree, subtree.ids, found, ?_, PlanTree.readsFrom_arena numbered there⟩
    rw [PlanTree.descendants_arena numbered, found, Option.map_some]
  · rw [PlanTree.freshId_arena numbered room] at next
    exact PlanTree.keepsWorkers_insertBelow numbered inside next single
  · exact PlanTree.keepsWorkers_update_single numbered found single (fun _ => rfl) fun _ => nofun
  · rw [PlanTree.freshId_arena numbered room]
    exact inner_eq_of_splitLoop done
  · exact keepsWorkers_splitLoop numbered done
  · exact keepsWorkers_demote numbered found single done

/-- A loop with four workers and an operator below it, split into chunks of four. -/
def fourAtOnce : Plan Rat :=
  let grown := ((addHopNode ⟨0⟩ ⟨0⟩ .remote).result tenTimes).2
  let shared := (((Operation.setWorkers 4).run ⟨0⟩).result grown).2
  (((Operation.splitLoop 4 "p").run ⟨0⟩).result shared).2

theorem isReached_fourAtOnce : fourAtOnce.IsReached := by
  have top : (⟨0⟩ : NodeId) ∈ tenTimes.tree.ids := by decide
  have grown := isReached_tenTimes.addHopNode top ⟨0⟩ .remote
  exact (grown.run (.setWorkers 4) ⟨0⟩).run (.splitLoop 4 "p") ⟨0⟩

/-- The inner loop has one worker: it can be split or demoted, and another node with one worker can
come in below it. -/
theorem queries_follow_listing_fourAtOnce :
    fourAtOnce.tree.arena.IsReached ∧ fourAtOnce.tree.arena.freshId = ⟨3⟩ ∧
    (∃ subtree, fourAtOnce.tree.find? ⟨0⟩ = some subtree ∧ subtree.totalWorkers = 4 ∧
      subtree.ReadsFrom fourAtOnce.tree.arena [⟨0⟩, ⟨2⟩, ⟨1⟩]) ∧
    fourAtOnce.tree.KeepsWorkers (fourAtOnce.tree.insertBelow ⟨2⟩
      { id := ⟨3⟩, kind := .parfor, placement := .inProcess }) ∧
    fourAtOnce.tree.KeepsWorkers
      (fourAtOnce.tree.update ⟨2⟩ fun node => { node with kind := .for }) ∧
    (∃ after, (splitLoop ⟨2⟩ 2 "q").result fourAtOnce = (.ok ⟨3⟩, after) ∧
      fourAtOnce.tree.KeepsWorkers after.tree) ∧
    ∃ after, (demote ⟨2⟩).result fourAtOnce = (.ok (), after) ∧
      fourAtOnce.tree.KeepsWorkers after.tree := by
  have room : fourAtOnce.tree.size < idLimit := by decide +kernel
  obtain ⟨arena, answers, inserting, turning, splitting, demoting⟩ :=
    queries_follow_listing isReached_fourAtOnce room.le
  have next : fourAtOnce.tree.arena.freshId = ⟨3⟩ := by decide +kernel
  have inner : fourAtOnce.tree.node? ⟨2⟩ = some
      { id := ⟨2⟩, kind := .parfor, placement := .inProcess, block := some ⟨1⟩
        parameters := { numIterations := some "4" } } := by decide +kernel
  obtain ⟨_, divided⟩ := Change.result_eq_ok
    (show ((splitLoop ⟨2⟩ 2 "q").result fourAtOnce).1.isOk = true by decide +kernel)
  obtain ⟨_, demoted⟩ := Change.result_eq_ok
    (show ((demote ⟨2⟩).result fourAtOnce).1.isOk = true by decide +kernel)
  obtain ⟨rfl, kept⟩ := splitting ⟨2⟩ 2 "q" _ _ room divided
  refine ⟨arena, next, ?_, inserting ⟨2⟩ (by decide +kernel) _ room next.symm rfl,
    turning ⟨2⟩ _ inner rfl rfl, ⟨_, next ▸ divided, kept⟩,
    ⟨_, demoted, demoting ⟨2⟩ _ _ inner rfl demoted⟩⟩
  obtain ⟨subtree, listing, found, listed, reads⟩ := answers ⟨0⟩ (by decide +kernel)
  have numbered := isReached_fourAtOnce.isStored.numbered
  -- The listing is taken from the subtree, not from a run of the loop over a stack.
  rw [PlanTree.descendants_arena numbered] at listed
  have ids : (fourAtOnce.tree.find? ⟨0⟩).map PlanTree.ids = some [⟨0⟩, ⟨2⟩, ⟨1⟩] := by
    decide +kernel
  have workers : fourAtOnce.tree.workersAt? ⟨0⟩ = some 4 := by decide +kernel
  rw [PlanTree.workersAt?, found] at workers
  obtain rfl := Option.some.inj (listed.symm.trans ids)
  exact ⟨subtree, found, Option.some.inj workers, reads⟩

end Plan

end ParallelLoop
