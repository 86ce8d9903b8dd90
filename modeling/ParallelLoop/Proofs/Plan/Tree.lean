/-
# Trees by their nodes

All changes of a plan tree but its growth are changes of node records: `mapNodes`
applies one to every node, and a change of the node with one id is a case of it as
long as ids are distinct. What a function of trees computes from the records alone
does not depend on the changes that leave these alone.

Ids are distinct because nodes are numbered when they are created. `IsNumbered` says
so together with the bound that makes the next id fresh.
-/

import Mathlib.Data.List.Nodup
import ParallelLoop.Plan.Tree

namespace ParallelLoop

/-- The trip count of a node is read from one text of its record. -/
theorem PlanNode.tripCount_congr {node other : PlanNode} (id_eq : other.id = node.id)
    (text_eq : other.parameters.numIterations = node.parameters.numIterations) :
    other.tripCount = node.tripCount := by
  unfold tripCount param? NodeParameters.get?
  rw [id_eq, text_eq]

theorem PlanNode.one_le_fanOut (node : PlanNode) : 1 ≤ node.fanOut := by
  unfold fanOut
  split
  next => exact Nat.le_max_right ..
  next => exact Nat.le_refl 1

namespace PlanTree

variable {tree subtree child : PlanTree} {root fresh : PlanNode} {children : List PlanTree}
  {change other : PlanNode → PlanNode} {id : NodeId}

section Induction

variable {motive : PlanTree → Prop}

mutual

/-- What holds of a node when it holds of the trees below it holds of every tree. -/
theorem induction
    (node : ∀ root children, (∀ child ∈ children, motive child) → motive (.node root children)) :
    ∀ tree, motive tree
  | .node root children => node root children (inductionAll node children)

theorem inductionAll
    (node : ∀ root children, (∀ child ∈ children, motive child) → motive (.node root children)) :
    ∀ trees : List PlanTree, ∀ child ∈ trees, motive child
  | [] => List.forall_mem_nil motive
  | tree :: rest => List.forall_mem_cons.mpr ⟨induction node tree, inductionAll node rest⟩

end

end Induction

/-! ## Nodes in order -/

theorem subtreesAll_eq_flatMap (trees : List PlanTree) :
    subtreesAll trees = trees.flatMap subtrees := by
  induction trees with
  | nil => rfl
  | cons tree rest ih => rw [subtreesAll_cons, ih, List.flatMap_cons]

theorem nodes_node (root : PlanNode) (children : List PlanTree) :
    (node root children).nodes = root :: children.flatMap nodes := by
  unfold nodes
  rw [subtrees_node, List.map_cons, subtreesAll_eq_flatMap, List.map_flatMap]
  rfl

/-- The ids of all nodes. -/
def ids (tree : PlanTree) : List NodeId := tree.nodes.map PlanNode.id

theorem ids_node (root : PlanNode) (children : List PlanTree) :
    (node root children).ids = root.id :: children.flatMap ids := by
  unfold ids
  rw [nodes_node, List.map_cons, List.map_flatMap]

theorem exists_eq_node (tree : PlanTree) : ∃ root children, tree = node root children := by
  cases tree with
  | node root children => exact ⟨root, children, rfl⟩

theorem ids_eq_cons (tree : PlanTree) : tree.ids = tree.id :: tree.children.flatMap ids := by
  cases tree with
  | node root children => exact ids_node root children

theorem sizeAll_eq {trees : List PlanTree}
    (single : ∀ tree ∈ trees, tree.size = tree.nodes.length) :
    sizeAll trees = (trees.flatMap nodes).length := by
  induction trees with
  | nil => rfl
  | cons tree rest ih =>
    rw [List.forall_mem_cons] at single
    rw [sizeAll, List.flatMap_cons, List.length_append, single.1, ih single.2]

theorem size_eq (tree : PlanTree) : tree.size = tree.nodes.length := by
  induction tree using induction with
  | node root children ih =>
    rw [size, nodes_node, sizeAll_eq ih, List.length_cons, Nat.add_comm]

theorem self_mem_subtrees (tree : PlanTree) : tree ∈ tree.subtrees := by
  cases tree with
  | node root children => exact List.mem_cons_self ..

theorem mem_subtrees_node :
    subtree ∈ (node root children).subtrees ↔
      subtree = node root children ∨ ∃ child ∈ children, subtree ∈ child.subtrees := by
  rw [subtrees_node, List.mem_cons, subtreesAll_eq_flatMap, List.mem_flatMap]

/-- The subtrees of a subtree are subtrees. -/
theorem mem_subtrees_trans {inner : PlanTree} (below : inner ∈ subtree.subtrees)
    (member : subtree ∈ tree.subtrees) : inner ∈ tree.subtrees := by
  induction tree using induction with
  | node root children ih =>
    rcases mem_subtrees_node.mp member with rfl | ⟨child, there, deeper⟩
    · exact below
    · exact mem_subtrees_node.mpr (.inr ⟨child, there, ih child there deeper⟩)

theorem mem_subtrees_of_mem_children (there : child ∈ children) :
    child ∈ (node root children).subtrees :=
  mem_subtrees_node.mpr (.inr ⟨child, there, self_mem_subtrees child⟩)

theorem mem_subtrees_of_child (there : child ∈ tree.children) : child ∈ tree.subtrees := by
  cases tree with
  | node root children => exact mem_subtrees_of_mem_children there

theorem root_mem_nodes (tree : PlanTree) : tree.root ∈ tree.nodes :=
  List.mem_map_of_mem (self_mem_subtrees tree)

theorem nodes_sublist (member : subtree ∈ tree.subtrees) :
    subtree.nodes.Sublist tree.nodes := by
  induction tree using induction with
  | node root children ih =>
    rcases mem_subtrees_node.mp member with rfl | ⟨child, there, deeper⟩
    · exact List.Sublist.refl _
    · rw [nodes_node]
      apply List.Sublist.cons
      apply (ih child there deeper).trans
      exact List.sublist_flatten_of_mem (List.mem_map_of_mem there)

/-! ## Changes of all nodes -/

mutual

/-- Changes the records of all nodes. -/
def mapNodes (change : PlanNode → PlanNode) : PlanTree → PlanTree
  | node root children => node (change root) (mapNodesAll change children)

/-- Changes the records of all nodes of all trees. -/
def mapNodesAll (change : PlanNode → PlanNode) : List PlanTree → List PlanTree
  | [] => []
  | tree :: rest => mapNodes change tree :: mapNodesAll change rest

end

theorem mapNodesAll_eq_map (trees : List PlanTree) :
    mapNodesAll change trees = trees.map (mapNodes change) := by
  induction trees with
  | nil => rfl
  | cons tree rest ih => rw [mapNodesAll, ih, List.map_cons]

theorem mapNodes_node (root : PlanNode) (children : List PlanTree) :
    (node root children).mapNodes change = node (change root) (children.map (mapNodes change)) := by
  rw [mapNodes, mapNodesAll_eq_map]

@[simp] theorem root_mapNodes (tree : PlanTree) :
    (tree.mapNodes change).root = change tree.root := by
  cases tree with
  | node root children => rw [mapNodes_node]; rfl

@[simp] theorem children_mapNodes (tree : PlanTree) :
    (tree.mapNodes change).children = tree.children.map (mapNodes change) := by
  cases tree with
  | node root children => rw [mapNodes_node]; rfl

theorem mapNodes_mapNodes (tree : PlanTree) :
    (tree.mapNodes change).mapNodes other = tree.mapNodes (other ∘ change) := by
  induction tree using induction with
  | node root children ih =>
    rw [mapNodes_node, mapNodes_node, mapNodes_node, List.map_map]
    congr 1
    exact List.map_congr_left ih

theorem mapNodes_congr (same : ∀ node ∈ tree.nodes, change node = other node) :
    tree.mapNodes change = tree.mapNodes other := by
  induction tree using induction with
  | node root children ih =>
    rw [nodes_node, List.forall_mem_cons] at same
    rw [mapNodes_node, mapNodes_node, same.1]
    congr 1
    refine List.map_congr_left fun child there => ih child there fun node member => ?_
    exact same.2 node (List.mem_flatMap.mpr ⟨child, there, member⟩)

theorem mapNodes_eq_self (same : ∀ node ∈ tree.nodes, change node = node) :
    tree.mapNodes change = tree := by
  induction tree using induction with
  | node root children ih =>
    rw [nodes_node, List.forall_mem_cons] at same
    rw [mapNodes_node, same.1]
    congr 1
    refine (List.map_congr_left fun child there => ?_).trans (List.map_id children)
    refine ih child there fun node member => ?_
    exact same.2 node (List.mem_flatMap.mpr ⟨child, there, member⟩)

theorem subtrees_mapNodes (tree : PlanTree) :
    (tree.mapNodes change).subtrees = tree.subtrees.map (mapNodes change) := by
  induction tree using induction with
  | node root children ih =>
    rw [mapNodes_node, subtrees_node, subtrees_node, List.map_cons, mapNodes_node,
      subtreesAll_eq_flatMap, subtreesAll_eq_flatMap, List.flatMap_map, List.map_flatMap]
    congr 1
    exact List.flatMap_congr ih

theorem nodes_mapNodes (tree : PlanTree) :
    (tree.mapNodes change).nodes = tree.nodes.map change := by
  unfold nodes
  rw [subtrees_mapNodes, List.map_map, List.map_map]
  exact List.map_congr_left fun subtree _ => root_mapNodes subtree

theorem ids_mapNodes (keeps : ∀ node, (change node).id = node.id) (tree : PlanTree) :
    (tree.mapNodes change).ids = tree.ids := by
  unfold ids
  rw [nodes_mapNodes, List.map_map]
  exact List.map_congr_left fun node _ => keeps node

theorem mapNodes_mem_subtrees (member : subtree ∈ tree.subtrees) :
    subtree.mapNodes change ∈ (tree.mapNodes change).subtrees := by
  rw [subtrees_mapNodes]
  exact List.mem_map_of_mem member

/-! ## Functions of the records -/

theorem totalWorkersAll_eq_foldr (trees : List PlanTree) :
    totalWorkersAll trees = (trees.map totalWorkers).foldr max 1 := by
  induction trees with
  | nil => rfl
  | cons tree rest ih => rw [totalWorkersAll, ih, List.map_cons, List.foldr_cons]

theorem totalWorkersAll_le {trees : List PlanTree} {bound : Nat} :
    totalWorkersAll trees ≤ bound ↔ 1 ≤ bound ∧ ∀ tree ∈ trees, tree.totalWorkers ≤ bound := by
  induction trees with
  | nil => simp [totalWorkersAll]
  | cons tree rest ih =>
    rw [totalWorkersAll, Nat.max_le, ih, List.forall_mem_cons]
    exact and_left_comm

theorem one_le_totalWorkersAll (trees : List PlanTree) : 1 ≤ totalWorkersAll trees :=
  (totalWorkersAll_le.mp (Nat.le_refl (totalWorkersAll trees))).1

theorem totalWorkers_le_totalWorkersAll {trees : List PlanTree} (there : child ∈ trees) :
    child.totalWorkers ≤ totalWorkersAll trees :=
  (totalWorkersAll_le.mp (Nat.le_refl (totalWorkersAll trees))).2 child there

theorem totalWorkers_mapNodes (same : ∀ node ∈ tree.nodes, (change node).fanOut = node.fanOut) :
    (tree.mapNodes change).totalWorkers = tree.totalWorkers := by
  induction tree using induction with
  | node root children ih =>
    rw [nodes_node, List.forall_mem_cons] at same
    rw [mapNodes_node, totalWorkers, totalWorkers, same.1, totalWorkersAll_eq_foldr,
      totalWorkersAll_eq_foldr, List.map_map]
    congr 2
    refine List.map_congr_left fun child there => ih child there fun node member => ?_
    exact same.2 node (List.mem_flatMap.mpr ⟨child, there, member⟩)

/-- Without parallel loops of several workers, one worker is active. -/
theorem totalWorkers_eq_one (serial : ∀ node ∈ tree.nodes, node.fanOut = 1) :
    tree.totalWorkers = 1 := by
  induction tree using induction with
  | node root children ih =>
    rw [nodes_node, List.forall_mem_cons] at serial
    -- Every tree below has one worker, and so has the maximum of them.
    have below : totalWorkersAll children ≤ 1 := by
      refine totalWorkersAll_le.mpr ⟨Nat.le_refl 1, fun child there => Nat.le_of_eq ?_⟩
      refine ih child there fun node member => ?_
      exact serial.2 node (List.mem_flatMap.mpr ⟨child, there, member⟩)
    have above := one_le_totalWorkersAll children
    rw [totalWorkers, serial.1]
    omega

theorem isLocalOnlyAll_eq_all (trees : List PlanTree) :
    isLocalOnlyAll trees = (trees.map isLocalOnly).all fun alone => alone := by
  induction trees with
  | nil => rfl
  | cons tree rest ih => rw [isLocalOnlyAll, ih, List.map_cons, List.all_cons]

theorem isLocalOnly_eq_all (tree : PlanTree) :
    tree.isLocalOnly = tree.nodes.all fun node => !node.isRemoteHop := by
  induction tree using induction with
  | node root children ih =>
    rw [isLocalOnly, nodes_node, isLocalOnlyAll_eq_all, List.map_congr_left ih, List.all_map,
      List.all_cons, List.all_flatMap]
    rfl

theorem maxProblemSizeAll_eq_foldr (trees : List PlanTree) :
    maxProblemSizeAll trees = (trees.map maxProblemSize).foldr max 0 := by
  induction trees with
  | nil => rfl
  | cons tree rest ih => rw [maxProblemSizeAll, ih, List.map_cons, List.foldr_cons]

theorem isLocalOnly_mapNodes (same : ∀ node, (change node).isRemoteHop = node.isRemoteHop)
    (tree : PlanTree) : (tree.mapNodes change).isLocalOnly = tree.isLocalOnly := by
  rw [isLocalOnly_eq_all, isLocalOnly_eq_all, nodes_mapNodes, List.all_map]
  congr 1
  funext node
  rw [Function.comp_apply, same]

theorem hasParallelismAny_eq_any {trees : List PlanTree}
    (single : ∀ tree ∈ trees, tree.hasNestedParallelism =
      (tree.children.flatMap nodes).any fun node => node.kind == .parfor) :
    hasParallelismAny trees = (trees.flatMap nodes).any fun node => node.kind == .parfor := by
  induction trees with
  | nil => rfl
  | cons tree rest ih =>
    rw [List.forall_mem_cons] at single
    cases tree with
    | node root children =>
      rw [hasParallelismAny, single.1, ih single.2, List.flatMap_cons, nodes_node,
        List.any_append, List.any_cons]
      rfl

theorem hasNestedParallelism_eq_any (tree : PlanTree) :
    tree.hasNestedParallelism =
      (tree.children.flatMap nodes).any fun node => node.kind == .parfor := by
  induction tree using induction with
  | node root children ih => exact hasParallelismAny_eq_any ih

theorem hasNestedParallelism_mapNodes (same : ∀ node, (change node).kind = node.kind)
    (tree : PlanTree) : (tree.mapNodes change).hasNestedParallelism =
      tree.hasNestedParallelism := by
  simp only [hasNestedParallelism_eq_any, children_mapNodes, List.flatMap_map, nodes_mapNodes,
    ← List.map_flatMap, List.any_map]
  congr 1
  funext node
  rw [Function.comp_apply, same]

/-- Trees that look the same have nodes that look the same. -/
theorem exists_node_of_mapNodes {tree other : PlanTree} {node : PlanNode}
    (same : other.mapNodes change = tree.mapNodes change) (there : node ∈ other.nodes) :
    ∃ twin ∈ tree.nodes, change node = change twin := by
  have all : other.nodes.map change = tree.nodes.map change := by
    rw [← nodes_mapNodes, ← nodes_mapNodes, same]
  have member : change node ∈ tree.nodes.map change := all ▸ List.mem_map_of_mem there
  obtain ⟨twin, inside, twin_eq⟩ := List.mem_map.mp member
  exact ⟨twin, inside, twin_eq.symm⟩

/-- Trees that look the same, ids included, have the same ids. -/
theorem ids_of_mapNodes {tree other : PlanTree}
    (same : other.mapNodes change = tree.mapNodes change)
    (keeps : ∀ node, (change node).id = node.id) : other.ids = tree.ids := by
  rw [← ids_mapNodes keeps, same, ids_mapNodes keeps]

theorem id_of_mapNodes {tree other : PlanTree}
    (same : other.mapNodes change = tree.mapNodes change)
    (keeps : ∀ node, (change node).id = node.id) : other.id = tree.id := by
  have roots := congrArg (fun tree => tree.root.id) same
  rwa [root_mapNodes, root_mapNodes, keeps, keeps] at roots

/-- Lists of trees that look the same have trees that look the same. -/
theorem exists_tree_of_mapNodes {trees others : List PlanTree}
    (same : others.map (mapNodes change) = trees.map (mapNodes change))
    (there : child ∈ others) : ∃ twin ∈ trees, child.mapNodes change = twin.mapNodes change := by
  have member : child.mapNodes change ∈ trees.map (mapNodes change) :=
    same ▸ List.mem_map_of_mem there
  obtain ⟨twin, inside, twin_eq⟩ := List.mem_map.mp member
  exact ⟨twin, inside, twin_eq.symm⟩

/-! ## Changes of single nodes -/

theorem alterAll_eq_map {rebuild : PlanNode → List PlanTree → PlanTree} (trees : List PlanTree) :
    alterAll id rebuild trees = trees.map (alter id rebuild) := by
  induction trees with
  | nil => rfl
  | cons tree rest ih => rw [alterAll, ih, List.map_cons]

/-- What a change of one node does not show in, it leaves alone. -/
theorem mapNodes_update_of_mem
    (same : ∀ node ∈ tree.nodes, node.id = id → other (change node) = other node) :
    (tree.update id change).mapNodes other = tree.mapNodes other := by
  unfold update
  induction tree using induction with
  | node root children ih =>
    rw [nodes_node, List.forall_mem_cons] at same
    rw [alter]
    split
    next found => rw [mapNodes_node, mapNodes_node, same.1 found]
    next =>
      rw [mapNodes_node, mapNodes_node, alterAll_eq_map, List.map_map]
      congr 1
      refine List.map_congr_left fun child there => ih child there fun node member => ?_
      exact same.2 node (List.mem_flatMap.mpr ⟨child, there, member⟩)

theorem mapNodes_update (same : ∀ node, node.id = id → other (change node) = other node)
    (tree : PlanTree) : (tree.update id change).mapNodes other = tree.mapNodes other :=
  mapNodes_update_of_mem fun node _ => same node

/-- An id that does not occur changes nothing. -/
theorem alter_eq_self {rebuild : PlanNode → List PlanTree → PlanTree} (absent : id ∉ tree.ids) :
    tree.alter id rebuild = tree := by
  induction tree using induction with
  | node root children ih =>
    rw [ids_node, List.mem_cons, not_or] at absent
    rw [alter, if_neg (Ne.symm absent.1), alterAll_eq_map]
    congr 1
    refine (List.map_congr_left fun child there => ?_).trans (List.map_id children)
    exact ih child there fun inside =>
      absent.2 (List.mem_flatMap.mpr ⟨child, there, inside⟩)

theorem map_alter_eq_self {rebuild : PlanNode → List PlanTree → PlanTree} {trees : List PlanTree}
    (absent : id ∉ trees.flatMap ids) : trees.map (alter id rebuild) = trees := by
  refine (List.map_congr_left fun tree there => ?_).trans (List.map_id trees)
  exact alter_eq_self fun inside => absent (List.mem_flatMap.mpr ⟨tree, there, inside⟩)

/-- In one of the trees the node is rebuilt, and the other ones stay as they are. -/
theorem nodes_map_alter {rebuild : PlanNode → List PlanTree → PlanTree} {trees : List PlanTree}
    (single : ∀ tree ∈ trees, tree.ids.Nodup → id ∈ tree.ids →
      (tree.alter id rebuild).nodes.Perm (fresh :: tree.nodes))
    (distinct : (trees.flatMap ids).Nodup) (there : id ∈ trees.flatMap ids) :
    ((trees.map (alter id rebuild)).flatMap nodes).Perm (fresh :: trees.flatMap nodes) := by
  induction trees with
  | nil => cases there
  | cons tree rest ih =>
    rw [List.forall_mem_cons] at single
    rw [List.flatMap_cons, List.nodup_append'] at distinct
    obtain ⟨distinctTree, distinctRest, apart⟩ := distinct
    rw [List.flatMap_cons, List.mem_append] at there
    rw [List.map_cons, List.flatMap_cons, List.flatMap_cons]
    by_cases inTree : id ∈ tree.ids
    · rw [map_alter_eq_self (apart inTree)]
      exact (single.1 distinctTree inTree).append_right _
    · rw [alter_eq_self inTree]
      have rebuilt := ih single.2 distinctRest (there.resolve_left inTree)
      exact (rebuilt.append_left _).trans List.perm_middle

/-- With distinct ids, a new node beside one of the nodes or below it is one more node. -/
theorem nodes_alter {rebuild : PlanNode → List PlanTree → PlanTree}
    (rebuilt : ∀ root children,
      (rebuild root children).nodes.Perm (fresh :: (node root children).nodes))
    (distinct : tree.ids.Nodup) (there : id ∈ tree.ids) :
    (tree.alter id rebuild).nodes.Perm (fresh :: tree.nodes) := by
  induction tree using induction with
  | node root children ih =>
    rw [ids_node, List.nodup_cons] at distinct
    rw [alter]
    split
    next => exact rebuilt root children
    next different =>
      rw [ids_node, List.mem_cons] at there
      have below : id ∈ children.flatMap ids := there.resolve_left (Ne.symm different)
      rw [alterAll_eq_map, nodes_node, nodes_node]
      exact ((nodes_map_alter ih distinct.2 below).cons root).trans (List.Perm.swap ..)

theorem nodes_addChild (distinct : tree.ids.Nodup) (there : id ∈ tree.ids) :
    (tree.addChild id fresh).nodes.Perm (fresh :: tree.nodes) := by
  refine nodes_alter (fun root children => ?_) distinct there
  have leaf : (node fresh []).nodes = [fresh] := rfl
  rw [nodes_node, nodes_node, List.flatMap_append, List.flatMap_singleton, leaf]
  exact ((List.perm_append_singleton fresh _).cons root).trans (List.Perm.swap ..)

theorem nodes_insertBelow (distinct : tree.ids.Nodup) (there : id ∈ tree.ids) :
    (tree.insertBelow id fresh).nodes.Perm (fresh :: tree.nodes) := by
  refine nodes_alter (fun root children => ?_) distinct there
  rw [nodes_node, nodes_node, List.flatMap_singleton, nodes_node]
  exact List.Perm.swap ..

theorem ids_addChild (distinct : tree.ids.Nodup) (there : id ∈ tree.ids) :
    (tree.addChild id fresh).ids.Perm (fresh.id :: tree.ids) :=
  (nodes_addChild distinct there).map PlanNode.id

theorem ids_insertBelow (distinct : tree.ids.Nodup) (there : id ∈ tree.ids) :
    (tree.insertBelow id fresh).ids.Perm (fresh.id :: tree.ids) :=
  (nodes_insertBelow distinct there).map PlanNode.id

theorem root_addChild (tree : PlanTree) (fresh : PlanNode) :
    (tree.addChild id fresh).root = tree.root := by
  cases tree with
  | node root children =>
    unfold addChild
    rw [alter]
    split <;> rfl

/-- With distinct ids, a change of one node is a change of all nodes with its id. -/
theorem update_eq_mapNodes (distinct : tree.ids.Nodup) :
    tree.update id change =
      tree.mapNodes fun node => if node.id = id then change node else node := by
  unfold update
  induction tree using induction with
  | node root children ih =>
    rw [ids_node, List.nodup_cons] at distinct
    rw [alter, mapNodes_node]
    split
    next found =>
      -- The trees below do not have the id again.
      congr 1
      refine ((List.map_congr_left fun child there => ?_).trans (List.map_id children)).symm
      refine mapNodes_eq_self fun node member => if_neg ?_
      rintro rfl
      refine distinct.1 (found ▸ List.mem_flatMap.mpr ⟨child, there, ?_⟩)
      exact List.mem_map_of_mem member
    next =>
      rw [alterAll_eq_map]
      congr 1
      refine List.map_congr_left fun child there => ih child there ?_
      exact distinct.2.sublist (List.sublist_flatten_of_mem (List.mem_map_of_mem there))

theorem ids_eq_map_subtrees (tree : PlanTree) : tree.ids = tree.subtrees.map PlanTree.id := by
  unfold ids nodes
  rw [List.map_map]
  rfl

/-- With distinct ids, every subtree is found under its id. -/
theorem find?_eq_some (distinct : tree.ids.Nodup) (member : subtree ∈ tree.subtrees) :
    tree.find? subtree.id = some subtree := by
  rw [ids_eq_map_subtrees] at distinct
  unfold find?
  cases found : tree.subtrees.find? fun other => other.id == subtree.id with
  | none =>
    rw [List.find?_eq_none] at found
    exact absurd (beq_self_eq_true subtree.id) (found subtree member)
  | some other =>
    have same : other.id = subtree.id := by simpa using List.find?_some found
    rw [List.inj_on_of_nodup_map distinct (List.mem_of_find?_eq_some found) member same]

/-- With distinct ids, nodes with one id are the same. -/
theorem eq_of_id_eq {first second : PlanNode} (distinct : tree.ids.Nodup)
    (there : first ∈ tree.nodes) (alsoThere : second ∈ tree.nodes) (same : first.id = second.id) :
    first = second :=
  List.inj_on_of_nodup_map distinct there alsoThere same

/-- With distinct ids, no node below the topmost one has its id. -/
theorem id_ne_of_child {node : PlanNode} (distinct : tree.ids.Nodup) (there : child ∈ tree.children)
    (inside : node ∈ child.nodes) : node.id ≠ tree.id := by
  cases tree with
  | node root children =>
    rw [ids_node, List.nodup_cons] at distinct
    intro same
    have root_eq : node.id = root.id := same
    have listed : root.id ∈ child.ids := root_eq ▸ List.mem_map_of_mem inside
    exact distinct.1 (List.mem_flatMap.mpr ⟨child, there, listed⟩)

/-- The nodes of the trees below the topmost node are nodes. -/
theorem mem_nodes_of_child {node : PlanNode} (there : child ∈ tree.children)
    (inside : node ∈ child.nodes) : node ∈ tree.nodes := by
  cases tree with
  | node root children =>
    rw [nodes_node]
    exact List.mem_cons_of_mem root (List.mem_flatMap.mpr ⟨child, there, inside⟩)

theorem ids_sublist (member : subtree ∈ tree.subtrees) : subtree.ids.Sublist tree.ids :=
  (nodes_sublist member).map _

/-! ## Looking up nodes -/

section Lookup

variable {id other : NodeId} {change : PlanNode → PlanNode}

theorem node?_eq_find? (tree : PlanTree) (id : NodeId) :
    tree.node? id = tree.nodes.find? fun node => node.id == id := by
  rw [node?, find?, nodes, List.find?_map]
  rfl

theorem node?_node (root : PlanNode) (children : List PlanTree) (id : NodeId) :
    (node root children).node? id =
      if root.id = id then some root else children.findSome? fun child => child.node? id := by
  simp only [node?_eq_find?, nodes_node, List.find?_cons, List.find?_flatMap]
  by_cases here : root.id = id
  · rw [if_pos here, beq_iff_eq.mpr here]
  · rw [if_neg here, beq_eq_false_iff_ne.mpr here]

/-- What is found in trees is what is found in each of them. -/
theorem findSome?_congr {β : Type} {trees : List PlanTree} {find found : PlanTree → Option β}
    (same : ∀ tree ∈ trees, find tree = found tree) :
    trees.findSome? find = trees.findSome? found := by
  induction trees with
  | nil => rfl
  | cons tree rest ih =>
    rw [List.forall_mem_cons] at same
    rw [List.findSome?_cons, List.findSome?_cons, same.1, ih same.2]

/-- The record of a node after one record was changed. -/
theorem node?_update (keeps : ∀ node, (change node).id = node.id) (tree : PlanTree) :
    (tree.update id change).node? other =
      if other = id then (tree.node? id).map change else tree.node? other := by
  induction tree using induction with
  | node root children ih =>
    unfold update at ih ⊢
    unfold alter
    by_cases here : root.id = id
    · rw [if_pos here, node?_node, node?_node, node?_node, keeps, here]
      by_cases same : other = id
      · simp [same]
      · simp [same, Ne.symm same]
    · rw [if_neg here, node?_node, node?_node, node?_node, alterAll_eq_map, if_neg here,
        List.findSome?_map]
      by_cases same : other = id
      · rw [if_pos same, if_neg (same ▸ here), List.map_findSome?]
        exact findSome?_congr fun child there => (ih child there).trans (if_pos same)
      · have others := findSome?_congr fun child there => (ih child there).trans (if_neg same)
        rw [if_neg same]
        exact congrArg (fun found => if root.id = other then some root else found) others

/-- What is not changed of a record is found as before. -/
theorem bind_node?_update {β : Type} {field : PlanNode → Option β}
    (keeps : ∀ node, (change node).id = node.id) (same : ∀ node, field (change node) = field node)
    (tree : PlanTree) (id other : NodeId) :
    ((tree.update id change).node? other).bind field = (tree.node? other).bind field := by
  rw [node?_update keeps]
  split
  next here =>
    rw [here]
    cases tree.node? id <;> simp [same]
  next => rfl

theorem node?_eq_some (distinct : tree.ids.Nodup) {node : PlanNode} (there : node ∈ tree.nodes) :
    tree.node? node.id = some node := by
  obtain ⟨subtree, member, rfl⟩ := List.mem_map.mp there
  exact congrArg (Option.map root) (find?_eq_some distinct member)

theorem node?_mapNodes (keeps : ∀ node, (change node).id = node.id) (tree : PlanTree)
    (id : NodeId) : (tree.mapNodes change).node? id = (tree.node? id).map change := by
  rw [node?_eq_find?, node?_eq_find?, nodes_mapNodes, List.find?_map]
  congr 2
  funext node
  rw [Function.comp_apply, keeps]

/-- The topmost node comes first. -/
theorem node?_root (tree : PlanTree) : tree.node? tree.id = some tree.root := by
  cases tree with
  | node root children => exact (node?_node root children root.id).trans (if_pos rfl)

end Lookup

/-! ## Numbered nodes -/

/-- The ids are distinct and number at most as many nodes as there are. -/
structure IsNumbered (tree : PlanTree) : Prop where
  distinct : tree.ids.Nodup
  lt_size : ∀ id ∈ tree.ids, id.index < tree.size

theorem length_ids (tree : PlanTree) : tree.ids.length = tree.size := by
  rw [size_eq, ids, List.length_map]

theorem isNumbered_congr {tree other : PlanTree} (same : tree.ids = other.ids) :
    tree.IsNumbered ↔ other.IsNumbered := by
  have size_eq : tree.size = other.size := by rw [← length_ids, same, length_ids]
  exact ⟨fun ⟨distinct, lt_size⟩ => ⟨same ▸ distinct, same ▸ size_eq ▸ lt_size⟩,
    fun ⟨distinct, lt_size⟩ => ⟨same ▸ distinct, same ▸ size_eq ▸ lt_size⟩⟩

theorem size_of_perm {tree grown : PlanTree} {id : NodeId}
    (added : grown.ids.Perm (id :: tree.ids)) : grown.size = tree.size + 1 := by
  rw [← length_ids, added.length_eq, List.length_cons, length_ids]

/-- The next id is fresh. -/
theorem IsNumbered.freshId_not_mem (numbered : tree.IsNumbered) : tree.freshId ∉ tree.ids :=
  fun inside => Nat.lt_irrefl _ (numbered.lt_size _ inside)

/-- A tree stays numbered when a node with the next id comes in. -/
theorem IsNumbered.of_perm {tree grown : PlanTree} (numbered : tree.IsNumbered)
    (added : grown.ids.Perm (tree.freshId :: tree.ids)) : grown.IsNumbered := by
  have size_eq := size_of_perm added
  refine ⟨added.nodup_iff.mpr (List.nodup_cons.mpr ⟨numbered.freshId_not_mem, numbered.distinct⟩),
    fun id member => ?_⟩
  rcases List.mem_cons.mp (added.mem_iff.mp member) with rfl | old
  · rw [size_eq]
    exact Nat.lt_succ_self _
  · have := numbered.lt_size id old
    omega

end PlanTree

end ParallelLoop
