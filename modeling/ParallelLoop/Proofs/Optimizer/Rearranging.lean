/-
# Rearranged trees

Rules look at operators with nothing below them, and at what is known of a node by its id. Neither
shows in which order nodes stand (`PlanTree.Reorders`). A new node shows in neither of them except
as what it is, so when it is one for an operator that was there before, the tree has the same
operators, of which some occur again (`PlanTree.Repeats`).
-/

import ParallelLoop.Proofs.Optimizer.Inputs
import ParallelLoop.Proofs.Plan.SplitCount

namespace ParallelLoop

variable {α : Type}

/-! ## Nodes in another order -/

namespace PlanTree

variable {tree other third leaf : PlanTree}

/-- The trees below some of the nodes are in another order. -/
inductive Reorders : PlanTree → PlanTree → Prop
  | children {root : PlanNode} {children others : List PlanTree} (moved : children.Perm others) :
    Reorders (node root children) (node root others)
  | within {root : PlanNode} {before after : List PlanTree} {child other : PlanTree}
    (moved : Reorders child other) :
    Reorders (node root (before ++ child :: after)) (node root (before ++ other :: after))
  | trans {first second third : PlanTree} (start : Reorders first second)
    (rest : Reorders second third) : Reorders first third

namespace Reorders

theorem refl (tree : PlanTree) : tree.Reorders tree := by
  cases tree with
  | node root children => exact .children (.refl children)

theorem symm (reorders : tree.Reorders other) : other.Reorders tree := by
  induction reorders with
  | children moved => exact .children moved.symm
  | within _ ih => exact .within ih
  | trans _ _ start rest => exact .trans rest start

theorem root_eq (reorders : tree.Reorders other) : other.root = tree.root := by
  induction reorders with
  | children => rfl
  | within => rfl
  | trans _ _ start rest => exact rest.trans start

/-- An only child stays the only one, with what is below it in another order. -/
theorem exists_child (reorders : tree.Reorders other) {child : PlanTree}
    (only : tree.children = [child]) :
    ∃ moved, other.children = [moved] ∧ child.Reorders moved := by
  induction reorders generalizing child with
  | children moved =>
    obtain rfl := only
    exact ⟨child, (List.singleton_perm.mp moved).symm, .refl child⟩
  | @within root before after first moved step =>
    obtain ⟨rfl, same⟩ | ⟨-, none⟩ := List.append_eq_singleton_iff.mp only
    · obtain ⟨rfl, rfl⟩ := List.cons.inj same
      exact ⟨moved, rfl, step⟩
    · cases none
  | trans _ _ start rest =>
    obtain ⟨_, only, first⟩ := start only
    obtain ⟨moved, only, second⟩ := rest only
    exact ⟨moved, only, first.trans second⟩

/-- An only child stays the first one. -/
theorem headId?_eq (reorders : tree.Reorders other) {child : PlanTree}
    (only : tree.children = [child]) : other.headId? = tree.headId? := by
  obtain ⟨moved, moved_only, inner⟩ := reorders.exists_child only
  rw [headId?, headId?, only, moved_only]
  exact congrArg (fun node => some node.id) inner.root_eq

theorem nodes_perm (reorders : tree.Reorders other) : other.nodes.Perm tree.nodes := by
  induction reorders with
  | children moved =>
    rw [nodes_node, nodes_node]
    exact (moved.symm.flatMap_right _).cons _
  | within _ ih =>
    simp only [nodes_node, List.flatMap_append, List.flatMap_cons]
    exact ((ih.append_right _).append_left _).cons _
  | trans _ _ start rest => exact rest.trans start

/-- A tree with nothing below it is where it was, or somewhere else. -/
theorem mem_subtrees (reorders : tree.Reorders other) (single : leaf.isLeaf = true)
    (there : leaf ∈ tree.subtrees) : leaf ∈ other.subtrees := by
  induction reorders with
  | children moved =>
    rcases mem_subtrees_node.mp there with rfl | ⟨child, inside, deeper⟩
    · obtain rfl := List.isEmpty_iff.mp single
      rw [List.nil_perm.mp moved]
      exact self_mem_subtrees _
    · exact mem_subtrees_node.mpr (.inr ⟨child, moved.mem_iff.mp inside, deeper⟩)
  | within _ ih =>
    rcases mem_subtrees_node.mp there with rfl | ⟨child, inside, deeper⟩
    · simp [isLeaf, PlanTree.children] at single
    · rw [List.mem_append, List.mem_cons] at inside
      rcases inside with before | rfl | after
      · exact mem_subtrees_node.mpr (.inr ⟨child, List.mem_append_left _ before, deeper⟩)
      · exact mem_subtrees_node.mpr (.inr ⟨_, List.mem_append_right _ (.head _), ih deeper⟩)
      · exact mem_subtrees_node.mpr
          (.inr ⟨child, List.mem_append_right _ (.tail _ after), deeper⟩)
  | trans _ _ start rest => exact rest (start there)

end Reorders

/-- With distinct ids, the record of a node does not depend on where the node is. -/
theorem node?_of_perm (distinct : tree.ids.Nodup) (same : other.nodes.Perm tree.nodes) :
    other.node? = tree.node? := by
  have alsoDistinct : other.ids.Nodup := (same.map _).nodup_iff.mpr distinct
  have found {tree : PlanTree} (distinct : tree.ids.Nodup) (id : NodeId) (node : PlanNode) :
      tree.node? id = some node ↔ node ∈ tree.nodes ∧ node.id = id := by
    constructor
    · intro found
      rw [node?_eq_find?] at found
      exact ⟨List.mem_of_find?_eq_some found, by simpa using List.find?_some found⟩
    · rintro ⟨there, rfl⟩
      exact node?_eq_some distinct there
  funext id
  ext node
  rw [found alsoDistinct, found distinct, same.mem_iff]

end PlanTree

/-! ## A new node -/

namespace PlanTree

variable {tree leaf : PlanTree} {id parent : NodeId} {fresh : PlanNode}

/-- What is known of the nodes that were there stays. -/
theorem IsNumbered.node?_addChild (numbered : tree.IsNumbered) (next : fresh.id = tree.freshId)
    (old : id ∈ tree.ids) : (tree.addChild parent fresh).node? id = tree.node? id := by
  apply PlanTree.node?_addChild
  rintro rfl
  exact numbered.freshId_not_mem (next ▸ old)

/-- And the new one is known by its record. -/
theorem IsNumbered.node?_fresh (numbered : tree.IsNumbered) (next : fresh.id = tree.freshId)
    (inside : parent ∈ tree.ids) : (tree.addChild parent fresh).node? fresh.id = some fresh := by
  apply node?_eq_some (numbered.addChild inside next).distinct
  rw [(nodes_addChild numbered.distinct inside).mem_iff]
  exact .head _

theorem id_addChild (tree : PlanTree) (fresh : PlanNode) :
    (tree.addChild parent fresh).id = tree.id := congrArg PlanNode.id (root_addChild tree fresh)

theorem isLeaf_of_operator (operator : leaf.isLeafOperator = true) : leaf.isLeaf = true := by
  rw [isLeafOperator, Bool.and_eq_true] at operator
  exact operator.1

/-- A tree with nothing below it has one id. -/
theorem ids_of_leaf (single : leaf.isLeaf = true) : leaf.ids = [leaf.id] := by
  obtain ⟨root, children⟩ := leaf
  obtain rfl := List.isEmpty_iff.mp single
  exact ids_node root []

/-- What has nothing below it after a node was added is this node, or was there before. -/
theorem leaf_mem_subtrees_addChild (there : leaf ∈ (tree.addChild parent fresh).subtrees)
    (single : leaf.isLeaf = true) : leaf = node fresh [] ∨ leaf ∈ tree.subtrees := by
  unfold addChild at there
  induction tree using induction with
  | node root children ih =>
    rw [alter] at there
    split at there
    · -- The parent of the new child is no leaf any more.
      rcases mem_subtrees_node.mp there with rfl | ⟨child, inside, deeper⟩
      · simp [isLeaf, PlanTree.children] at single
      · rcases List.mem_append.mp inside with old | new
        · exact .inr (mem_subtrees_node.mpr (.inr ⟨child, old, deeper⟩))
        · rw [List.mem_singleton] at new
          rw [new, subtrees_node, subtreesAll_nil, List.mem_singleton] at deeper
          exact .inl deeper
    · rw [alterAll_eq_map] at there
      rcases mem_subtrees_node.mp there with rfl | ⟨child, inside, deeper⟩
      · have none : children = [] := by simpa [isLeaf, PlanTree.children] using single
        rw [none, List.map_nil]
        exact .inr (self_mem_subtrees _)
      · obtain ⟨old, listed, rfl⟩ := List.mem_map.mp inside
        refine (ih old listed deeper).imp_right fun below => ?_
        exact mem_subtrees_node.mpr (.inr ⟨old, listed, below⟩)

/-- The first child stays the first one. -/
theorem headId?_addChild (some : tree.headId?.isSome = true) (parent : NodeId) (fresh : PlanNode) :
    (tree.addChild parent fresh).headId? = tree.headId? := by
  obtain ⟨root, _ | ⟨child, rest⟩⟩ := tree
  · simp [headId?, PlanTree.children] at some
  · unfold addChild
    rw [alter]
    split
    · rfl
    · exact congrArg (fun root => Option.some root.id) (root_addChild child fresh)

end PlanTree

namespace Plan

variable {plan : Plan α} {id parent : NodeId} {fresh : PlanNode}
  (numbered : plan.tree.IsNumbered) (next : fresh.id = plan.tree.freshId)

include numbered next

theorem block?_addChild (old : id ∈ plan.tree.ids) :
    block? { plan with tree := plan.tree.addChild parent fresh } id = plan.block? id := by
  unfold block?
  rw [numbered.node?_addChild next old]

theorem readHop_addChild (old : id ∈ plan.tree.ids) :
    readHop { plan with tree := plan.tree.addChild parent fresh } id = plan.readHop id := by
  unfold readHop hopOf
  rw [numbered.node?_addChild next old]

end Plan

/-! ## Operators that occur again -/

/-- Another node for the same operator, with the same texts. -/
def PlanNode.again (node : PlanNode) (id : NodeId) (placement : Placement) (workers : Nat) :
    PlanNode := { node with id, placement, workers }

namespace PlanTree

variable {tree other : PlanTree}

/-- Some operators with nothing below them occur again, below nodes that are not such operators. -/
inductive Repeats (tree : PlanTree) : PlanTree → Prop
  | refl : Repeats tree tree
  | again {grown original : PlanTree} {parent : NodeId} (start : Repeats tree grown)
    (there : original ∈ grown.subtrees) (operator : original.isLeafOperator = true)
    (inside : parent ∈ grown.ids)
    (apart : ∀ leaf ∈ grown.subtrees, leaf.isLeafOperator = true → leaf.id ≠ parent)
    (placement : Placement) (workers : Nat) :
    Repeats tree (grown.addChild parent (original.root.again grown.freshId placement workers))

theorem Repeats.isNumbered (repeats : tree.Repeats other)
    (numbered : tree.IsNumbered) : other.IsNumbered := by
  induction repeats with
  | refl => exact numbered
  | again _ _ _ inside _ _ _ ih => exact ih.addChild inside rfl

theorem Repeats.headId?_eq (repeats : tree.Repeats other)
    (some : tree.headId?.isSome = true) : other.headId? = tree.headId? := by
  induction repeats with
  | refl => rfl
  | again _ _ _ _ _ _ _ ih => rw [headId?_addChild (by rwa [ih]), ih]

end PlanTree

/-- Both nodes read the same. -/
theorem Plan.readHop_again {plan : Plan α} {original : PlanTree} {parent : NodeId}
    (numbered : plan.tree.IsNumbered) (there : original ∈ plan.tree.subtrees)
    (inside : parent ∈ plan.tree.ids) (placement : Placement) (workers : Nat) (hop : Hop α) :
    plan.readHop original.id = .ok hop ↔ readHop
      { plan with
        tree := plan.tree.addChild parent
          (original.root.again plan.tree.freshId placement workers) }
      plan.tree.freshId = .ok hop := by
  have known : plan.tree.node? original.id = some original.root :=
    PlanTree.node?_eq_some numbered.distinct (List.mem_map_of_mem there)
  have new : (plan.tree.addChild parent (original.root.again plan.tree.freshId placement
      workers)).node? plan.tree.freshId =
        some (original.root.again plan.tree.freshId placement workers) :=
    numbered.node?_fresh rfl inside
  have same : (original.root.again plan.tree.freshId placement workers).hop = original.root.hop :=
    rfl
  unfold readHop hopOf
  rw [known, new, Option.bind_some, Option.bind_some, same]
  cases original.root.hop
  · simp
  · rfl

end ParallelLoop
