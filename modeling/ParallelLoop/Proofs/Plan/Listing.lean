/-
# Arenas are trees

In every arena that operations lead to, the topmost node is in no list, every other node is in one
list and once in it, and no way down comes back to where it began. This is read off the tree that
the arena stores: the lists of its subtrees, put together, have every id but the topmost one.

The loop that lists a subtree ends for that reason alone. What carries the proof is a statement
about the whole stack: when subtrees lie on top of it, the loop lists them one after the other and
goes on with what is below. So the loop gives a node and then the listings of the nodes right below
it, in order, which is how the subtree of a node is listed by recursion.
-/

import Mathlib.Logic.Relation
import ParallelLoop.Proofs.Plan.Arena
import ParallelLoop.Proofs.Plan.Drift

namespace ParallelLoop

/-! ## Arenas that are trees -/

namespace PlanArena

/-- The second node is right below the first one. -/
def Links (arena : PlanArena) (above below : NodeId) : Prop := below ∈ arena.below above

/-- The nodes are linked as a tree is. -/
structure IsTree (arena : PlanArena) : Prop where
  root_held : arena.Holds arena.root
  closed : ∀ above below, arena.Links above below → arena.Holds below
  root_unlisted : ∀ above, ¬ arena.Links above arena.root
  listed_by_one : ∀ id, arena.Holds id → id ≠ arena.root → ∃! above, arena.Links above id
  listed_once : ∀ above, (arena.below above).Nodup
  acyclic : ∀ id, ¬ Relation.TransGen arena.Links id id

/-- Parents and subtrees are found as in a tree. A listing is a node and then, in order, the
listings of the nodes right below it, without repetition. That of the topmost node has all nodes. -/
structure ListsSubtrees (arena : PlanArena) : Prop where
  parentOf?_iff : ∀ above below, arena.parentOf? below = some above ↔ arena.Links above below
  listing : ∃ listing : NodeId → List NodeId,
    (∀ id, arena.Holds id → arena.descendants id = some (listing id) ∧
      listing id = id :: (arena.below id).flatMap listing ∧ (listing id).Nodup) ∧
    (listing arena.root).Perm ((List.range arena.size).map NodeId.mk)

end PlanArena

/-- A tree and an arena have the same nodes in the same places, and what is asked of both of them
they answer the same. -/
structure PlanTree.AgreesWith (tree : PlanTree) (arena : PlanArena) : Prop where
  root_eq : arena.root = tree.id
  size_eq : arena.size = tree.size
  row?_eq : ∀ id, arena.row? id = tree.row? id
  parentOf?_eq : ∀ id, arena.parentOf? id = tree.parentOf? id
  descendants_eq : ∀ id, arena.descendants id = (tree.find? id).map PlanTree.ids

namespace PlanTree

variable {tree subtree child : PlanTree} {root : PlanNode} {children : List PlanTree}
  {id above below : NodeId}

/-! ## The lists of a tree -/

/-- The nodes right below the topmost one. -/
def listed (tree : PlanTree) : List NodeId := tree.children.map PlanTree.id

/-- Put together, the lists of all nodes have every id but the topmost one. -/
theorem ids_perm_cons (tree : PlanTree) :
    tree.ids.Perm (tree.id :: tree.subtrees.flatMap listed) := by
  induction tree using induction with
  | node root children ih =>
    rw [ids_node, subtrees_node, List.flatMap_cons, subtreesAll_eq_flatMap, List.flatMap_assoc]
    refine List.Perm.cons root.id ?_
    exact (List.Perm.flatMap_left children ih).trans
      (List.map_append_flatMap_perm children PlanTree.id _).symm

theorem nodup_listed (distinct : tree.ids.Nodup) :
    tree.id ∉ tree.subtrees.flatMap listed ∧ (tree.subtrees.flatMap listed).Nodup :=
  List.nodup_cons.mp ((ids_perm_cons tree).nodup_iff.mp distinct)

/-- No two nodes have a node right below them in common. -/
theorem eq_of_listed {other : PlanTree} (distinct : tree.ids.Nodup)
    (there : subtree ∈ tree.subtrees) (alsoThere : other ∈ tree.subtrees)
    (inside : id ∈ subtree.listed) (alsoInside : id ∈ other.listed) : subtree = other := by
  by_contra different
  have apart := (List.nodup_flatMap.mp (nodup_listed distinct).2).2
  have symmetric : Std.Symm (Function.onFun List.Disjoint listed) := ⟨fun _ _ => List.Disjoint.symm⟩
  exact apart.forall there alsoThere different inside alsoInside

theorem size_lt_of_child (there : child ∈ tree.children) : child.size < tree.size := by
  cases tree with
  | node root children =>
    rw [size_eq, size_eq, nodes_node, List.length_cons, Nat.lt_succ_iff]
    exact (List.sublist_flatten_of_mem (List.mem_map_of_mem there)).length_le

theorem child_mem_subtrees (there : subtree ∈ tree.subtrees) (under : child ∈ subtree.children) :
    child ∈ tree.subtrees := mem_subtrees_trans (mem_subtrees_of_child under) there

theorem exists_subtree (inside : id ∈ tree.ids) : ∃ subtree ∈ tree.subtrees, subtree.id = id := by
  rw [ids_eq_map_subtrees] at inside
  exact List.mem_map.mp inside

/-! ## Links are those of a tree -/

theorem row?_arena_of_mem (numbered : tree.IsNumbered) (there : subtree ∈ tree.subtrees) :
    tree.arena.row? subtree.id = some (subtree.root, subtree.listed) :=
  (row?_arena numbered _).trans (row?_of_mem numbered.distinct there)

theorem below_arena_of_mem (numbered : tree.IsNumbered) (there : subtree ∈ tree.subtrees) :
    tree.arena.below subtree.id = subtree.listed :=
  PlanArena.below_of_row? (row?_arena_of_mem numbered there)

theorem links_arena_iff (numbered : tree.IsNumbered) :
    tree.arena.Links above below ↔
      ∃ subtree ∈ tree.subtrees, subtree.id = above ∧ below ∈ subtree.listed := by
  unfold PlanArena.Links
  constructor
  · intro linked
    by_cases inside : above ∈ tree.ids
    · obtain ⟨subtree, there, rfl⟩ := exists_subtree inside
      rw [below_arena_of_mem numbered there] at linked
      exact ⟨subtree, there, rfl, linked⟩
    · rw [below_arena numbered, row?_eq_none inside] at linked
      exact absurd linked List.not_mem_nil
  · rintro ⟨subtree, there, rfl, listed⟩
    rwa [below_arena_of_mem numbered there]

/-- Number of nodes in the subtree of a node. -/
def sizeAt (tree : PlanTree) (id : NodeId) : Nat := ((tree.find? id).map size).getD 0

theorem sizeAt_of_mem (distinct : tree.ids.Nodup) (there : subtree ∈ tree.subtrees) :
    tree.sizeAt subtree.id = subtree.size := by
  rw [sizeAt, find?_eq_some distinct there]
  rfl

/-- Subtrees get smaller on the way down. -/
theorem sizeAt_lt_of_links (numbered : tree.IsNumbered) (linked : tree.arena.Links above below) :
    tree.sizeAt below < tree.sizeAt above := by
  obtain ⟨subtree, there, rfl, listed⟩ := (links_arena_iff numbered).mp linked
  obtain ⟨child, under, rfl⟩ := List.mem_map.mp listed
  rw [sizeAt_of_mem numbered.distinct there,
    sizeAt_of_mem numbered.distinct (child_mem_subtrees there under)]
  exact size_lt_of_child under

theorem isTree_arena (numbered : tree.IsNumbered) : tree.arena.IsTree where
  root_held := (holds_arena_iff numbered).mpr (List.mem_map_of_mem (root_mem_nodes tree))
  closed above below linked := by
    obtain ⟨subtree, there, -, listed⟩ := (links_arena_iff numbered).mp linked
    have inside := List.mem_cons_of_mem tree.id (List.mem_flatMap.mpr ⟨subtree, there, listed⟩)
    exact (holds_arena_iff numbered).mpr ((ids_perm_cons tree).mem_iff.mpr inside)
  root_unlisted above linked := by
    obtain ⟨subtree, there, -, listed⟩ := (links_arena_iff numbered).mp linked
    exact (nodup_listed numbered.distinct).1 (List.mem_flatMap.mpr ⟨subtree, there, listed⟩)
  listed_by_one id held other := by
    have inside := (ids_perm_cons tree).mem_iff.mp ((holds_arena_iff numbered).mp held)
    obtain ⟨subtree, there, listed⟩ :=
      List.mem_flatMap.mp ((List.mem_cons.mp inside).resolve_left other)
    refine ⟨subtree.id, (links_arena_iff numbered).mpr ⟨subtree, there, rfl, listed⟩, ?_⟩
    intro above linked
    obtain ⟨second, alsoThere, rfl, alsoListed⟩ := (links_arena_iff numbered).mp linked
    rw [eq_of_listed numbered.distinct there alsoThere listed alsoListed]
  listed_once above := by
    by_cases inside : above ∈ tree.ids
    · obtain ⟨subtree, there, rfl⟩ := exists_subtree inside
      rw [below_arena_of_mem numbered there]
      exact (List.nodup_flatMap.mp (nodup_listed numbered.distinct).2).1 subtree there
    · rw [below_arena numbered, row?_eq_none inside]
      exact List.nodup_nil
  acyclic id way := by
    -- A way back to where it began would have to pass smaller subtrees only.
    have down : ∀ last, Relation.TransGen tree.arena.Links id last →
        tree.sizeAt last < tree.sizeAt id := by
      intro last way
      induction way with
      | single linked => exact sizeAt_lt_of_links numbered linked
      | tail _ linked ih => exact (sizeAt_lt_of_links numbered linked).trans ih
    exact Nat.lt_irrefl _ (down id way)

/-! ## Parents -/

theorem links_of_parentOf? (numbered : tree.IsNumbered)
    (found : tree.arena.parentOf? below = some above) : tree.arena.Links above below := by
  obtain ⟨⟨node, list⟩, foundRow, node_eq⟩ := Option.map_eq_some_iff.mp found
  obtain ⟨index, inside, rowAt⟩ := Array.mem_iff_getElem.mp (Array.mem_of_find?_eq_some foundRow)
  have row : tree.arena.row? ⟨index⟩ = some (node, list) :=
    (Array.getElem?_eq_getElem inside).trans (congrArg some rowAt)
  have named : node.id = ⟨index⟩ := id_of_row? (row?_arena numbered _ ▸ row)
  have above_eq : above = ⟨index⟩ := node_eq.symm.trans named
  have listed := Array.find?_some foundRow
  rw [PlanArena.Links, above_eq, PlanArena.below_of_row? row]
  exact List.contains_iff_mem.mp listed

/-- The parent of a node is the one node that has it right below. -/
theorem parentOf?_arena_iff (numbered : tree.IsNumbered) :
    tree.arena.parentOf? below = some above ↔ tree.arena.Links above below := by
  refine ⟨links_of_parentOf? numbered, fun linked => ?_⟩
  obtain ⟨subtree, there, rfl, inside⟩ := (links_arena_iff numbered).mp linked
  have row := row?_arena_of_mem numbered there
  have found : (tree.arena.parentOf? below).isSome := by
    rw [PlanArena.parentOf?, Option.isSome_map, Array.find?_isSome]
    exact ⟨_, Array.mem_of_getElem? row, List.contains_iff_mem.mpr inside⟩
  obtain ⟨first, found⟩ := Option.isSome_iff_exists.mp found
  -- Some node is found, and only one has this node right below.
  obtain ⟨other, alsoThere, rfl, alsoInside⟩ :=
    (links_arena_iff numbered).mp (links_of_parentOf? numbered found)
  rw [found, eq_of_listed numbered.distinct there alsoThere inside alsoInside]

theorem parentOf?_eq_some_iff (distinct : tree.ids.Nodup) :
    tree.parentOf? below = some above ↔
      ∃ subtree ∈ tree.subtrees, subtree.id = above ∧ below ∈ subtree.listed := by
  have lists : ∀ subtree : PlanTree,
      (subtree.children.any fun child => child.id == below) = true ↔ below ∈ subtree.listed := by
    intro subtree
    rw [List.any_eq_true, listed, List.mem_map]
    exact exists_congr fun child => and_congr_right fun _ => beq_iff_eq
  constructor
  · intro found
    obtain ⟨subtree, first, named⟩ := Option.map_eq_some_iff.mp found
    have lists_below := List.find?_some first
    exact ⟨subtree, List.mem_of_find?_eq_some first, named, (lists subtree).mp lists_below⟩
  · rintro ⟨subtree, there, rfl, inside⟩
    -- Some parent is found, and a node has one parent only.
    have found : (tree.subtrees.find? fun subtree =>
        subtree.children.any fun child => child.id == below).isSome :=
      List.find?_isSome.mpr ⟨subtree, there, (lists subtree).mpr inside⟩
    obtain ⟨first, found⟩ := Option.isSome_iff_exists.mp found
    have lists_below := List.find?_some found
    rw [parentOf?, found, Option.map_some, eq_of_listed distinct (List.mem_of_find?_eq_some found)
      there ((lists first).mp lists_below) inside]

theorem parentOf?_arena (numbered : tree.IsNumbered) (id : NodeId) :
    tree.arena.parentOf? id = tree.parentOf? id := by
  ext above
  rw [parentOf?_arena_iff numbered, links_arena_iff numbered,
    parentOf?_eq_some_iff numbered.distinct]

/-! ## The loop over a stack -/

/-- Ids that are put on a stack last one first lie on it in order. -/
theorem pushAll_reverse (ids stack : List NodeId) :
    PlanArena.pushAll ids.reverse stack = ids ++ stack := by
  rw [PlanArena.pushAll, List.foldl_reverse, List.foldr_cons_eq_append, List.map_id']

theorem visit_cons {arena : PlanArena} {row : PlanNode × List NodeId} {next : NodeId}
    (found : arena.row? next = some row) (rest : List NodeId) (visited : Array NodeId) :
    arena.visit (next :: rest) visited =
      arena.visit (row.2 ++ rest) (visited.push next) := by
  obtain ⟨node, below⟩ := row
  rw [PlanArena.visit, found, Option.bind_eq_bind, Option.bind_some]
  exact congrArg (fun stack => arena.visit stack _) (pushAll_reverse below rest)

/-- The loop visits the trees whose topmost nodes lie on top of the stack one after the other, when
it visits each of them so. -/
theorem visit_trees {arena : PlanArena} {trees : List PlanTree} (stack : List NodeId)
    (each : ∀ tree ∈ trees, ∀ stack visited, arena.visit (tree.id :: stack) visited =
      arena.visit stack (visited ++ tree.ids.toArray)) (visited : Array NodeId) :
    arena.visit (trees.map PlanTree.id ++ stack) visited =
      arena.visit stack (visited ++ (trees.flatMap ids).toArray) := by
  -- The trees in front are visited whole before the loop comes to the rest.
  induction trees generalizing visited with
  | nil => rw [List.map_nil, List.nil_append, List.flatMap_nil, Array.append_empty]
  | cons tree rest ih =>
    rw [List.forall_mem_cons] at each
    rw [List.map_cons, List.cons_append, each.1, ih each.2, List.flatMap_cons,
      Array.append_assoc, List.append_toArray tree.ids]

/-- The loop visits the subtree whose topmost node lies on top of the stack, and goes on with what
is below. -/
theorem visit_subtree (numbered : tree.IsNumbered) (there : subtree ∈ tree.subtrees)
    (stack : List NodeId) (visited : Array NodeId) :
    tree.arena.visit (subtree.id :: stack) visited =
      tree.arena.visit stack (visited ++ subtree.ids.toArray) := by
  induction subtree using induction generalizing stack visited with
  | node root children ih =>
    have row : tree.arena.row? (node root children).id = some (root, children.map PlanTree.id) :=
      row?_arena_of_mem numbered there
    have each : ∀ child ∈ children, ∀ stack visited, tree.arena.visit (child.id :: stack) visited =
        tree.arena.visit stack (visited ++ child.ids.toArray) := fun child under =>
      ih child under (child_mem_subtrees there under)
    rw [visit_cons row, visit_trees stack each, ids_node]
    congr 1
    rw [← Array.toList_inj]
    simp [PlanTree.id, PlanTree.root]

/-- The loop lists the nodes of a subtree, a node before those below it and these in order. There is
a result exactly when the node is there. -/
theorem descendants_arena (numbered : tree.IsNumbered) (id : NodeId) :
    tree.arena.descendants id = (tree.find? id).map ids := by
  by_cases inside : id ∈ tree.ids
  · obtain ⟨subtree, there, rfl⟩ := exists_subtree inside
    rw [PlanArena.descendants, visit_subtree numbered there, PlanArena.visit,
      find?_eq_some numbered.distinct there, Array.empty_append]
    rfl
  · have missing := row?_eq_none inside
    have absent : tree.find? id = none := Option.map_eq_none_iff.mp missing
    rw [PlanArena.descendants, PlanArena.visit, row?_arena numbered, missing, absent]
    rfl

/-- The ids of the subtree of a node. -/
def listingAt (tree : PlanTree) (id : NodeId) : List NodeId := ((tree.find? id).map ids).getD []

theorem listingAt_of_mem (distinct : tree.ids.Nodup) (there : subtree ∈ tree.subtrees) :
    tree.listingAt subtree.id = subtree.ids := by
  rw [listingAt, find?_eq_some distinct there]
  rfl

theorem listsSubtrees_arena (numbered : tree.IsNumbered) : tree.arena.ListsSubtrees where
  parentOf?_iff _ _ := parentOf?_arena_iff numbered
  listing := by
    refine ⟨tree.listingAt, fun id held => ?_, ?_⟩
    · obtain ⟨subtree, there, rfl⟩ := exists_subtree ((holds_arena_iff numbered).mp held)
      have below_listing : subtree.listed.flatMap tree.listingAt =
          subtree.children.flatMap ids := by
        rw [listed, List.flatMap_map]
        exact List.flatMap_congr fun child under =>
          listingAt_of_mem numbered.distinct (child_mem_subtrees there under)
      rw [descendants_arena numbered, find?_eq_some numbered.distinct there,
        below_arena_of_mem numbered there, listingAt_of_mem numbered.distinct there, below_listing]
      exact ⟨rfl, ids_eq_cons subtree, numbered.distinct.sublist (ids_sublist there)⟩
    · have all : tree.listingAt tree.arena.root = tree.ids :=
        listingAt_of_mem numbered.distinct (self_mem_subtrees tree)
      rw [all, size_arena numbered]
      exact numbered.ids_perm

theorem agreesWith_arena (numbered : tree.IsNumbered) : tree.AgreesWith tree.arena where
  root_eq := rfl
  size_eq := size_arena numbered
  row?_eq := row?_arena numbered
  parentOf?_eq := parentOf?_arena numbered
  descendants_eq := descendants_arena numbered

end PlanTree

namespace Plan

variable {α : Type}

/-- In every arena that operations lead to, the nodes are linked as a tree is, and parents and
subtrees are found as in a tree, as long as there are ids for all nodes. The tree of every plan that
operations lead to is stored in such an arena. -/
theorem nodes_form_tree :
    (∀ arena : PlanArena, arena.IsReached → arena.size ≤ idLimit →
      arena.IsTree ∧ arena.ListsSubtrees) ∧
      ∀ plan : Plan α, plan.IsReached → plan.tree.size ≤ idLimit →
        plan.tree.arena.IsReached ∧ plan.tree.AgreesWith plan.tree.arena := by
  refine ⟨fun arena reached bound => ?_, fun plan reached bound => ?_⟩
  · obtain ⟨tree, numbered, rfl⟩ := reached.exists_tree bound
    exact ⟨PlanTree.isTree_arena numbered, PlanTree.listsSubtrees_arena numbered⟩
  · exact ⟨reached.isStored.reached bound, PlanTree.agreesWith_arena reached.isStored.numbered⟩

theorem isReached_tenTimes : tenTimes.IsReached :=
  .ofLoop (show ofLoop tenTimes.program ⟨0⟩ = .ok tenTimes from rfl)

/-- A loop with an operator below it, split afterwards. The node that comes in between has the last
id, and it is the parent of the operator. -/
theorem nodes_form_tree_tenTimes : ∃ (plan : Plan Rat) (arena : PlanArena),
    plan.IsReached ∧ plan.tree.size ≤ idLimit ∧ arena.IsReached ∧ arena.size ≤ idLimit ∧
      arena = plan.tree.arena ∧
      arena.descendants arena.root = some [⟨0⟩, ⟨2⟩, ⟨1⟩] ∧ arena.parentOf? ⟨1⟩ = some ⟨2⟩ ∧
      arena.IsTree ∧ arena.ListsSubtrees := by
  have inside : (⟨0⟩ : NodeId) ∈ tenTimes.tree.ids := by decide
  have grown := isReached_tenTimes.addHopNode inside ⟨0⟩ .remote
  have divided := grown.run (.splitLoop 4 "__pixi") ⟨0⟩
  obtain ⟨arenas, plans⟩ := nodes_form_tree (α := Rat)
  obtain ⟨reached, agrees⟩ := plans _ divided (by decide +kernel)
  refine ⟨_, _, divided, ?_, reached, ?_, rfl, (agrees.descendants_eq _).trans ?_,
    (agrees.parentOf?_eq _).trans ?_, arenas _ reached ?_⟩
  · decide +kernel
  · decide +kernel
  · decide +kernel
  · decide +kernel
  · decide +kernel

end Plan

end ParallelLoop
