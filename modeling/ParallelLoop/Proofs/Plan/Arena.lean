/-
# The arena of a plan tree

The arena of a tree has one row for each node, with what the tree has there: the record of the
node and the list of those right below it. An operation that grows or changes a tree does the same
to its rows as the operation of that name does to an arena.

Hence every arena that operations lead to is the arena of a numbered tree, and what holds of the
arenas of all numbered trees is an invariant of arenas. All of this rests on ids for all nodes:
the node that comes next after them would get the id of the first one.
-/

import ParallelLoop.Plan.Arena
import ParallelLoop.Proofs.Plan.Locality

namespace ParallelLoop

/-! ## Rows of an arena -/

namespace PlanArena

variable {arena other : PlanArena} {node fresh : PlanNode} {list : List NodeId}
  {parent id : NodeId}

/-- The arena has a node with this id. -/
def Holds (arena : PlanArena) (id : NodeId) : Prop := id.index < arena.size

theorem holds_iff : arena.Holds id ↔ ∃ row, arena.row? id = some row := by
  unfold Holds size row?
  constructor
  · exact fun inside => ⟨_, Array.getElem?_eq_getElem inside⟩
  · rintro ⟨row, found⟩
    exact (Array.getElem?_eq_some_iff.mp found).1

theorem freshId_eq (room : arena.size < idLimit) : arena.freshId = ⟨arena.size⟩ :=
  NodeId.ofCount_of_lt room

theorem Holds.ne_freshId (inside : arena.Holds id) (room : arena.size < idLimit) :
    id ≠ arena.freshId := by
  rw [freshId_eq room]
  rintro rfl
  exact Nat.lt_irrefl _ inside

theorem below_of_row? (row : arena.row? id = some (node, list)) : arena.below id = list := by
  rw [below, row]
  rfl

/-- Arenas with the same rows are the same. -/
theorem eq_of_rows (root_eq : arena.root = other.root)
    (rows_eq : ∀ id, arena.row? id = other.row? id) : arena = other := by
  obtain ⟨rows, root⟩ := arena
  obtain ⟨otherRows, otherRoot⟩ := other
  have same : rows = otherRows := Array.ext_getElem? fun index => rows_eq ⟨index⟩
  exact congr (congrArg PlanArena.mk same) root_eq

theorem row?_push (room : arena.size < idLimit) (fresh : PlanNode) (id : NodeId) :
    (arena.push fresh).row? id =
      if id = arena.freshId then some (fresh, []) else arena.row? id := by
  unfold row? push
  rw [Array.getElem?_push, freshId_eq room]
  by_cases next : id = ⟨arena.size⟩
  · have last : id.index = arena.rows.size := congrArg NodeId.index next
    rw [if_pos next, if_pos last]
  · have earlier : id.index ≠ arena.rows.size := fun same => next (congrArg NodeId.mk same)
    rw [if_neg next, if_neg earlier]

theorem row?_modify (arena : PlanArena) (id : NodeId)
    (change : PlanNode × List NodeId → PlanNode × List NodeId) (other : NodeId) :
    (arena.modify id change).row? other =
      if other = id then (arena.row? id).map change else arena.row? other := by
  unfold row? modify
  rw [Array.getElem?_modify]
  by_cases here : other = id
  · rw [if_pos here, if_pos (congrArg NodeId.index here.symm), here]
  · rw [if_neg here, if_neg fun same => here (congrArg NodeId.mk same.symm)]

theorem row?_relist (arena : PlanArena) (id : NodeId) (change : List NodeId → List NodeId)
    (other : NodeId) : (arena.relist id change).row? other =
      if other = id then (arena.row? id).map fun row => (row.1, change row.2)
      else arena.row? other := row?_modify arena id _ other

theorem row?_update (arena : PlanArena) (id : NodeId) (change : PlanNode → PlanNode)
    (other : NodeId) : (arena.update id change).row? other =
      if other = id then (arena.row? id).map fun row => (change row.1, row.2)
      else arena.row? other := row?_modify arena id _ other

/-- The rows after a node was added: that of the parent, that of the new one, and the others. -/
theorem row?_addChild (inside : arena.Holds parent) (room : arena.size < idLimit)
    (fresh : PlanNode) (id : NodeId) :
    (arena.addChild parent fresh).row? id =
      if id = parent then (arena.row? parent).map fun row => (row.1, row.2 ++ [fresh.id])
      else if id = arena.freshId then some (fresh, []) else arena.row? id := by
  rw [addChild, row?_relist, row?_push room, row?_push room, if_neg (inside.ne_freshId room)]

/-- The rows after a node was added in between. -/
theorem row?_insertBelow (inside : arena.Holds parent) (room : arena.size < idLimit)
    (next : fresh.id = arena.freshId) (id : NodeId) :
    (arena.insertBelow parent fresh).row? id =
      if id = parent then (arena.row? parent).map fun row => (row.1, [fresh.id])
      else if id = arena.freshId then some (fresh, arena.below parent) else arena.row? id := by
  have different : parent ≠ arena.freshId := inside.ne_freshId room
  have moved : (arena.push fresh).below parent = arena.below parent := by
    rw [below, row?_push room, if_neg different, below]
  unfold insertBelow
  simp only [row?_relist, row?_push room, moved, next, different, different.symm, if_true, if_false]
  by_cases here : id = parent
  · rw [if_pos here, if_pos here, Option.map_map]
    rfl
  · rw [if_neg here, if_neg here, if_neg here]
    split <;> rfl

/-! ### Sizes -/

theorem size_relist (arena : PlanArena) (id : NodeId) (change : List NodeId → List NodeId) :
    (arena.relist id change).size = arena.size := Array.size_modify ..

theorem size_addChild (arena : PlanArena) (parent : NodeId) (fresh : PlanNode) :
    (arena.addChild parent fresh).size = arena.size + 1 := by
  rw [addChild, size_relist, size, push, Array.size_push, size]

theorem size_insertBelow (arena : PlanArena) (parent : NodeId) (fresh : PlanNode) :
    (arena.insertBelow parent fresh).size = arena.size + 1 := by
  unfold insertBelow
  rw [size_relist, size_relist, size_relist, size, push, Array.size_push, size]

theorem size_update (arena : PlanArena) (id : NodeId) (change : PlanNode → PlanNode) :
    (arena.update id change).size = arena.size := Array.size_modify ..

end PlanArena

/-! ## Rows of a tree -/

namespace PlanTree

variable {tree subtree child : PlanTree} {root fresh : PlanNode} {children : List PlanTree}
  {change : PlanNode → PlanNode} {id parent other : NodeId}

/-- The ids of a numbered tree are all numbers below its size. -/
theorem IsNumbered.ids_perm (numbered : tree.IsNumbered) :
    tree.ids.Perm ((List.range tree.size).map NodeId.mk) := by
  have inside : tree.ids ⊆ (List.range tree.size).map NodeId.mk := fun id there =>
    List.mem_map.mpr ⟨id.index, List.mem_range.mpr (numbered.lt_size id there), rfl⟩
  apply (List.subperm_of_subset numbered.distinct inside).perm_of_length_le
  rw [List.length_map, List.length_range, length_ids]

theorem IsNumbered.mem_ids_iff (numbered : tree.IsNumbered) :
    id ∈ tree.ids ↔ id.index < tree.size := by
  rw [numbered.ids_perm.mem_iff, List.mem_map]
  constructor
  · rintro ⟨index, inside, rfl⟩
    exact List.mem_range.mp inside
  · exact fun inside => ⟨id.index, List.mem_range.mpr inside, rfl⟩

theorem row?_eq_none (absent : id ∉ tree.ids) : tree.row? id = none := by
  cases row : tree.row? id with
  | none => rfl
  | some row => exact absurd (mem_ids_of_row? row) absent

/-- The row of a subtree. -/
theorem row?_of_mem (distinct : tree.ids.Nodup) (member : subtree ∈ tree.subtrees) :
    tree.row? subtree.id = some (subtree.root, subtree.children.map PlanTree.id) := by
  rw [row?, find?_eq_some distinct member]
  rfl

/-- The rows after a record was changed. -/
theorem row?_update_eq (distinct : tree.ids.Nodup) (keeps : ∀ node, (change node).id = node.id)
    (other : NodeId) : (tree.update id change).row? other =
      if other = id then (tree.row? id).map fun row => (change row.1, row.2)
      else tree.row? other := by
  split
  next here =>
    subst here
    rw [update_eq_mapNodes distinct, row?_mapNodes fun node => by split <;> simp [keeps]]
    cases row : tree.row? other with
    | none => rfl
    | some found => rw [Option.map_some, Option.map_some, if_pos (id_of_row? row)]
  next different => exact row?_update distinct keeps different

/-- Rebuilding a node rebuilds it in every subtree, as long as the trees below it stay subtrees. -/
theorem alter_mem_subtrees (id : NodeId) (rebuild : PlanNode → List PlanTree → PlanTree)
    (distinct : tree.ids.Nodup)
    (stays : ∀ root children, ∀ child ∈ children, child ∈ (rebuild root children).subtrees)
    (there : subtree ∈ tree.subtrees) :
    subtree.alter id rebuild ∈ (tree.alter id rebuild).subtrees := by
  induction tree using induction with
  | node top trees ih =>
    rcases mem_subtrees_node.mp there with rfl | ⟨child, inside, deeper⟩
    · exact self_mem_subtrees _
    · rw [alter]
      split
      next here =>
        -- The node is above the subtree, so it is not in it.
        have absent : id ∉ subtree.ids := by
          intro listed
          obtain ⟨node, member, node_eq⟩ := List.mem_map.mp listed
          have apart := id_ne_of_child distinct inside ((nodes_sublist deeper).subset member)
          exact apart (node_eq.trans here.symm)
        rw [alter_eq_self absent]
        exact mem_subtrees_trans deeper (stays top trees child inside)
      next =>
        have distinctChild := distinct.sublist (ids_sublist (mem_subtrees_of_mem_children inside))
        rw [alterAll_eq_map]
        exact mem_subtrees_node.mpr
          (.inr ⟨_, List.mem_map_of_mem inside, ih child inside distinctChild deeper⟩)

/-- The rows after a node was added: that of the parent, that of the new one, and the others. -/
theorem IsNumbered.row?_addChild (numbered : tree.IsNumbered) (inside : parent ∈ tree.ids)
    (next : fresh.id = tree.freshId) (other : NodeId) :
    (tree.addChild parent fresh).row? other =
      if other = parent then (tree.row? parent).map fun row => (row.1, row.2 ++ [fresh.id])
      else if other = fresh.id then some (fresh, []) else tree.row? other := by
  have distinct := (numbered.addChild inside next).distinct
  rw [ids_eq_map_subtrees] at inside
  obtain ⟨⟨root, below⟩, member, rfl⟩ := List.mem_map.mp inside
  -- The parent is found again, with the fresh leaf as its last child.
  have grown : node root (below ++ [node fresh []]) ∈ (tree.addChild root.id fresh).subtrees := by
    have rebuilt := alter_mem_subtrees root.id
      (fun root children => node root (children ++ [node fresh []])) numbered.distinct
      (fun _ _ _ inside => mem_subtrees_of_mem_children (List.mem_append_left _ inside)) member
    rwa [alter, if_pos rfl] at rebuilt
  split
  next here =>
    subst here
    have row : (tree.addChild root.id fresh).row? root.id =
        some (root, (below ++ [node fresh []]).map PlanTree.id) := row?_of_mem distinct grown
    rw [List.map_append] at row
    rw [row?_of_mem numbered.distinct member]
    exact row
  next different =>
    split
    next new =>
      subst new
      have leaf : node fresh [] ∈ (node root (below ++ [node fresh []])).subtrees :=
        mem_subtrees_of_mem_children (List.mem_append_right _ (List.mem_singleton_self _))
      exact row?_of_mem distinct (mem_subtrees_trans leaf grown)
    next old => exact PlanTree.row?_addChild tree different old

/-! ## The arena of a tree -/

theorem map_some_rows_arena (numbered : tree.IsNumbered) :
    tree.arena.rows.toList.map some =
      (List.range tree.size).map fun index => tree.row? ⟨index⟩ := by
  have rows : tree.arena.rows.toList =
      (List.range tree.size).filterMap fun index => tree.row? ⟨index⟩ := rfl
  -- No number below the size is left out, so the rows lie at the numbers of their nodes.
  rw [rows, List.map_filterMap_some_eq_filter_map_isSome, List.filter_eq_self]
  intro row listed
  obtain ⟨index, inside, rfl⟩ := List.mem_map.mp listed
  obtain ⟨_, _, found⟩ := exists_row (numbered.mem_ids_iff.mpr (List.mem_range.mp inside))
  exact found ▸ rfl

theorem size_arena (numbered : tree.IsNumbered) : tree.arena.size = tree.size := by
  have lengths := congrArg List.length (map_some_rows_arena numbered)
  rwa [List.length_map, List.length_map, List.length_range] at lengths

theorem holds_arena_iff (numbered : tree.IsNumbered) : tree.arena.Holds id ↔ id ∈ tree.ids := by
  rw [PlanArena.Holds, size_arena numbered, numbered.mem_ids_iff]

/-- An arena says of a node what the tree says. -/
theorem row?_arena (numbered : tree.IsNumbered) (id : NodeId) :
    tree.arena.row? id = tree.row? id := by
  by_cases inside : id ∈ tree.ids
  · have rows := congrArg (fun rows => rows[id.index]?) (map_some_rows_arena numbered)
    rw [List.getElem?_map, List.getElem?_map,
      List.getElem?_range (numbered.mem_ids_iff.mp inside), Array.getElem?_toList] at rows
    obtain ⟨row, found, same⟩ := Option.map_eq_some_iff.mp rows
    exact found.trans same
  · rw [row?_eq_none inside]
    cases found : tree.arena.row? id with
    | none => rfl
    | some row =>
      exact absurd ((holds_arena_iff numbered).mp (PlanArena.holds_iff.mpr ⟨row, found⟩)) inside

theorem freshId_arena (numbered : tree.IsNumbered) (room : tree.size < idLimit) :
    tree.arena.freshId = tree.freshId := by
  rw [PlanArena.freshId, size_arena numbered, NodeId.ofCount_of_lt room, freshId]

theorem below_arena (numbered : tree.IsNumbered) (id : NodeId) :
    tree.arena.below id = ((tree.row? id).map Prod.snd).getD [] := by
  rw [PlanArena.below, row?_arena numbered]

/-! ## Operations on both sides -/

theorem isNumbered_single (first : root.id = ⟨0⟩) : (node root []).IsNumbered := by
  have ids : (node root []).ids = [⟨0⟩] := congrArg (fun id => [id]) first
  refine ⟨ids ▸ List.nodup_singleton _, ?_⟩
  rw [ids, List.forall_mem_singleton]
  exact Nat.zero_lt_one

theorem IsNumbered.insertBelow (numbered : tree.IsNumbered) (inside : parent ∈ tree.ids)
    (next : fresh.id = tree.freshId) : (tree.insertBelow parent fresh).IsNumbered := by
  apply numbered.of_perm
  rw [← next]
  exact ids_insertBelow numbered.distinct inside

theorem IsNumbered.update (numbered : tree.IsNumbered)
    (keeps : ∀ node, (change node).id = node.id) (id : NodeId) :
    (tree.update id change).IsNumbered :=
  (isNumbered_congr (ids_update keeps tree)).mpr numbered

theorem arena_single (first : root.id = ⟨0⟩) : (node root []).arena = .single root := by
  cases root
  cases first
  rfl

theorem arena_addChild (numbered : tree.IsNumbered) (room : tree.size < idLimit)
    (inside : parent ∈ tree.ids) (next : fresh.id = tree.freshId) :
    (tree.addChild parent fresh).arena = tree.arena.addChild parent fresh := by
  have stillRoom : tree.arena.size < idLimit := size_arena numbered ▸ room
  refine PlanArena.eq_of_rows (congrArg PlanNode.id (root_addChild tree fresh)) fun id => ?_
  rw [row?_arena (numbered.addChild inside next), numbered.row?_addChild inside next,
    PlanArena.row?_addChild ((holds_arena_iff numbered).mpr inside) stillRoom,
    freshId_arena numbered room, next, row?_arena numbered, row?_arena numbered]

theorem arena_insertBelow (numbered : tree.IsNumbered) (room : tree.size < idLimit)
    (inside : parent ∈ tree.ids) (next : fresh.id = tree.freshId) :
    (tree.insertBelow parent fresh).arena = tree.arena.insertBelow parent fresh := by
  have held := (holds_arena_iff numbered).mpr inside
  have stillRoom : tree.arena.size < idLimit := size_arena numbered ▸ room
  have nextRow : fresh.id = tree.arena.freshId := next.trans (freshId_arena numbered room).symm
  have wedged : tree.insertBelow parent fresh = tree.alter parent (wedge fresh fun node => node) :=
    rfl
  refine PlanArena.eq_of_rows ?_ fun id => ?_
  · exact wedged ▸ id_wedge (fun _ => rfl) tree
  · -- The new node takes over the list that the parent has in the tree.
    obtain ⟨_, _, row⟩ := exists_row inside
    have absent : fresh.id ∉ tree.ids := next ▸ numbered.freshId_not_mem
    rw [row?_arena (numbered.insertBelow inside next), wedged,
      row?_alter_wedge tree parent (fun _ => rfl) absent,
      PlanArena.row?_insertBelow held stillRoom nextRow, row?_arena numbered, row?_arena numbered,
      below_arena numbered, ← nextRow, row]
    rfl

theorem arena_update (numbered : tree.IsNumbered) (keeps : ∀ node, (change node).id = node.id)
    (id : NodeId) : (tree.update id change).arena = tree.arena.update id change := by
  refine PlanArena.eq_of_rows ?_ fun other => ?_
  · exact (keepsRows_update numbered.distinct keeps).top
  · rw [row?_arena (numbered.update keeps id), row?_update_eq numbered.distinct keeps,
      PlanArena.row?_update, row?_arena numbered, row?_arena numbered]

end PlanTree

/-! ## Runs of operations -/

/-- The arenas that operations lead to from a single node. What is recorded for a node may change in
any way, but for its id. -/
inductive PlanArena.IsReached : PlanArena → Prop
  | single {top : PlanNode} (first : top.id = ⟨0⟩) : IsReached (single top)
  | addChild {arena : PlanArena} {parent : NodeId} {fresh : PlanNode} (reached : IsReached arena)
      (inside : arena.Holds parent) (next : fresh.id = arena.freshId) :
      IsReached (arena.addChild parent fresh)
  | insertBelow {arena : PlanArena} {parent : NodeId} {fresh : PlanNode}
      (reached : IsReached arena) (inside : arena.Holds parent)
      (next : fresh.id = arena.freshId) : IsReached (arena.insertBelow parent fresh)
  | update {arena : PlanArena} {change : PlanNode → PlanNode} (reached : IsReached arena)
      (id : NodeId) (keeps : ∀ node, (change node).id = node.id) :
      IsReached (arena.update id change)

/-- An arena that operations lead to is the arena of a numbered tree, as long as there are ids for
all of its nodes. -/
theorem PlanArena.IsReached.exists_tree {arena : PlanArena} (reached : arena.IsReached)
    (bound : arena.size ≤ idLimit) : ∃ tree : PlanTree, tree.IsNumbered ∧ tree.arena = arena := by
  -- Arenas only grow, so there was room for the new node in the arena before.
  induction reached with
  | single first => exact ⟨_, PlanTree.isNumbered_single first, PlanTree.arena_single first⟩
  | addChild _ inside next ih =>
    rw [size_addChild] at bound
    obtain ⟨tree, numbered, rfl⟩ := ih (Nat.le_of_succ_le bound)
    rw [PlanTree.size_arena numbered] at bound
    rw [PlanTree.holds_arena_iff numbered] at inside
    rw [PlanTree.freshId_arena numbered bound] at next
    exact ⟨_, numbered.addChild inside next, PlanTree.arena_addChild numbered bound inside next⟩
  | insertBelow _ inside next ih =>
    rw [size_insertBelow] at bound
    obtain ⟨tree, numbered, rfl⟩ := ih (Nat.le_of_succ_le bound)
    rw [PlanTree.size_arena numbered] at bound
    rw [PlanTree.holds_arena_iff numbered] at inside
    rw [PlanTree.freshId_arena numbered bound] at next
    exact ⟨_, numbered.insertBelow inside next,
      PlanTree.arena_insertBelow numbered bound inside next⟩
  | update _ id keeps ih =>
    obtain ⟨tree, numbered, rfl⟩ := ih (size_update .. ▸ bound)
    exact ⟨_, numbered.update keeps id, PlanTree.arena_update numbered keeps id⟩

namespace PlanTree

variable {tree : PlanTree} {root fresh : PlanNode} {change : PlanNode → PlanNode}
  {id parent : NodeId}

/-- The tree is numbered, and operations on arenas lead to its arena if there are ids for all of its
nodes. -/
structure IsStored (tree : PlanTree) : Prop where
  numbered : tree.IsNumbered
  reached (bound : tree.size ≤ idLimit) : tree.arena.IsReached

theorem isStored_single (first : root.id = ⟨0⟩) : (node root []).IsStored where
  numbered := isNumbered_single first
  reached _ := arena_single first ▸ .single first

theorem IsStored.addChild (stored : tree.IsStored) (inside : parent ∈ tree.ids)
    (next : fresh.id = tree.freshId) : (tree.addChild parent fresh).IsStored where
  numbered := stored.numbered.addChild inside next
  reached bound := by
    rw [size_of_perm (ids_addChild stored.numbered.distinct inside)] at bound
    have room : tree.size < idLimit := bound
    rw [arena_addChild stored.numbered room inside next]
    exact .addChild (stored.reached room.le) ((holds_arena_iff stored.numbered).mpr inside)
      (next.trans (freshId_arena stored.numbered room).symm)

theorem IsStored.insertBelow (stored : tree.IsStored) (inside : parent ∈ tree.ids)
    (next : fresh.id = tree.freshId) : (tree.insertBelow parent fresh).IsStored where
  numbered := stored.numbered.insertBelow inside next
  reached bound := by
    rw [size_of_perm (ids_insertBelow stored.numbered.distinct inside)] at bound
    have room : tree.size < idLimit := bound
    rw [arena_insertBelow stored.numbered room inside next]
    exact .insertBelow (stored.reached room.le) ((holds_arena_iff stored.numbered).mpr inside)
      (next.trans (freshId_arena stored.numbered room).symm)

theorem IsStored.update (stored : tree.IsStored) (keeps : ∀ node, (change node).id = node.id)
    (id : NodeId) : (tree.update id change).IsStored where
  numbered := stored.numbered.update keeps id
  reached bound := by
    have ids : (tree.update id change).ids = tree.ids := ids_update keeps tree
    rw [← length_ids, ids, length_ids] at bound
    exact arena_update stored.numbered keeps id ▸ .update (stored.reached bound) id keeps

end PlanTree

namespace Plan

open Change (Maintains Respects)

variable {α : Type} {plan after : Plan α} {id parent : NodeId}

/-- The plans that a single node, or a parallel loop, comes to by additions, decisions, splits and
demotions, whether these succeed or stop. The program may be any, and it may change meanwhile. -/
inductive IsReached : Plan α → Prop
  | single (kind : NodeKind) (placement : Placement) (program : Program α) :
      IsReached { tree := .single kind placement, program }
  | ofLoop {program : Program α} {root : BlockId} {plan : Plan α}
      (done : ofLoop program root = .ok plan) : IsReached plan
  | addChild {plan : Plan α} {parent : NodeId} (reached : IsReached plan)
      (inside : parent ∈ plan.tree.ids) (kind : NodeKind) (placement : Placement) :
      IsReached { plan with
        tree := plan.tree.addChild parent { id := plan.tree.freshId, kind, placement } }
  | update {plan : Plan α} {change : PlanNode → PlanNode} (reached : IsReached plan) (id : NodeId)
      (keeps : ∀ node, (change node).id = node.id) :
      IsReached { plan with tree := plan.tree.update id change }
  | addBlockNode {plan : Plan α} {parent : NodeId} (reached : IsReached plan)
      (inside : parent ∈ plan.tree.ids) (block : BlockId) :
      IsReached ((addBlockNode parent block).result plan).2
  | addHopNode {plan : Plan α} {parent : NodeId} (reached : IsReached plan)
      (inside : parent ∈ plan.tree.ids) (hop : HopId) (placement : Placement) :
      IsReached ((addHopNode parent hop placement).result plan).2
  | run {plan : Plan α} (reached : IsReached plan) (operation : Operation α) (id : NodeId) :
      IsReached ((operation.run id).result plan).2
  | reprogram {plan : Plan α} (reached : IsReached plan) (program : Program α) :
      IsReached { plan with program }

/-- The tree of a plan is stored. -/
def IsStored (plan : Plan α) : Prop := plan.tree.IsStored

section Decisions

variable {changeRecord : PlanNode → PlanNode}
  {changeSettings : ParallelSettings α → ParallelSettings α}

theorem maintains_updateSettings :
    Respects (Maintains IsStored) (updateSettings id changeSettings) :=
  (preserves_tree_updateSettings id changeSettings).maintains PlanTree.IsStored

theorem maintains_updateNode (keeps : ∀ node, (changeRecord node).id = node.id) :
    Respects (Maintains (IsStored (α := α))) (updateNode id changeRecord) :=
  .modify fun _ stored => stored.update keeps id

theorem maintains_decision (keeps : ∀ node, (changeRecord node).id = node.id) :
    Respects (Maintains IsStored)
      (do updateSettings id changeSettings; updateNode id changeRecord) :=
  .bind maintains_updateSettings fun _ => maintains_updateNode keeps

theorem maintains_setPlacement (placement : Placement) :
    Respects (Maintains (IsStored (α := α))) (setPlacement id placement) := by
  refine .bind .get fun plan => ?_
  split
  next => exact .fail _
  next node _ =>
    have record : Respects (Maintains (IsStored (α := α)))
        (updateNode id fun node => { node with placement }) := maintains_updateNode fun _ => rfl
    dsimp only
    split
    next => exact .bind maintains_updateSettings fun _ => record
    next => exact record

end Decisions

/-- A split puts one node in between, and changes the record of another. -/
theorem maintains_splitLoop (chunk : Nat) (var : String) :
    Respects (Maintains (IsStored (α := α))) (splitLoop id chunk var) := by
  intro plan stored
  rcases step : (splitLoop id chunk var).result plan with ⟨outcome, after⟩
  cases outcome with
  | error cause => exact isAtomic_splitLoop chunk var _ _ _ step ▸ stored
  | ok inner =>
    obtain ⟨_, _, _, count, _, _, _, -, -, found, -, -, -, -, tree_eq, -⟩ := of_splitLoop step
    have grown : (plan.tree.insertBelow id (plan.innerNode (max chunk 1))).IsStored :=
      stored.insertBelow (mem_ids_of_node found) rfl
    unfold IsStored
    rw [tree_eq]
    exact grown.update (id_outerNode count (max chunk 1)) id

theorem maintains_demote : Respects (Maintains (IsStored (α := α))) (demote id) :=
  .bind (.inspect _) fun _ => .bind (.inspect _) fun _ => .bind (.ofExcept _) fun _ =>
    .bind .get fun _ => .bind (.modify fun _ stored => stored) fun _ =>
    maintains_updateNode fun _ => rfl

/-- Every operation keeps a tree stored, whether it succeeds or stops. -/
theorem maintains_run (operation : Operation α) (id : NodeId) :
    Respects (Maintains IsStored) (operation.run id) := by
  cases operation with
  | setPlacement placement => exact maintains_setPlacement placement
  | setWorkers | setTaskPartitioner | setDataPartitioner | setResultMerge =>
    exact maintains_decision fun _ => rfl
  | serialize => exact respects_serialize fun _ => maintains_decision fun _ => rfl
  | setPartitionFormat format slice =>
    exact .bind (.inspect _) fun _ => .bind (.inspect _) fun _ =>
      .bind (.modify fun _ stored => stored) fun _ => maintains_updateNode fun _ => rfl
  | setRecompileBudget | setColocated => exact maintains_updateSettings
  | splitLoop chunk var => exact .bind (maintains_splitLoop chunk var) fun _ => .pure _
  | demote => exact maintains_demote

/-- A new node is put in only when its parent is found. -/
theorem isAtomic_addHopNode (parent : NodeId) (hop : HopId) (placement : Placement) :
    Change.IsAtomic (addHopNode (α := α) parent hop placement) :=
  .get_bind fun _ => .get_bind fun _ => .get_bind fun _ => .ofOutcome_bind _ fun _ =>
    (Change.IsAtomic.modify _).bind_total fun _ _ => rfl

theorem IsReached.isStored (reached : plan.IsReached) : plan.IsStored := by
  -- An addition that stops leaves the plan as it is, and one that succeeds adds the next node.
  induction reached with
  | single => exact PlanTree.isStored_single rfl
  | ofLoop done =>
    obtain ⟨block, -, chosen⟩ := Outcome.of_bind done
    split at chosen
    next => cases chosen
    next =>
      obtain ⟨node, node_eq, returned⟩ := Outcome.of_bind chosen
      cases returned
      exact PlanTree.isStored_single (of_nodeOfBlock node_eq).1
  | addChild _ inside kind placement ih => exact ih.addChild inside rfl
  | update _ id keeps ih => exact ih.update keeps id
  | @addBlockNode plan parent _ inside block ih =>
    rcases step : (Plan.addBlockNode parent block).result plan with ⟨outcome, after⟩
    cases outcome with
    | error cause => exact isAtomic_addBlockNode parent block _ _ _ step ▸ ih
    | ok fresh =>
      obtain ⟨_, _, -, node_eq, -, rfl⟩ := of_addBlockNode step
      exact ih.addChild inside (of_nodeOfBlock node_eq).1
  | @addHopNode plan parent _ inside hop placement ih =>
    rcases step : (Plan.addHopNode parent hop placement).result plan with ⟨outcome, after⟩
    cases outcome with
    | error cause => exact isAtomic_addHopNode parent hop placement _ _ _ step ▸ ih
    | ok fresh =>
      obtain ⟨_, next, -, -, -, rfl⟩ := of_addHopNode step
      exact ih.addChild inside next
  | run _ operation id ih => exact maintains_run operation id _ ih
  | reprogram _ program ih => exact ih

end Plan

end ParallelLoop
