/-
# What a loop was before it was split

The trip count that a loop had before a split is put together from what the split left: there is one
parallel loop right below it, its own bounds count chunks by the given variable, and the bounds of
the other loop start at that variable. `splitTripCount_of_row` names everything that is looked up.

Decisions change none of it, and neither do new nodes, unless they come right below the loop itself.
`DevelopsAround` is a run of such steps. Nor does the split of another loop, if that loop is between
constants. The other loop can be the only one right below, so that its bounds are looked at, too,
but bounds that start at a constant show no split, before and after. For the inner loop of a split
this does not hold: its bounds start at a variable, and when it is split once more, their new step
shows in the loop above.
-/

import ParallelLoop.Proofs.Plan.Splitting

namespace ParallelLoop

/-! ## Rows of a tree -/

namespace PlanTree

variable {tree : PlanTree} {node root fresh : PlanNode} {below : List NodeId}
  {change : PlanNode → PlanNode} {id other parent inner : NodeId}

theorem node?_eq_row? (tree : PlanTree) (id : NodeId) :
    tree.node? id = (tree.row? id).map Prod.fst := by
  rw [row?, Option.map_map]
  rfl

theorem exists_row (there : id ∈ tree.ids) : ∃ node below, tree.row? id = some (node, below) := by
  rw [ids_eq_map_subtrees] at there
  obtain ⟨subtree, member, rfl⟩ := List.mem_map.mp there
  have found : (tree.find? subtree.id).isSome = true :=
    List.find?_isSome.mpr ⟨subtree, member, by simp⟩
  obtain ⟨first, first_eq⟩ := Option.isSome_iff_exists.mp found
  exact ⟨_, _, congrArg (Option.map _) first_eq⟩

theorem mem_ids_of_row? (row : tree.row? id = some (node, below)) : id ∈ tree.ids := by
  obtain ⟨subtree, found, -⟩ := Option.map_eq_some_iff.mp row
  have same : subtree.id = id := by simpa using List.find?_some found
  rw [ids_eq_map_subtrees, ← same]
  exact List.mem_map_of_mem (List.mem_of_find?_eq_some found)

/-- The nodes right below one are nodes of the tree. -/
theorem mem_ids_of_below (row : tree.row? id = some (node, below)) (there : inner ∈ below) :
    inner ∈ tree.ids := by
  obtain ⟨subtree, found, read⟩ := Option.map_eq_some_iff.mp row
  obtain ⟨-, rfl⟩ := Prod.mk.inj read
  obtain ⟨child, inside, rfl⟩ := List.mem_map.mp there
  rw [ids_eq_map_subtrees]
  exact List.mem_map_of_mem
    (mem_subtrees_trans (mem_subtrees_of_child inside) (List.mem_of_find?_eq_some found))

theorem row?_mapNodes (keeps : ∀ node, (change node).id = node.id) (tree : PlanTree)
    (id : NodeId) :
    (tree.mapNodes change).row? id = (tree.row? id).map fun row => (change row.1, row.2) := by
  induction tree using induction with
  | node root children ih =>
    have ids : (children.map (mapNodes change)).map PlanTree.id = children.map PlanTree.id := by
      rw [List.map_map]
      exact List.map_congr_left fun child _ => (congrArg PlanNode.id (root_mapNodes child)).trans
        (keeps child.root)
    rw [mapNodes_node, row?_node, row?_node, keeps, ids, List.findSome?_map]
    split
    next => rfl
    next =>
      rw [List.map_findSome?]
      exact findSome?_congr ih

/-- A new node changes the rows of no nodes but of that right above it. -/
theorem row?_addChild (tree : PlanTree) (different : other ≠ parent) (old : other ≠ fresh.id) :
    (tree.addChild parent fresh).row? other = tree.row? other := by
  unfold addChild
  induction tree using induction with
  | node root children ih =>
    unfold alter
    by_cases here : root.id = parent
    · rw [if_pos here, row?_node, row?_node, if_neg (here ▸ different.symm),
        if_neg (here ▸ different.symm), List.findSome?_append, List.findSome?_singleton, row?_node,
        if_neg old.symm]
      exact Option.or_none
    · have ids : (alterAll parent (fun root children => node root (children ++ [node fresh []]))
          children).map PlanTree.id = children.map PlanTree.id := by
        rw [alterAll_eq_map, List.map_map]
        exact List.map_congr_left fun child _ => congrArg PlanNode.id (root_addChild child fresh)
      rw [if_neg here, row?_node, row?_node, ids, alterAll_eq_map, List.findSome?_map]
      exact congrArg (fun found => if root.id = other then some _ else found)
        (findSome?_congr ih)

/-- A new node changes no record. -/
theorem node?_addChild (tree : PlanTree) (old : other ≠ fresh.id) :
    (tree.addChild parent fresh).node? other = tree.node? other := by
  unfold addChild
  induction tree using induction with
  | node root children ih =>
    unfold alter
    by_cases here : root.id = parent
    · rw [if_pos here, node?_node, node?_node, List.findSome?_append, List.findSome?_singleton,
        node?_node, if_neg old.symm]
      exact congrArg _ Option.or_none
    · rw [if_neg here, node?_node, node?_node, alterAll_eq_map, List.findSome?_map]
      exact congrArg (fun found => if root.id = other then some root else found)
        (findSome?_congr ih)

/-- A subtree stays when a node is added outside of it. -/
theorem mem_subtrees_addChild {tree subtree : PlanTree} (there : subtree ∈ tree.subtrees)
    (outside : parent ∉ subtree.ids) (fresh : PlanNode) :
    subtree ∈ (tree.addChild parent fresh).subtrees := by
  unfold addChild
  induction tree using induction with
  | node root children ih =>
    rcases mem_subtrees_node.mp there with rfl | ⟨child, inside, deeper⟩
    · rw [alter_eq_self outside]
      exact self_mem_subtrees _
    · rw [alter]
      split
      · exact mem_subtrees_node.mpr (.inr ⟨child, List.mem_append_left _ inside, deeper⟩)
      · rw [alterAll_eq_map]
        exact mem_subtrees_node.mpr
          (.inr ⟨_, List.mem_map_of_mem inside, ih child inside deeper⟩)

end PlanTree

namespace Plan

open Word (maxSigned)

variable {α : Type} {plan start after final : Plan α} {id other inner parent : NodeId}
  {chunk count : Nat} {var : String} {first last : Int} {node fresh : PlanNode}
  {below : List NodeId}

/-! ## What is looked up -/

/-- The bounds that the block of a node has, looked up step by step. -/
def blockBounds (plan : Plan α) (id : NodeId) : Except Error (Option LoopBounds) := do
  let block ← plan.program.block (← plan.blockOf id)
  return block.bounds

/-- The trip count before a split, as a node and the nodes right below it show it. -/
def countAbove (plan : Plan α) (id : NodeId) (var : String) :
    List NodeId → Except Failure (Option Nat)
  | [inner] =>
    if (plan.tree.node? inner).map PlanNode.kind = some .parfor then
      orFailure do chunkCount var (← plan.blockBounds id) (← plan.blockBounds inner)
    else .ok none
  | _ => .ok none

/-- Whether a loop is taken for one that was split is read from the list of the nodes right below
it, the kind of the only one, and the bounds of the two. -/
theorem splitTripCount_of_row (distinct : plan.tree.ids.Nodup)
    (row : plan.tree.row? id = some (node, below)) (var : String) :
    plan.splitTripCount id var = plan.countAbove id var below := by
  obtain ⟨subtree, found, read⟩ := Option.map_eq_some_iff.mp row
  obtain ⟨-, rfl⟩ := Prod.mk.inj read
  have inside := List.mem_of_find?_eq_some found
  unfold splitTripCount
  rw [found]
  dsimp only
  -- Only a single child, itself a parallel loop, can be the inner loop of a split.
  cases children_eq : subtree.children with
  | nil => rfl
  | cons inner rest =>
    cases rest with
    | nil =>
      have member : inner ∈ subtree.children := children_eq ▸ List.mem_cons_self ..
      have there := PlanTree.mem_subtrees_trans (PlanTree.mem_subtrees_of_child member) inside
      have record : plan.tree.node? inner.id = some inner.root :=
        PlanTree.node?_eq_some distinct (List.mem_map_of_mem there)
      rw [List.map_singleton, countAbove, record, Option.map_some]
      dsimp only
      by_cases parallel : inner.root.kind = .parfor
      · rw [if_neg (not_not.mpr parallel), if_pos (congrArg some parallel)]
        unfold blockBounds
        simp only [bind_assoc, pure_bind]
        rfl
      · rw [if_pos parallel, if_neg fun same => parallel (Option.some.inj same)]
        rfl
    | cons => rfl

/-- Two plans in which the same is looked up. -/
theorem splitTripCount_congr {node' : PlanNode} (distinct : plan.tree.ids.Nodup)
    (alsoDistinct : after.tree.ids.Nodup) (row : plan.tree.row? id = some (node, below))
    (alsoRow : after.tree.row? id = some (node', below))
    (outer : after.blockBounds id = plan.blockBounds id)
    (kinds : ∀ inner ∈ below, (after.tree.node? inner).map PlanNode.kind =
      (plan.tree.node? inner).map PlanNode.kind)
    (nested : ∀ inner ∈ below, ∀ bounds, (after.blockBounds inner >>= chunkCount var bounds) =
      (plan.blockBounds inner >>= chunkCount var bounds)) :
    after.splitTripCount id var = plan.splitTripCount id var := by
  rw [splitTripCount_of_row distinct row, splitTripCount_of_row alsoDistinct alsoRow]
  match below with
  | [] => rfl
  | [inner] =>
    have own : inner ∈ [inner] := List.mem_singleton_self inner
    rw [countAbove, countAbove, kinds inner own, outer]
    simp only [nested inner own]
  | _ :: _ :: _ => rfl

theorem blockBounds_congr (bound : after.blockOf id = plan.blockOf id)
    (held : ∀ top, plan.blockOf id = .ok top →
      (after.program.block top).map Block.bounds = (plan.program.block top).map Block.bounds) :
    after.blockBounds id = plan.blockBounds id := by
  unfold blockBounds
  rw [bound]
  cases found : plan.blockOf id with
  | error _ => rfl
  | ok top => exact held top found

/-! ## Decisions and additions -/

/-- The bounds of blocks are no decisions. -/
theorem ignores_blockBounds :
    Ignores PlanNode.given fun plan : Plan α => plan.program.blocks.map Block.bounds :=
  ignores_blocks fun _ _ => rfl

/-- Decisions leave what is looked up. -/
theorem splitTripCount_of_layout (distinct : plan.tree.ids.Nodup) (there : id ∈ plan.tree.ids)
    (same : after.layout = plan.layout)
    (bounds : after.program.blocks.map Block.bounds = plan.program.blocks.map Block.bounds)
    (var : String) : after.splitTripCount id var = plan.splitTripCount id var := by
  obtain ⟨node, below, row⟩ := PlanTree.exists_row there
  have keeps (node : PlanNode) : node.undecided.id = node.id := rfl
  have trees : after.tree.mapNodes PlanNode.undecided = plan.tree.mapNodes PlanNode.undecided :=
    congrArg Prod.fst same
  have rows := congrArg (fun tree => tree.row? id) trees
  rw [PlanTree.row?_mapNodes keeps, PlanTree.row?_mapNodes keeps, row] at rows
  obtain ⟨⟨twin, list⟩, alsoRow, twin_eq⟩ := Option.map_eq_some_iff.mp rows
  obtain ⟨-, rfl⟩ := Prod.mk.inj twin_eq
  have read (other : NodeId) : after.blockBounds other = plan.blockBounds other := by
    refine blockBounds_congr (blockOf_of_layout same other) fun top _ => ?_
    rw [Program.map_block, Program.map_block, bounds]
  -- The count is taken from the kinds of the nodes and the bounds of their blocks.
  refine splitTripCount_congr distinct (nodup_of_layout distinct same) row alsoRow (read id)
    (fun inner _ => ?_) fun inner _ _ => by rw [read]
  have records := congrArg (fun tree => (tree.node? inner).map PlanNode.kind) trees
  simp only [PlanTree.node?_mapNodes keeps, Option.map_map] at records
  exact records

/-- So does a new node that is not right below the loop. -/
theorem splitTripCount_addChild (numbered : plan.tree.IsNumbered) (there : id ∈ plan.tree.ids)
    (elsewhere : parent ≠ id) (inside : parent ∈ plan.tree.ids)
    (next : fresh.id = plan.tree.freshId) (var : String) :
    splitTripCount { plan with tree := plan.tree.addChild parent fresh } id var =
      plan.splitTripCount id var := by
  obtain ⟨node, below, row⟩ := PlanTree.exists_row there
  have old {other : NodeId} (known : other ∈ plan.tree.ids) : other ≠ fresh.id := by
    rintro rfl
    exact numbered.freshId_not_mem (next ▸ known)
  have stillNumbered := numbered.addChild inside next
  have records {other : NodeId} (known : other ∈ plan.tree.ids) :
      (plan.tree.addChild parent fresh).node? other = plan.tree.node? other :=
    plan.tree.node?_addChild (old known)
  have read {other : NodeId} (known : other ∈ plan.tree.ids) :
      blockBounds { plan with tree := plan.tree.addChild parent fresh } other =
        plan.blockBounds other := by
    refine blockBounds_congr ?_ fun _ _ => rfl
    rw [blockOf, blockOf, records known]
  refine splitTripCount_congr numbered.distinct stillNumbered.distinct row
    ((plan.tree.row?_addChild elsewhere.symm (old there)).trans row) (read there)
    (fun inner member => ?_) fun inner member _ => ?_
  · rw [records (PlanTree.mem_ids_of_below row member)]
  · rw [read (PlanTree.mem_ids_of_below row member)]

/-- Decisions about any nodes, and new nodes anywhere but right below one of them. -/
inductive DevelopsAround (id : NodeId) (start : Plan α) : Plan α → Prop
  | refl : DevelopsAround id start start
  | decide {plan after : Plan α} {operation : Operation α} {node : NodeId}
      (before : DevelopsAround id start plan)
      (whole : ∀ chunk var, operation ≠ .splitLoop chunk var) (loops : operation ≠ .demote)
      (done : (operation.run node).result plan = (.ok (), after)) : DevelopsAround id start after
  | addBlockNode {plan after : Plan α} {parent fresh : NodeId} {block : BlockId}
      (before : DevelopsAround id start plan) (elsewhere : parent ≠ id)
      (done : (addBlockNode parent block).result plan = (.ok fresh, after)) :
      DevelopsAround id start after
  | addHopNode {plan after : Plan α} {parent fresh : NodeId} {hop : HopId} {placement : Placement}
      (before : DevelopsAround id start plan) (elsewhere : parent ≠ id)
      (done : (addHopNode parent hop placement).result plan = (.ok fresh, after)) :
      DevelopsAround id start after

/-- Whatever is developed around a loop, it is taken for what it was at the start. -/
theorem DevelopsAround.splitTripCount_eq (develops : DevelopsAround id start final)
    (numbered : start.tree.IsNumbered) (there : id ∈ start.tree.ids) (var : String) :
    final.tree.IsNumbered ∧ id ∈ final.tree.ids ∧
      final.splitTripCount id var = start.splitTripCount id var := by
  induction develops with
  | refl => exact ⟨numbered, there, rfl⟩
  | decide _ whole loops done ih =>
    obtain ⟨numbered, there, kept⟩ := ih
    have same := (Operation.preserves_run ignores_layout.given whole loops).eq done
    have bounds := (Operation.preserves_run ignores_blockBounds whole loops).eq done
    exact ⟨isNumbered_of_layout numbered same, ids_eq_of_layout same ▸ there,
      (splitTripCount_of_layout numbered.distinct there same bounds var).trans kept⟩
  | addBlockNode _ elsewhere done ih =>
    obtain ⟨numbered, there, kept⟩ := ih
    obtain ⟨block, node, -, node_eq, inside, rfl⟩ := of_addBlockNode done
    obtain ⟨next, -⟩ := of_nodeOfBlock node_eq
    exact ⟨numbered.addChild inside next,
      PlanTree.mem_ids_addChild numbered.distinct inside there node,
      (splitTripCount_addChild numbered there elsewhere inside next var).trans kept⟩
  | addHopNode _ elsewhere done ih =>
    obtain ⟨numbered, there, kept⟩ := ih
    obtain ⟨node, next, -, -, inside, rfl⟩ := of_addHopNode done
    exact ⟨numbered.addChild inside next,
      PlanTree.mem_ids_addChild numbered.distinct inside there node,
      (splitTripCount_addChild numbered there elsewhere inside next var).trans kept⟩

/-! ## The split itself -/

theorem blockBounds_of_bounds? {bounds : LoopBounds} (found : plan.bounds? id = some bounds) :
    plan.blockBounds id = .ok (some bounds) := by
  obtain ⟨block, there, bounds_eq⟩ := Option.bind_eq_some_iff.mp found
  obtain ⟨top, bound, held⟩ := block?_eq_some_iff.mp there
  rw [blockBounds, bound, Outcome.ok_bind, held, Outcome.ok_bind, bounds_eq]
  rfl

/-- A loop that starts at a constant is not the inner one of a split. -/
theorem chunkCount_of_const {outer : Option LoopBounds} {nested : LoopBounds}
    (first_eq : nested.first = .const first) (var : String) :
    chunkCount var outer (some nested) = .ok none := by
  unfold chunkCount
  split
  next found =>
    cases found
    cases first_eq
  next => rfl

namespace LoopAt

variable {loop : plan.LoopAt id}

/-- The bounds of the two loops show the trip count of the loop. -/
theorem IsDivided.splitTripCount_eq (divided : loop.IsDivided count chunk var after)
    (numbered : plan.tree.IsNumbered) (distinct : after.tree.ids.Nodup)
    (first_eq : loop.bounds.first = .const first) (last_eq : loop.bounds.last = .const last)
    {iterations : Nat} (counted : iterationCount first last loop.bounds.step = .ok iterations) :
    after.splitTripCount id var = .ok (some iterations) := by
  have newNode : plan.tree.freshId ≠ id := by
    intro same
    exact numbered.freshId_not_mem (same ▸ mem_ids_of_node loop.node_eq)
  have outer := (divided.rows id).trans (if_pos rfl)
  have inner := (divided.rows plan.tree.freshId).trans ((if_neg newNode).trans (if_pos rfl))
  -- The outer loop still runs through the range, and the inner one has the step it had before.
  have shown : chunkCount var (some (loop.outer chunk var)) (some (loop.within chunk var)) =
      .ok (some iterations) := by
    unfold chunkCount LoopAt.outer LoopAt.within LoopBounds.chunks LoopBounds.withinChunk
    simp [first_eq, last_eq, counted, Except.map]
  have parallel : some (plan.innerNode chunk).kind = some NodeKind.parfor := rfl
  rw [splitTripCount_of_row distinct outer, countAbove, PlanTree.node?_of_row? inner,
    Option.map_some, if_pos parallel, blockBounds_of_bounds? divided.bounds?_outer,
    Outcome.ok_bind, blockBounds_of_bounds? (divided.bounds?_inner numbered), Outcome.ok_bind,
    shown]
  rfl

/-- No other node is taken for the outer loop of a split, or no longer taken for one, after the
split of a loop that starts at a constant. -/
theorem IsDivided.splitTripCount_of_ne (divided : loop.IsDivided count chunk var after)
    (formed : plan.IsFormed) (distinct : after.tree.ids.Nodup)
    (injective : ∀ first ∈ plan.tree.nodes, ∀ second ∈ plan.tree.nodes, ∀ block,
      first.block = some block → second.block = some block → first.id = second.id)
    (first_eq : loop.bounds.first = .const first) (there : other ∈ plan.tree.ids)
    (different : other ≠ id) (counter : String) :
    after.splitTripCount other counter = plan.splitTripCount other counter := by
  have rows {other : NodeId} (known : other ∈ plan.tree.ids) (different : other ≠ id) :
      after.tree.row? other = plan.tree.row? other := by
    rw [divided.rows, if_neg different, if_neg]
    rintro rfl
    exact formed.numbered.freshId_not_mem known
  have records {other : NodeId} (known : other ∈ plan.tree.ids) (different : other ≠ id) :
      after.tree.node? other = plan.tree.node? other := by
    rw [PlanTree.node?_eq_row?, PlanTree.node?_eq_row?, rows known different]
  -- Another node stands for another block, and both are as they were.
  have read {other : NodeId} (known : other ∈ plan.tree.ids) (different : other ≠ id) :
      after.blockBounds other = plan.blockBounds other := by
    refine blockBounds_congr ?_ fun top bound => ?_
    · rw [blockOf, blockOf, records known different]
    · obtain ⟨node, inside, rfl, block_eq⟩ := exists_node_of_blockOf bound
      rw [divided.blocks, if_neg, if_neg (formed.block_ne_next inside block_eq)]
      rintro rfl
      obtain ⟨loopNode, alsoInside, rfl, alsoBlock⟩ := exists_node_of_blockOf loop.blockOf_eq
      exact different (injective node inside loopNode alsoInside _ block_eq alsoBlock)
  obtain ⟨node, below, row⟩ := PlanTree.exists_row there
  have same := (rows there different).trans row
  refine splitTripCount_congr formed.numbered.distinct distinct row same
    (read there different) (fun inner member => ?_) fun inner member bounds => ?_
  · by_cases own : inner = id
    · subst own
      have outer := (divided.rows inner).trans (if_pos rfl)
      rw [PlanTree.node?_of_row? outer, loop.node?_eq]
      rfl
    · rw [records (PlanTree.mem_ids_of_below row member) own]
  · by_cases own : inner = id
    · subst own
      have before : plan.bounds? inner = some loop.bounds :=
        (bounds?_of_row? loop.row_eq loop.top_eq loop.block_eq).trans loop.bounds_eq
      have now : (loop.outer chunk var).first = .const first := first_eq
      rw [blockBounds_of_bounds? divided.bounds?_outer, blockBounds_of_bounds? before,
        Outcome.ok_bind, Outcome.ok_bind, chunkCount_of_const now, chunkCount_of_const first_eq]
    · rw [read (PlanTree.mem_ids_of_below row member) own]

/-- A split of a loop between constants is recognised for what it was, whatever is developed around
the loop afterwards, and it changes what no other node is taken for. -/
theorem splitTripCount_splitLoop (loop : plan.LoopAt id) (formed : plan.IsFormed)
    (first_eq : loop.bounds.first = .const first) (last_eq : loop.bounds.last = .const last)
    (counted : iterationCount first last loop.bounds.step = .ok count) {recordedCount : Nat}
    (recorded : loop.node.tripCount = .ok recordedCount)
    (fits : (max chunk 1 : Nat) * loop.bounds.step ≤ maxSigned) (var : String) :
    ∃ after, (splitLoop id chunk var).result plan = (.ok plan.tree.freshId, after) ∧
      (∀ final, DevelopsAround id after final →
        final.splitTripCount id var = .ok (some count)) ∧
      ((∀ first ∈ plan.tree.nodes, ∀ second ∈ plan.tree.nodes, ∀ block,
          first.block = some block → second.block = some block → first.id = second.id) →
        ∀ other ∈ plan.tree.ids, other ≠ id → ∀ counter,
          after.splitTripCount other counter = plan.splitTripCount other counter) := by
  have numbered := formed.numbered
  have done := loop.result_splitLoop_of_le recorded (step_pos_of_iterationCount counted) fits var
  have divided := loop.isDivided_divided numbered recordedCount (max chunk 1) var
  have stillNumbered := (nodes_splitLoop numbered done).1
  refine ⟨_, done, fun final develops => ?_, fun injective other there different counter => ?_⟩
  · have there : id ∈ (loop.divided recordedCount (max chunk 1) var).tree.ids :=
      PlanTree.mem_ids_of_row? ((divided.rows id).trans (if_pos rfl))
    rw [(develops.splitTripCount_eq stillNumbered there var).2.2]
    exact divided.splitTripCount_eq numbered stillNumbered.distinct first_eq last_eq counted
  · exact divided.splitTripCount_of_ne formed stillNumbered.distinct injective first_eq there
      different counter

end LoopAt

/-- A loop from one to ten that is split into chunks of four, and a loop from one to six in its
body. -/
def chunksAndSix : Plan Rat where
  tree :=
    .node { id := ⟨0⟩, kind := .parfor, placement := .remote, block := some ⟨0⟩
            parameters := { numIterations := some "3" } } [
      .node { id := ⟨1⟩, kind := .parfor, placement := .inProcess, block := some ⟨1⟩
              parameters := { numIterations := some "4" } } [
        .node { id := ⟨2⟩, kind := .parfor, placement := .inProcess, block := some ⟨2⟩
                parameters := { numIterations := some "6" } } []]]
  program :=
    { blocks := #[
        .parallel { var := "p", first := .const 1, last := .const 10, step := 4 } .undecided [⟨1⟩],
        .parallel { var := "i", first := .relative "p" 0 none, last := .relative "p" 3 (some 10),
                    step := 1 } .undecided [⟨2⟩],
        .parallel { var := "j", first := .const 1, last := .const 6, step := 1 } .undecided []]
      hops := #[] }

theorem isFormed_chunksAndSix : chunksAndSix.IsFormed where
  numbered := ⟨by decide, by decide⟩
  top := rfl
  kinds := by decide
  operators := by decide

/-- The loop from one to six. -/
def loopOfSix : chunksAndSix.LoopAt ⟨2⟩ where
  node :=
    { id := ⟨2⟩, kind := .parfor, placement := .inProcess, block := some ⟨2⟩
      parameters := { numIterations := some "6" } }
  below := []
  top := ⟨2⟩
  block := .parallel { var := "j", first := .const 1, last := .const 6, step := 1 } .undecided []
  bounds := { var := "j", first := .const 1, last := .const 6, step := 1 }
  settings := .undecided
  row_eq := by decide +kernel
  top_eq := rfl
  block_eq := rfl
  bounds_eq := rfl
  settings_eq := rfl

/-- The plan in which it is split into chunks of two. -/
def sixInTwos : Plan Rat := loopOfSix.divided 6 2 "p"

/-- Split by the same variable as the loop around it, both are recognised, also after the inner loop
was given workers and a node below it. -/
theorem splitTripCount_sixInTwos : ∃ final,
    (splitLoop ⟨2⟩ 2 "p").result chunksAndSix = (.ok ⟨3⟩, sixInTwos) ∧
      DevelopsAround ⟨2⟩ sixInTwos final ∧ final.tree.size = 5 ∧
      final.splitTripCount ⟨2⟩ "p" = .ok (some 6) ∧
      sixInTwos.splitTripCount ⟨0⟩ "p" = .ok (some 10) := by
  have recorded : loopOfSix.node.tripCount = .ok 6 := PlanNode.tripCount_eq (by decide) rfl
  have counted : iterationCount 1 6 1 = .ok 6 := by decide
  have fits : (max 2 1 : Nat) * loopOfSix.bounds.step ≤ maxSigned := by decide
  obtain ⟨after, done, kept, others⟩ := loopOfSix.splitTripCount_splitLoop isFormed_chunksAndSix
    rfl rfl counted recorded fits "p"
  have given := loopOfSix.result_splitLoop_of_le recorded (by decide) fits "p"
  obtain rfl : sixInTwos = after := congrArg Prod.snd (given.symm.trans done)
  have next : chunksAndSix.tree.freshId = ⟨3⟩ := by decide
  rw [next] at done
  -- The inner loop gets three workers, and then a node for an operator.
  let assign : Operation Rat := .setWorkers 3
  have whole (chunk : Nat) (var : String) : assign ≠ .splitLoop chunk var := nofun
  have loops : assign ≠ .demote := nofun
  have unchanged : DevelopsAround ⟨2⟩ sixInTwos sixInTwos := .refl
  obtain ⟨_, assigned⟩ := Change.result_eq_ok
    (show ((assign.run ⟨3⟩).result sixInTwos).1.isOk = true by decide +kernel)
  have decided := unchanged.decide whole loops assigned
  let occupied := ((assign.run ⟨3⟩).result sixInTwos).2
  obtain ⟨_, added⟩ := Change.result_eq_ok
    (show ((addHopNode ⟨3⟩ ⟨0⟩ .inProcess).result occupied).1.isOk = true by decide +kernel)
  have developed := decided.addHopNode (by decide) added
  have first := others (injective_of_own (by decide)) ⟨0⟩ (by decide) (by decide) "p"
  refine ⟨_, done, developed, ?_, kept _ developed, first.trans ?_⟩
  · decide +kernel
  · decide +kernel

end Plan

end ParallelLoop
