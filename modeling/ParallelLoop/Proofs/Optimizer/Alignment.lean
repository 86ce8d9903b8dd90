/-
# Alignment after a pass

Demoting a loop adds a sequential block with the same list and lets the parent list it.
The old block keeps its list, so when a loop directly inside is demoted next, the first
block that lists it is the old one: the new block of the outer loop still lists the old
block of the inner one. This is the only way in which a pass leaves plan and program
out of alignment: an optimized plan is aligned exactly when no demoted loop is linked to a
demoted loop.
-/

import ParallelLoop.Proofs.Optimizer.Demotion
import ParallelLoop.Proofs.Plan.Alignment

namespace ParallelLoop

/-- The record of a node after these loops were demoted. -/
def PlanNode.rebound {α : Type} (base : Program α) (loops : List (NodeId × BlockId))
    (node : PlanNode) : PlanNode :=
  if node.id ∈ loops.map Prod.fst then
    { node with
      block := node.block.map (base.renamed (loops.map Prod.snd)), kind := .for
      placement := .inProcess }
  else node

namespace Plan

variable {α : Type} {base plan after : Plan α} {loops : List (NodeId × BlockId)} {id : NodeId}
  {node : PlanNode}

theorem rebound_id (base : Program α) (loops : List (NodeId × BlockId)) (node : PlanNode) :
    (node.rebound base loops).id = node.id := by
  unfold PlanNode.rebound
  split <;> rfl

theorem rebound_of_not_mem (kept : node.id ∉ loops.map Prod.fst) :
    node.rebound base.program loops = node := if_neg kept

/-- These loops of a plan were demoted one after the other, with the blocks they stood for. -/
structure Demoted (base : Plan α) (loops : List (NodeId × BlockId)) (plan : Plan α) : Prop where
  tree_eq : plan.tree = base.tree.mapNodes (PlanNode.rebound base.program loops)
  replaced : Program.Replaced base.program (loops.map Prod.snd) plan.program
  held : ∀ loop ∈ loops, ∃ node ∈ base.tree.nodes, node.id = loop.1 ∧ node.block = some loop.2
  distinct : (loops.map Prod.snd).Nodup

theorem demoted_nil (base : Plan α) : Demoted base [] base where
  tree_eq := (PlanTree.mapNodes_eq_self fun _ _ => rebound_of_not_mem List.not_mem_nil).symm
  replaced := Program.replaced_nil base.program
  held := List.forall_mem_nil _
  distinct := List.nodup_nil

/-- Two of several different things are in one order. -/
theorem not_sublist_swap {β : Type} {list : List β} {first second : β} (distinct : list.Nodup)
    (forward : [first, second].Sublist list) : ¬ [second, first].Sublist list := by
  induction list with
  | nil => cases forward
  | cons head rest ih =>
    rw [List.nodup_cons] at distinct
    intro backward
    cases forward with
    | cons _ forward =>
      cases backward with
      | cons _ backward => exact ih distinct.2 forward backward
      | cons_cons _ backward =>
        exact distinct.1 (forward.subset (List.mem_cons_of_mem _ (List.mem_singleton_self _)))
    | cons_cons _ forward =>
      cases backward with
      | cons _ backward =>
        exact distinct.1 (backward.subset (List.mem_cons_of_mem _ (List.mem_singleton_self _)))
      | cons_cons _ backward => exact distinct.1 (forward.subset (List.mem_singleton_self _))

namespace Demoted

section

variable (demoted : Demoted base loops plan)

include demoted

/-- The loop itself is not demoted. -/
theorem root_block (nested : base.tree.id ∉ loops.map Prod.fst) :
    plan.tree.root.block = base.tree.root.block := by
  rw [demoted.tree_eq, PlanTree.root_mapNodes, rebound_of_not_mem nested]

/-- Linked blocks still list each other, unless both were replaced. -/
theorem lists_of_link {above below : BlockId} (lists : base.program.Lists above below)
    (apart : ¬ (above ∈ loops.map Prod.snd ∧ below ∈ loops.map Prod.snd)) :
    plan.program.Lists (base.program.renamed (loops.map Prod.snd) above)
      (base.program.renamed (loops.map Prod.snd) below) := by
  unfold Program.Lists
  -- The new block of the node above has its list from before the block below could be replaced,
  -- and that one is not.
  by_cases replaced : above ∈ loops.map Prod.snd
  · have kept : below ∉ loops.map Prod.snd := fun alsoReplaced => apart ⟨replaced, alsoReplaced⟩
    obtain ⟨position, at_position⟩ := List.mem_iff_getElem?.mp replaced
    rw [Program.renamed_of_getElem? demoted.distinct at_position, Program.renamed_of_not_mem kept,
      demoted.replaced.listed_fresh position above at_position]
    refine List.mem_map.mpr ⟨below, lists, Program.renamed_of_not_mem ?_⟩
    exact fun earlier => kept (List.mem_of_mem_take earlier)
  · rw [Program.renamed_of_not_mem replaced,
      demoted.replaced.listed_old above (Program.index_lt_of_lists lists)]
    exact List.mem_map_of_mem lists

/-- A block that was there before and that is listed now was listed before: by the same block, or by
the one that was replaced, which was there before as well. -/
theorem lists_before {above below : BlockId} (lists : plan.program.Lists above below)
    (inside : below.index < base.program.blocks.size) :
    below ∉ loops.map Prod.snd ∧ above.index < base.program.blocks.size ∧
        base.program.Lists above below ∨
      ∃ position old, (loops.map Prod.snd)[position]? = some old ∧
        above = ⟨base.program.blocks.size + position⟩ ∧ base.program.Lists old below ∧
        below ∉ (loops.map Prod.snd).take position := by
  unfold Program.Lists at *
  -- Either an old block lists it, or the new one of an old block that listed it.
  by_cases aboveInside : above.index < base.program.blocks.size
  · rw [demoted.replaced.listed_old above aboveInside] at lists
    obtain ⟨child, there, rfl⟩ := List.mem_map.mp lists
    have kept := Program.not_mem_of_renamed_lt inside
    rw [Program.renamed_of_not_mem kept]
    exact .inl ⟨kept, aboveInside, there⟩
  · obtain ⟨position, above_eq⟩ := Nat.exists_eq_add_of_le (Nat.not_lt.mp aboveInside)
    have above_eq : above = ⟨base.program.blocks.size + position⟩ := congrArg BlockId.mk above_eq
    have bound := Program.index_lt_of_lists lists
    rw [demoted.replaced.size_eq, above_eq] at bound
    have within : position < (loops.map Prod.snd).length := Nat.lt_of_add_lt_add_left bound
    have at_position := List.getElem?_eq_getElem within
    rw [above_eq, demoted.replaced.listed_fresh position _ at_position] at lists
    obtain ⟨child, there, rfl⟩ := List.mem_map.mp lists
    have kept := Program.not_mem_of_renamed_lt inside
    rw [Program.renamed_of_not_mem kept]
    exact .inr ⟨position, _, at_position, above_eq, there, kept⟩

end

variable (formed : base.IsFormed) (mirror : base.IsMirror) (demoted : Demoted base loops plan)

include formed mirror demoted

/-- A loop was demoted exactly when its block was replaced. -/
theorem mem_iff (there : node ∈ base.tree.nodes) {block : BlockId}
    (block_eq : node.block = some block) :
    block ∈ loops.map Prod.snd ↔ node.id ∈ loops.map Prod.fst := by
  constructor
  · intro replaced
    obtain ⟨loop, listed, rfl⟩ := List.mem_map.mp replaced
    obtain ⟨other, alsoThere, id_eq, other_eq⟩ := demoted.held loop listed
    have same := mirror.injective node there other alsoThere loop.2 block_eq other_eq
    rw [same, id_eq]
    exact List.mem_map_of_mem listed
  · intro listed
    obtain ⟨loop, inside, loop_eq⟩ := List.mem_map.mp listed
    obtain ⟨other, alsoThere, id_eq, other_eq⟩ := demoted.held loop inside
    have same := PlanTree.eq_of_id_eq formed.numbered.distinct alsoThere there
      (id_eq.trans loop_eq)
    rw [same, block_eq] at other_eq
    exact List.mem_map.mpr ⟨loop, inside, (Option.some.inj other_eq).symm⟩

/-- The block that a node stands for afterwards. -/
theorem block_rebound (there : node ∈ base.tree.nodes) :
    (node.rebound base.program loops).block =
      node.block.map (base.program.renamed (loops.map Prod.snd)) := by
  by_cases listed : node.id ∈ loops.map Prod.fst
  · rw [PlanNode.rebound, if_pos listed]
  · rw [rebound_of_not_mem listed]
    cases block_eq : node.block with
    | none => rfl
    | some block =>
      have kept : block ∉ loops.map Prod.snd := by
        rwa [demoted.mem_iff formed mirror there block_eq]
      rw [Option.map_some, Program.renamed_of_not_mem kept]

omit formed mirror in
/-- A loop that was not demoted so far stands for the block that it stood for at the beginning. -/
theorem exists_node_of_fresh {old : BlockId} (fresh : id ∉ loops.map Prod.fst)
    (found : plan.blockOf id = .ok old) :
    ∃ node ∈ base.tree.nodes, node.id = id ∧ node.block = some old := by
  obtain ⟨changed, inside, changed_id, changed_eq⟩ := exists_node_of_blockOf found
  rw [demoted.tree_eq, PlanTree.nodes_mapNodes] at inside
  obtain ⟨node, there, rfl⟩ := List.mem_map.mp inside
  rw [rebound_id] at changed_id
  rw [rebound_of_not_mem (changed_id ▸ fresh)] at changed_eq
  exact ⟨node, there, changed_id, changed_eq⟩

/-- What demoting one more loop makes of the nodes as they are now. -/
theorem rebound_append {old : BlockId} (there : node ∈ base.tree.nodes)
    (block_eq : node.block = some old) (fresh : node.id ∉ loops.map Prod.fst) {other : PlanNode}
    (alsoThere : other ∈ base.tree.nodes) :
    (if (other.rebound base.program loops).id = node.id then
      { other.rebound base.program loops with
        block := some plan.program.nextBlock, kind := .for, placement := .inProcess }
    else other.rebound base.program loops) =
      other.rebound base.program (loops ++ [(node.id, old)]) := by
  have inside := formed.block_lt there block_eq
  have kept : old ∉ loops.map Prod.snd := by
    rwa [demoted.mem_iff formed mirror there block_eq]
  have next_eq : plan.program.nextBlock = base.program.renamed (loops.map Prod.snd ++ [old]) old := by
    rw [Program.renamed_append base.program kept inside, Program.renamed_of_not_mem kept,
      if_pos rfl, Program.nextBlock, demoted.replaced.size_eq]
  rw [rebound_id]
  unfold PlanNode.rebound
  rw [List.map_append, List.map_append, List.map_singleton, List.map_singleton]
  -- Three kinds of nodes: the one that is demoted now, those demoted before, and the rest.
  by_cases here : other.id = node.id
  · have last : other.id ∈ loops.map Prod.fst ++ [node.id] :=
      List.mem_append_right _ (List.mem_singleton.mpr here)
    obtain rfl := PlanTree.eq_of_id_eq formed.numbered.distinct alsoThere there here
    rw [if_pos rfl, if_neg fresh, if_pos last, block_eq, next_eq]
    rfl
  · rw [if_neg here]
    by_cases earlier : other.id ∈ loops.map Prod.fst
    · rw [if_pos earlier, if_pos (List.mem_append_left _ earlier)]
      have same : other.block.map (base.program.renamed (loops.map Prod.snd)) =
          other.block.map (base.program.renamed (loops.map Prod.snd ++ [old])) := by
        refine Option.map_congr fun block other_eq => ?_
        rw [Program.renamed_append base.program kept inside, if_neg]
        intro renamed_eq
        obtain rfl := Program.eq_of_renamed_eq inside renamed_eq
        exact here (mirror.injective other alsoThere node there block other_eq block_eq)
      rw [same]
    · have absent : other.id ∉ loops.map Prod.fst ++ [node.id] := by
        simpa [here] using earlier
      rw [if_neg earlier, if_neg absent]

/-- Demoting one more loop. -/
theorem append (single : base.program.HasSingleParents) (fresh : id ∉ loops.map Prod.fst)
    (nested : id ≠ base.tree.id)
    (done : (demote id).result plan = (.ok (), after)) :
    ∃ old, Demoted base (loops ++ [(id, old)]) after := by
  obtain ⟨old, block, bounds, found, held, -, tree_eq, program_eq⟩ := of_demote done
  obtain ⟨node, there, rfl, block_eq⟩ := demoted.exists_node_of_fresh fresh found
  have inside := formed.block_lt there block_eq
  have kept : old ∉ loops.map Prod.snd := by
    rwa [demoted.mem_iff formed mirror there block_eq]
  obtain ⟨-, -, parent, -, -, lists⟩ := mirror.exists_parent formed there block_eq nested
  -- Its block has a single parent, so the search for the parent finds what the links say.
  have only (other : BlockId) (listsToo : base.program.Lists other old) : other = parent :=
    single other parent old listsToo lists
  refine ⟨old, ?_, ?_, ?_, ?_⟩
  · have distinct : plan.tree.ids.Nodup := by
      rw [demoted.tree_eq, PlanTree.ids_mapNodes (rebound_id _ _)]
      exact formed.numbered.distinct
    rw [tree_eq, PlanTree.update_eq_mapNodes distinct, demoted.tree_eq, PlanTree.mapNodes_mapNodes]
    refine PlanTree.mapNodes_congr fun other alsoThere => ?_
    exact demoted.rebound_append formed mirror there block_eq fresh alsoThere
  · rw [program_eq, List.map_append, List.map_singleton]
    exact demoted.replaced.append kept inside lists only rfl (Program.listed_of_block held).symm
  · rw [List.forall_mem_append, List.forall_mem_singleton]
    exact ⟨demoted.held, node, there, rfl, block_eq⟩
  · rw [List.map_append, List.map_singleton, ← List.concat_eq_append]
    exact demoted.distinct.concat kept

omit demoted in
/-- Demoting loops one after the other. -/
theorem exists_of_demoteEach {ids : List NodeId} (demoted : Demoted base loops plan)
    (single : base.program.HasSingleParents) (apart : (loops.map Prod.fst ++ ids).Nodup)
    (nested : base.tree.id ∉ ids)
    (done : (PlanningRule.demoteEach ids).result plan = (.ok (), after)) :
    ∃ more, more.map Prod.fst = ids ∧ Demoted base (loops ++ more) after := by
  induction ids generalizing plan loops with
  | nil =>
    cases done
    exact ⟨[], rfl, by rwa [List.append_nil]⟩
  | cons id rest ih =>
    rw [List.mem_cons, not_or] at nested
    obtain ⟨_, mid, first, others⟩ := Change.of_bind done
    have fresh : id ∉ loops.map Prod.fst := by
      intro listed
      exact (List.nodup_append'.mp apart).2.2 listed (List.mem_cons_self ..)
    -- The list of demoted loops grows at its end.
    obtain ⟨old, step⟩ := demoted.append formed mirror single fresh (Ne.symm nested.1) first
    have apartRest : ((loops ++ [(id, old)]).map Prod.fst ++ rest).Nodup := by
      rwa [List.map_append, List.map_singleton, List.append_assoc]
    obtain ⟨more, more_eq, final⟩ := ih step apartRest nested.2 others
    refine ⟨(id, old) :: more, by rw [List.map_cons, more_eq], ?_⟩
    rwa [List.append_assoc] at final

/-- The links afterwards are those before, with the nodes as they are now. -/
theorem links_eq : plan.tree.links = base.tree.links.map
    (Prod.map (PlanNode.rebound base.program loops) (PlanNode.rebound base.program loops)) := by
  rw [demoted.tree_eq]
  apply PlanTree.links_mapNodes
  intro node there
  rw [demoted.block_rebound formed mirror there, Option.isSome_map]

theorem mem_links {link : PlanNode × PlanNode} (linked : link ∈ base.tree.links) :
    (link.1.rebound base.program loops, link.2.rebound base.program loops) ∈ plan.tree.links := by
  rw [demoted.links_eq formed mirror]
  exact List.mem_map.mpr ⟨link, linked, rfl⟩

/-- When no demoted loop is linked to a demoted one, the plan stays linked. -/
theorem isLinked (apart : ∀ link ∈ base.tree.links,
      ¬ (link.1.id ∈ loops.map Prod.fst ∧ link.2.id ∈ loops.map Prod.fst)) : plan.IsLinked := by
  intro link member above below above_eq below_eq
  rw [demoted.links_eq formed mirror] at member
  obtain ⟨before, linked, rfl⟩ := List.mem_map.mp member
  have aboveThere := PlanTree.fst_mem_nodes linked
  have belowThere := PlanTree.snd_mem_nodes linked
  rw [Prod.map_fst, demoted.block_rebound formed mirror aboveThere] at above_eq
  rw [Prod.map_snd, demoted.block_rebound formed mirror belowThere] at below_eq
  obtain ⟨parent, parent_eq, rfl⟩ := Option.map_eq_some_iff.mp above_eq
  obtain ⟨child, child_eq, rfl⟩ := Option.map_eq_some_iff.mp below_eq
  have lists := mirror.linked before linked parent child parent_eq child_eq
  apply demoted.lists_of_link lists
  rw [demoted.mem_iff formed mirror aboveThere parent_eq,
    demoted.mem_iff formed mirror belowThere child_eq]
  exact apart before linked

/-- A block that was there before and is in the loop now was in the loop before. -/
theorem contains_before (nested : base.tree.id ∉ loops.map Prod.fst) {block : BlockId}
    (contained : plan.Contains block) (inside : block.index < base.program.blocks.size) :
    base.Contains block := by
  obtain ⟨top, top_eq, reaches⟩ := contained
  rw [demoted.root_block nested] at top_eq
  -- Backwards along the way to the block: what lists an old block leads to old blocks.
  induction reaches with
  | refl => exact ⟨top, top_eq, .refl⟩
  | @tail above below _ step ih =>
    rcases demoted.lists_before step inside with
      ⟨-, aboveInside, lists⟩ | ⟨position, old, at_position, -, lists, -⟩
    · obtain ⟨start, start_eq, before⟩ := ih aboveInside
      exact ⟨start, start_eq, before.tail lists⟩
    · -- The replaced block is that of a node, and these were all in the loop.
      obtain ⟨loop, listed, rfl⟩ := List.mem_map.mp (List.mem_of_getElem? at_position)
      obtain ⟨node, there, -, block_eq⟩ := demoted.held loop listed
      obtain ⟨start, start_eq, before⟩ := mirror.linked.contains formed.top there block_eq
      exact ⟨start, start_eq, before.tail lists⟩

/-- When the plan is linked, its sequential loops are those of the program. -/
theorem sequential (linked : plan.IsLinked) (nested : base.tree.id ∉ loops.map Prod.fst) :
    ∀ node ∈ plan.tree.nodes, node.kind = .for →
      ∃ id, node.block = some id ∧ plan.Contains id ∧ plan.program.kind? id = some .for := by
  intro changed there kind_eq
  have top : plan.tree.root.block.isSome = true := by
    rw [demoted.root_block nested]
    exact formed.top
  have inTree := there
  rw [demoted.tree_eq, PlanTree.nodes_mapNodes] at inTree
  obtain ⟨node, before, rfl⟩ := List.mem_map.mp inTree
  have block_eq := demoted.block_rebound formed mirror before
  cases node_eq : node.block with
  | none =>
    -- Operators are not demoted and no loops themselves.
    have kept : node.id ∉ loops.map Prod.fst := by
      intro listed
      obtain ⟨loop, inside, loop_eq⟩ := List.mem_map.mp listed
      obtain ⟨other, alsoBefore, id_eq, other_eq⟩ := demoted.held loop inside
      have same := PlanTree.eq_of_id_eq formed.numbered.distinct alsoBefore before
        (id_eq.trans loop_eq)
      rw [same, node_eq] at other_eq
      cases other_eq
    rw [rebound_of_not_mem kept, formed.operators node before node_eq] at kind_eq
    cases kind_eq
  | some block =>
    rw [node_eq, Option.map_some] at block_eq
    refine ⟨_, block_eq, linked.contains top there block_eq, ?_⟩
    by_cases replaced : block ∈ loops.map Prod.snd
    · obtain ⟨position, at_position⟩ := List.mem_iff_getElem?.mp replaced
      rw [Program.renamed_of_getElem? demoted.distinct at_position]
      exact demoted.replaced.kind_fresh position (List.getElem?_eq_some_iff.mp at_position).1
    · have kept := replaced
      rw [demoted.mem_iff formed mirror before node_eq] at kept
      rw [rebound_of_not_mem kept] at kind_eq
      rw [Program.renamed_of_not_mem replaced,
        demoted.replaced.kind_old block (formed.block_lt before node_eq)]
      exact formed.kind?_eq before node_eq kind_eq

omit formed mirror in
/-- A parallel block that is in the loop now was there before. -/
theorem inside_of_parallel {block : BlockId} (kind : plan.program.kind? block = some .parfor) :
    block.index < base.program.blocks.size := by
  by_contra outside
  obtain ⟨position, block_eq⟩ := Nat.exists_eq_add_of_le (Nat.not_lt.mp outside)
  have block_eq : block = ⟨base.program.blocks.size + position⟩ := congrArg BlockId.mk block_eq
  have bound := Program.index_lt_of_kind? kind
  rw [demoted.replaced.size_eq, block_eq] at bound
  rw [block_eq, demoted.replaced.kind_fresh position (Nat.lt_of_add_lt_add_left bound)] at kind
  cases kind

/-- When no demoted loop is linked to a demoted one, the replaced blocks are not in the loop. -/
theorem not_contains_replaced (single : base.program.HasSingleParents)
    (nested : base.tree.id ∉ loops.map Prod.fst)
    (apart : ∀ link ∈ base.tree.links,
      ¬ (link.1.id ∈ loops.map Prod.fst ∧ link.2.id ∈ loops.map Prod.fst))
    (there : node ∈ base.tree.nodes) {block : BlockId} (block_eq : node.block = some block)
    (contained : plan.Contains block) : node.id ∉ loops.map Prod.fst := by
  intro listed
  obtain ⟨top, top_eq, reaches⟩ := contained
  rw [demoted.root_block nested] at top_eq
  rcases Relation.ReflTransGen.cases_tail reaches with same | ⟨above, -, step⟩
  · -- The topmost loop is not demoted.
    have root_eq : node.id = base.tree.id := mirror.injective node there base.tree.root
      (PlanTree.root_mem_nodes base.tree) block block_eq (same ▸ top_eq)
    exact nested (root_eq ▸ listed)
  · rcases demoted.lists_before step (formed.block_lt there block_eq) with
      ⟨kept, -, -⟩ | ⟨position, old, at_position, -, lists, -⟩
    · exact kept ((demoted.mem_iff formed mirror there block_eq).mpr listed)
    · -- Only a new block can list it, and that one replaced the block of the node above.
      have different : node.id ≠ base.tree.id := by
        intro same
        exact nested (same ▸ listed)
      obtain ⟨link, linked, parent, rfl, parent_eq, listsToo⟩ :=
        mirror.exists_parent formed there block_eq different
      obtain rfl := single parent old block listsToo lists
      have replaced := List.mem_of_getElem? at_position
      rw [demoted.mem_iff formed mirror (PlanTree.fst_mem_nodes linked) parent_eq] at replaced
      exact apart link linked ⟨replaced, listed⟩

/-- When no demoted loop is linked to a demoted one, the plan is aligned with its program. -/
theorem isAligned (single : base.program.HasSingleParents)
    (nested : base.tree.id ∉ loops.map Prod.fst)
    (apart : ∀ link ∈ base.tree.links,
      ¬ (link.1.id ∈ loops.map Prod.fst ∧ link.2.id ∈ loops.map Prod.fst)) : plan.IsAligned where
  linked := demoted.isLinked formed mirror apart
  sequential := demoted.sequential formed mirror (demoted.isLinked formed mirror apart) nested
  parallel := by
    intro block contained kind
    have inside := demoted.inside_of_parallel kind
    have before := demoted.contains_before formed mirror nested contained inside
    rw [demoted.replaced.kind_old block inside] at kind
    obtain ⟨node, there, block_eq⟩ := mirror.bound block before kind
    have kept :=
      demoted.not_contains_replaced formed mirror single nested apart there block_eq contained
    have kind_eq := formed.kinds node there block block_eq
    rw [kind] at kind_eq
    refine ⟨node, ?_, (Option.some.inj kind_eq).symm, block_eq⟩
    rw [demoted.tree_eq, PlanTree.nodes_mapNodes]
    exact List.mem_map.mpr ⟨node, there, rebound_of_not_mem kept⟩

/-- Where a node was demoted, and that those below it were not demoted before it. -/
theorem exists_position (order : (loops.map Prod.fst).Sublist base.tree.ids)
    {link : PlanNode × PlanNode} (linked : link ∈ base.tree.links) {above below : BlockId}
    (above_eq : link.1.block = some above) (below_eq : link.2.block = some below)
    (listed : link.1.id ∈ loops.map Prod.fst) :
    ∃ position, (loops.map Prod.snd)[position]? = some above ∧
      below ∉ (loops.map Prod.snd).take position := by
  obtain ⟨loop, inside, loop_eq⟩ := List.mem_map.mp listed
  obtain ⟨position, at_position⟩ := List.mem_iff_getElem?.mp inside
  obtain ⟨node, there, id_eq, block_eq⟩ := demoted.held loop inside
  have same := PlanTree.eq_of_id_eq formed.numbered.distinct there (PlanTree.fst_mem_nodes linked)
    (id_eq.trans loop_eq)
  rw [same, above_eq] at block_eq
  refine ⟨position, ?_, fun earlier => ?_⟩
  · rw [List.getElem?_map, at_position, Option.map_some, Option.some.inj block_eq]
  · -- Otherwise the two nodes would be in both orders.
    rw [← List.map_take] at earlier
    obtain ⟨first, before, first_eq⟩ := List.mem_map.mp earlier
    obtain ⟨other, alsoThere, other_id, other_eq⟩ :=
      demoted.held first (List.mem_of_mem_take before)
    have first_id := mirror.injective other alsoThere link.2 (PlanTree.snd_mem_nodes linked) below
      (first_eq ▸ other_eq) below_eq
    -- The loop below would come first in the list, the loop above at this position.
    have pair : [first, loop].Sublist loops := by
      have last : loop ∈ loops.drop position := by
        apply List.mem_of_getElem? (i := 0)
        rw [List.getElem?_drop, Nat.add_zero, at_position]
      have split := (List.singleton_sublist.mpr before).append (List.singleton_sublist.mpr last)
      rwa [List.take_append_drop] at split
    have backward := (pair.map Prod.fst).trans order
    have forward := (PlanTree.sublist_of_mem_links linked).map PlanNode.id
    rw [List.map_cons, List.map_cons, List.map_nil, loop_eq, ← other_id, first_id] at backward
    exact not_sublist_swap formed.numbered.distinct forward backward

/-- When a demoted loop is linked to a demoted one, the old block of the one below is still in the
loop, and no parallel node stands for it. -/
theorem not_isAligned (nested : base.tree.id ∉ loops.map Prod.fst)
    (parallel : ∀ node ∈ base.tree.nodes, node.id ∈ loops.map Prod.fst → node.kind = .parfor)
    (order : (loops.map Prod.fst).Sublist base.tree.ids) {link : PlanNode × PlanNode}
    (linked : link ∈ base.tree.links) (first : link.1.id ∈ loops.map Prod.fst)
    (second : link.2.id ∈ loops.map Prod.fst) : ¬ plan.IsAligned := by
  intro aligned
  have aboveThere := PlanTree.fst_mem_nodes linked
  have belowThere := PlanTree.snd_mem_nodes linked
  obtain ⟨aboveBound, belowBound⟩ := PlanTree.isSome_of_mem_links formed.top linked
  obtain ⟨above, above_eq⟩ := Option.isSome_iff_exists.mp aboveBound
  obtain ⟨below, below_eq⟩ := Option.isSome_iff_exists.mp belowBound
  obtain ⟨position, at_position, kept⟩ :=
    demoted.exists_position formed mirror order linked above_eq below_eq first
  have inside := formed.block_lt belowThere below_eq
  -- The new block of the node above lists the old block of the node below.
  have lists : plan.program.Lists ⟨base.program.blocks.size + position⟩ below := by
    have before := mirror.linked link linked above below above_eq below_eq
    rw [Program.Lists, demoted.replaced.listed_fresh position above at_position]
    exact List.mem_map.mpr ⟨below, before, Program.renamed_of_not_mem kept⟩
  have contained : plan.Contains ⟨base.program.blocks.size + position⟩ := by
    have top : plan.tree.root.block.isSome = true := by
      rw [demoted.root_block nested]
      exact formed.top
    have changed : link.1.rebound base.program loops ∈ plan.tree.nodes := by
      rw [demoted.tree_eq, PlanTree.nodes_mapNodes]
      exact List.mem_map_of_mem aboveThere
    apply aligned.linked.contains top changed
    rw [demoted.block_rebound formed mirror aboveThere, above_eq, Option.map_some,
      Program.renamed_of_getElem? demoted.distinct at_position]
  obtain ⟨top, top_eq, reaches⟩ := contained
  have kind : plan.program.kind? below = some .parfor := by
    rw [demoted.replaced.kind_old below inside]
    exact formed.kind?_eq belowThere below_eq (parallel link.2 belowThere second)
  obtain ⟨changed, there, kind_eq, block_eq⟩ :=
    aligned.parallel below ⟨top, top_eq, reaches.tail lists⟩ kind
  -- A node that is still parallel was not demoted, so it stands for another block.
  rw [demoted.tree_eq, PlanTree.nodes_mapNodes] at there
  obtain ⟨node, before, rfl⟩ := List.mem_map.mp there
  by_cases listed : node.id ∈ loops.map Prod.fst
  · rw [PlanNode.rebound, if_pos listed] at kind_eq
    cases kind_eq
  · rw [rebound_of_not_mem listed] at block_eq
    have same := mirror.injective node before link.2 belowThere below block_eq below_eq
    exact listed (same ▸ second)

end Demoted

/-- The node was a parallel loop of the plan and is a sequential loop now. -/
def Demotes (plan : Plan α) (node : PlanNode) : Prop :=
  node.kind = .for ∧ ∃ before ∈ plan.tree.nodes, before.id = node.id ∧ before.kind = .parfor

instance (plan : Plan α) (node : PlanNode) : Decidable (plan.Demotes node) :=
  inferInstanceAs (Decidable (_ ∧ _))

end Plan

namespace Optimizer

open Plan PlanningRule

variable {α : Type} [Quantity α] {optimizer : Optimizer α} {vars : Variables}
  {plan final : Plan α} {summary : PassSummary α}

namespace Stages

variable (stages : Stages optimizer vars plan final summary)

include stages

/-- Until loops are demoted, the plan is formed and mirrors its program, and blocks have their
single parents. -/
theorem mirrors_budgeted (built : plan.IsBuilt) (grows : plan.program.CanGrow)
    (mirror : plan.IsMirror) :
    stages.budgeted.IsFormed ∧ stages.budgeted.program.HasSingleParents ∧
      stages.budgeted.IsMirror := by
  rcases stages.layout_cases built.isFormed.numbered.distinct with
    same | ⟨-, root, outer, inner, children, top, split⟩
  · have unchanged := stages.layout_budgeted.trans same
    exact ⟨built.isFormed.of_layout unchanged, hasSingleParents_of_layout unchanged grows.single,
      mirror.of_layout unchanged⟩
  · have formed := built.isFormed.of_layout stages.layout_colocated
    have mirrored := mirror.of_layout stages.layout_colocated
    have single := split.hasSingleParents (canGrow_of_layout stages.layout_colocated grows)
    exact ⟨(split.isFormed formed).of_layout stages.layout_budgeted,
      hasSingleParents_of_layout stages.layout_budgeted single,
      (split.isMirror formed mirrored).of_layout stages.layout_budgeted⟩

/-- Without a split every node was there before the pass, and of the same kind, so the loops that
were parallel and are sequential are those in the list. -/
theorem demotes_iff_of_layout (distinct : plan.tree.ids.Nodup)
    (same : stages.budgeted.layout = plan.layout) {loops : List (NodeId × BlockId)}
    (parallel : ∀ node ∈ stages.budgeted.tree.nodes, node.id ∈ loops.map Prod.fst →
      node.kind = .parfor) {node : PlanNode} (there : node ∈ stages.budgeted.tree.nodes) :
    plan.Demotes (node.rebound stages.budgeted.program loops) ↔ node.id ∈ loops.map Prod.fst := by
  obtain ⟨twin, inside, id_eq, kind_eq, -⟩ := exists_node_of_layout same there
  constructor
  · rintro ⟨now, before, alsoInside, before_id, wasParallel⟩
    by_contra kept
    rw [rebound_of_not_mem kept] at now before_id
    have twin_eq := PlanTree.eq_of_id_eq distinct alsoInside inside (before_id.trans id_eq)
    rw [kind_eq, ← twin_eq, wasParallel] at now
    cases now
  · intro listed
    refine ⟨?_, twin, inside, ?_, kind_eq ▸ parallel node there listed⟩
    · rw [PlanNode.rebound, if_pos listed]
    · rw [rebound_id, id_eq]

/-- After a split, the only serial loop below the topmost one can be the new one. -/
theorem id_eq_inner (distinct : stages.budgeted.tree.ids.Nodup)
    (flat : stages.colocated.tree.hasNestedParallelism = false) {root outer inner : PlanNode}
    {children : List PlanTree} {top : BlockId}
    (split : Split stages.colocated stages.split root outer inner children top) {node : PlanNode}
    (there : node ∈ stages.budgeted.tree.nodes)
    (listed : node.id ∈ nestedSerialLoops stages.budgeted.tree) : node.id = inner.id := by
  obtain ⟨twin, inside, id_eq, kind_eq, -⟩ := exists_node_of_layout stages.layout_budgeted there
  have parallel := (isSerialLoop_of_mem distinct there listed).1
  have nested : twin.id ≠ stages.split.tree.id := by
    rw [← id_eq, ← id_of_layout stages.layout_budgeted]
    intro here
    exact root_not_mem_nestedSerialLoops distinct (here ▸ listed)
  rw [id_eq, split.eq_inner_of_parallel flat inside (kind_eq ▸ parallel) nested]

/-- Linked nodes are both demoted exactly when both were parallel loops before the pass and are
sequential after it. -/
theorem demotes_link_iff (numbered : plan.tree.IsNumbered)
    (distinct : stages.budgeted.tree.ids.Nodup) {loops : List (NodeId × BlockId)}
    (loops_eq : loops.map Prod.fst = nestedSerialLoops stages.budgeted.tree)
    {link : PlanNode × PlanNode} (linked : link ∈ stages.budgeted.tree.links) :
    plan.Demotes (link.1.rebound stages.budgeted.program loops) ∧
        plan.Demotes (link.2.rebound stages.budgeted.program loops) ↔
      link.1.id ∈ loops.map Prod.fst ∧ link.2.id ∈ loops.map Prod.fst := by
  have aboveThere := PlanTree.fst_mem_nodes linked
  have belowThere := PlanTree.snd_mem_nodes linked
  rcases stages.layout_cases numbered.distinct with
    same | ⟨flat, root, outer, inner, children, top, split⟩
  · have unchanged := stages.layout_budgeted.trans same
    have serial (node : PlanNode) (there : node ∈ stages.budgeted.tree.nodes)
        (listed : node.id ∈ loops.map Prod.fst) : node.kind = .parfor :=
      (isSerialLoop_of_mem distinct there (loops_eq ▸ listed)).1
    rw [stages.demotes_iff_of_layout numbered.distinct unchanged serial aboveThere,
      stages.demotes_iff_of_layout numbered.distinct unchanged serial belowThere]
  · -- The only parallel loop below the topmost one is the new one.
    constructor
    · rintro ⟨-, -, before, there, before_id, parallel⟩
      obtain ⟨twin, inside, id_eq, kind_eq, -⟩ :=
        exists_node_of_layout stages.layout_colocated.symm there
      refine absurd (kind_eq ▸ parallel) (kind_ne_parfor flat inside ?_)
      rw [← id_eq, before_id, rebound_id, ← split.id_eq, ← id_of_layout stages.layout_budgeted]
      exact PlanTree.snd_id_ne distinct linked
    -- Two linked nodes that are demoted would both be the new one.
    · rintro ⟨first, second⟩
      rw [loops_eq] at first second
      have order := (PlanTree.sublist_of_mem_links linked).map PlanNode.id
      have different := distinct.sublist order
      rw [List.map_cons, List.map_cons, stages.id_eq_inner distinct flat split aboveThere first,
        stages.id_eq_inner distinct flat split belowThere second] at different
      simp at different

/-- The plan at the end is aligned exactly when no demoted loop is linked to a demoted loop. -/
theorem isAligned_iff (built : plan.IsBuilt) (grows : plan.program.CanGrow)
    (mirror : plan.IsMirror) :
    final.IsAligned ↔
      ∀ link ∈ final.tree.links, ¬ (plan.Demotes link.1 ∧ plan.Demotes link.2) := by
  obtain ⟨formed, single, mirrored⟩ := stages.mirrors_budgeted built grows mirror
  have numbered := built.isFormed.numbered
  have distinct := formed.numbered.distinct
  have order := nestedSerialLoops_sublist stages.budgeted.tree
  have nested := root_not_mem_nestedSerialLoops distinct
  obtain ⟨loops, loops_eq, demoted⟩ :
      ∃ loops, loops.map Prod.fst = nestedSerialLoops stages.budgeted.tree ∧
        Demoted stages.budgeted ([] ++ loops) final :=
    Demoted.exists_of_demoteEach formed mirrored (demoted_nil stages.budgeted) single
      (distinct.sublist order) nested stages.demoted
  rw [List.nil_append] at demoted
  have serial (node : PlanNode) (there : node ∈ stages.budgeted.tree.nodes)
      (listed : node.id ∈ loops.map Prod.fst) : node.kind = .parfor :=
    (isSerialLoop_of_mem distinct there (loops_eq ▸ listed)).1
  rw [← loops_eq] at nested order
  constructor
  · -- A link of two demoted loops at the end was one of two loops that were to be demoted.
    intro aligned link member both
    rw [demoted.links_eq formed mirrored] at member
    obtain ⟨before, linked, rfl⟩ := List.mem_map.mp member
    obtain ⟨first, second⟩ := (stages.demotes_link_iff numbered distinct loops_eq linked).mp both
    exact demoted.not_isAligned formed mirrored nested serial order linked first second aligned
  · intro apart
    apply demoted.isAligned formed mirrored single nested
    intro link linked both
    have stillLinked := demoted.mem_links formed mirrored linked
    exact apart _ stillLinked ((stages.demotes_link_iff numbered distinct loops_eq linked).mpr both)

end Stages

/-- An optimized plan is aligned with its program exactly when no demoted loop is linked to a
demoted loop. Before, blocks have one parent at most, as in every program that is built block by
block, and the plan mirrors its program. -/
theorem isAligned_optimize_iff (built : plan.IsBuilt) (grows : plan.program.CanGrow)
    (mirror : plan.IsMirror) (done : (optimizer.optimize vars plan).1 = .ok summary) :
    (optimizer.optimize vars plan).2.plan.IsAligned ↔
      ∀ link ∈ (optimizer.optimize vars plan).2.plan.tree.links,
        ¬ (plan.Demotes link.1 ∧ plan.Demotes link.2) := by
  obtain ⟨stages⟩ := exists_stages done
  exact stages.isAligned_iff built grows mirror

/-! ## Three loops -/

/-- The node of a parallel loop of ten iterations. -/
def loopNode (index : Nat) : PlanNode :=
  { id := ⟨index⟩, kind := .parfor, placement := .inProcess, block := some ⟨index⟩
    parameters := { numIterations := some "10" } }

/-- The block of a parallel loop of ten iterations. -/
def loopBlock (var : String) (children : List BlockId) : Block Rat :=
  .parallel { var, first := .const 1, last := .const 10, step := 1 } .undecided children

/-- A loop in a loop in a loop. -/
def threeLoops : Plan Rat where
  tree := .node (loopNode 0) [.node (loopNode 1) [.node (loopNode 2) []]]
  program :=
    { blocks := #[loopBlock "i" [⟨1⟩], loopBlock "j" [⟨2⟩], loopBlock "k" []], hops := #[] }

theorem isBuilt_threeLoops : threeLoops.IsBuilt := by
  have first : Plan.ofLoop threeLoops.program ⟨0⟩ =
      .ok { threeLoops with tree := .node (loopNode 0) [] } := rfl
  have second : (addBlockNode ⟨0⟩ ⟨1⟩).result { threeLoops with tree := .node (loopNode 0) [] } =
      (.ok ⟨1⟩, { threeLoops with tree := .node (loopNode 0) [.node (loopNode 1) []] }) := rfl
  have third : (addBlockNode ⟨1⟩ ⟨2⟩).result
      { threeLoops with tree := .node (loopNode 0) [.node (loopNode 1) []] } =
        (.ok ⟨2⟩, threeLoops) := rfl
  exact .addBlockNode (.addBlockNode (.ofLoop first) second) third

theorem program_isBuilt_threeLoops : threeLoops.program.IsBuilt := by
  have second : (Program.empty.addBlock (loopBlock "i" [])).addChild ⟨0⟩ (loopBlock "j" []) =
      .ok { blocks := #[loopBlock "i" [⟨1⟩], loopBlock "j" []], hops := #[] } := rfl
  have third : Program.addChild { blocks := #[loopBlock "i" [⟨1⟩], loopBlock "j" []], hops := #[] }
      ⟨1⟩ (loopBlock "k" []) = .ok threeLoops.program := rfl
  exact .addChild (.addChild (.addBlock .empty rfl) rfl second) rfl third

theorem isMirror_threeLoops : threeLoops.IsMirror where
  injective := by
    have own : ∀ node ∈ threeLoops.tree.nodes, node.block = some ⟨node.id.index⟩ := by decide
    exact Plan.injective_of_own own
  linked := by
    intro link member above below above_eq below_eq
    have links : threeLoops.tree.links =
        [(loopNode 0, loopNode 1), (loopNode 1, loopNode 2)] := rfl
    rw [links, List.mem_cons, List.mem_singleton] at member
    rcases member with rfl | rfl <;> cases above_eq <;> cases below_eq
    · exact List.mem_singleton_self _
    · exact List.mem_singleton_self _
  bound := by
    intro id _ kind
    have bound : id.index < 3 := Program.index_lt_of_kind? kind
    obtain ⟨index⟩ := id
    refine ⟨loopNode index, ?_, rfl⟩
    have all : ∀ index < 3, loopNode index ∈ threeLoops.tree.nodes := by decide
    exact all index bound

/-- With a hundred workers, ten are left for each of the ten iterations of the outermost loop, and
only the innermost loop is demoted. -/
theorem isAligned_threeLoops :
    ∃ summary, ((ofMachine 100).optimize .empty threeLoops).1 = .ok summary ∧
      summary.removed = 1 ∧ ((ofMachine 100).optimize .empty threeLoops).2.plan.IsAligned := by
  obtain ⟨summary, done⟩ := Outcome.exists_ok
    (show ((ofMachine 100).optimize .empty threeLoops).1.toOption.isSome = true by decide +kernel)
  have removed : (((ofMachine 100).optimize .empty threeLoops).1.toOption.map
      PassSummary.removed) = some 1 := by decide +kernel
  rw [done] at removed
  refine ⟨summary, done, Option.some.inj removed, ?_⟩
  have grows := program_isBuilt_threeLoops.canGrow
  rw [isAligned_optimize_iff isBuilt_threeLoops grows isMirror_threeLoops done]
  decide +kernel

/-- With one worker, both inner loops are demoted, and the new block of the one in the middle still
lists the old block of the innermost one. -/
theorem not_isAligned_threeLoops :
    threeLoops.IsBuilt ∧ threeLoops.program.IsBuilt ∧ threeLoops.IsMirror ∧
      ∃ summary, ((ofMachine 1).optimize .empty threeLoops).1 = .ok summary ∧
        ¬ ((ofMachine 1).optimize .empty threeLoops).2.plan.IsAligned := by
  obtain ⟨summary, done⟩ := Outcome.exists_ok
    (show ((ofMachine 1).optimize .empty threeLoops).1.toOption.isSome = true by decide +kernel)
  obtain ⟨stages⟩ := exists_stages done
  have grows := program_isBuilt_threeLoops.canGrow
  refine ⟨isBuilt_threeLoops, program_isBuilt_threeLoops, isMirror_threeLoops, summary, done, ?_⟩
  rw [stages.isAligned_iff isBuilt_threeLoops grows isMirror_threeLoops]
  intro apart
  have pair : ∃ link ∈ ((ofMachine 1).optimize .empty threeLoops).2.plan.tree.links,
      threeLoops.Demotes link.1 ∧ threeLoops.Demotes link.2 := by decide +kernel
  obtain ⟨link, linked, both⟩ := pair
  exact apart link linked both

end Optimizer

end ParallelLoop
