/-
# Alignment of plan and program

A plan mirrors its program when the nodes stand for different blocks, links of the tree are
lists of the program, and every parallel loop of the program has a node. How a plan
mirrors its program depends on its layout only, and splitting the loop keeps it. Blocks keep
their single parents as well, because nothing lists the new block before.

An optimized plan is aligned with its program when all of this can still be read from
the block of its loop.
-/

import ParallelLoop.Proofs.Plan.Building
import ParallelLoop.Proofs.Plan.Links

namespace ParallelLoop

namespace Plan

variable {α : Type} {plan other after : Plan α}

/-- The block of the loop contains this block. -/
def Contains (plan : Plan α) (id : BlockId) : Prop :=
  ∃ top, plan.tree.root.block = some top ∧ plan.program.Reaches top id

/-- Blocks of linked nodes list each other. -/
def IsLinked (plan : Plan α) : Prop :=
  ∀ link ∈ plan.tree.links, ∀ above below, link.1.block = some above → link.2.block = some below →
    plan.program.Lists above below

/-- The tree mirrors the program: nodes stand for different blocks, links of nodes are lists of
blocks, and every parallel loop in the loop has a node. -/
structure IsMirror (plan : Plan α) : Prop where
  injective : ∀ first ∈ plan.tree.nodes, ∀ second ∈ plan.tree.nodes, ∀ id,
    first.block = some id → second.block = some id → first.id = second.id
  linked : plan.IsLinked
  bound : ∀ id, plan.Contains id → plan.program.kind? id = some .parfor →
    ∃ node ∈ plan.tree.nodes, node.block = some id

/-- Nodes that stand for the blocks of their own numbers stand for different ones. -/
theorem injective_of_own
    (own : ∀ node ∈ plan.tree.nodes, node.block = some ⟨node.id.index⟩) :
    ∀ first ∈ plan.tree.nodes, ∀ second ∈ plan.tree.nodes, ∀ id,
      first.block = some id → second.block = some id → first.id = second.id := by
  intro first there second alsoThere id first_eq second_eq
  rw [own first there] at first_eq
  rw [own second alsoThere] at second_eq
  have same := congrArg BlockId.index (Option.some.inj (first_eq.trans second_eq.symm))
  exact congrArg NodeId.mk same

/-- Read from the block of the loop, tree and program agree: blocks of linked nodes list each other,
sequential loops of the tree are those of the program, and parallel loops of the program are
those of the tree. -/
structure IsAligned (plan : Plan α) : Prop where
  linked : plan.IsLinked
  sequential : ∀ node ∈ plan.tree.nodes, node.kind = .for →
    ∃ id, node.block = some id ∧ plan.Contains id ∧ plan.program.kind? id = some .for
  parallel : ∀ id, plan.Contains id → plan.program.kind? id = some .parfor →
    ∃ node ∈ plan.tree.nodes, node.kind = .parfor ∧ node.block = some id

/-- In a linked plan, the loop contains the blocks of all nodes. -/
theorem IsLinked.contains (linked : plan.IsLinked) (top : plan.tree.root.block.isSome = true)
    {node : PlanNode} {id : BlockId} (there : node ∈ plan.tree.nodes)
    (block_eq : node.block = some id) : plan.Contains id := by
  -- Down from the topmost node, along the links.
  have all := @PlanTree.links_induction plan.tree
    (fun node => ∀ id, node.block = some id → plan.Contains id)
    (fun id root_eq => ⟨id, root_eq, .refl⟩) (fun link member above id below_eq => by
      obtain ⟨parent, parent_eq⟩ :=
        Option.isSome_iff_exists.mp (PlanTree.isSome_of_mem_links top member).1
      obtain ⟨start, start_eq, reaches⟩ := above parent parent_eq
      exact ⟨start, start_eq, reaches.tail (linked link member parent id parent_eq below_eq)⟩)
  exact all node there (block_eq ▸ rfl) id block_eq

/-- In a plan that mirrors its program, the block of a node has a parent, which is that of the node
above. -/
theorem IsMirror.exists_parent (mirror : plan.IsMirror) (formed : plan.IsFormed) {node : PlanNode}
    {id : BlockId} (there : node ∈ plan.tree.nodes) (block_eq : node.block = some id)
    (nested : node.id ≠ plan.tree.id) :
    ∃ link ∈ plan.tree.links, ∃ parent, link.2 = node ∧ link.1.block = some parent ∧
      plan.program.Lists parent id := by
  have different : node ≠ plan.tree.root := by
    rintro rfl
    exact nested rfl
  obtain ⟨link, linked, rfl⟩ := PlanTree.exists_mem_links there (block_eq ▸ rfl) different
  obtain ⟨parent, parent_eq⟩ :=
    Option.isSome_iff_exists.mp (PlanTree.isSome_of_mem_links formed.top linked).1
  have lists := mirror.linked link linked parent id parent_eq block_eq
  exact ⟨link, linked, parent, rfl, parent_eq, lists⟩

/-! ## Plans of one layout -/

section Layout

variable (same : other.layout = plan.layout)

include same

theorem undecided_of_layout :
    other.tree.mapNodes PlanNode.undecided = plan.tree.mapNodes PlanNode.undecided :=
  congrArg Prod.fst same

theorem shape_of_layout : other.program.shape = plan.program.shape := congrArg Prod.snd same

theorem nextBlock_of_layout : other.program.nextBlock = plan.program.nextBlock := by
  have sizes := congrArg Array.size (shape_of_layout same)
  unfold Program.shape at sizes
  rw [Array.size_map, Array.size_map] at sizes
  exact congrArg BlockId.mk sizes

theorem id_of_layout : other.tree.id = plan.tree.id :=
  PlanTree.id_of_mapNodes (undecided_of_layout same) fun _ => rfl

theorem root_block_of_layout : other.tree.root.block = plan.tree.root.block := by
  have roots := congrArg (fun tree => tree.root.block) (undecided_of_layout same)
  rwa [PlanTree.root_mapNodes, PlanTree.root_mapNodes] at roots

theorem root_kind_of_layout : other.tree.root.kind = plan.tree.root.kind := by
  have roots := congrArg (fun tree => tree.root.kind) (undecided_of_layout same)
  rwa [PlanTree.root_mapNodes, PlanTree.root_mapNodes] at roots

theorem exists_node_of_layout {node : PlanNode} (there : node ∈ other.tree.nodes) :
    ∃ twin ∈ plan.tree.nodes,
      node.id = twin.id ∧ node.kind = twin.kind ∧ node.block = twin.block := by
  obtain ⟨twin, inside, looks⟩ :=
    PlanTree.exists_node_of_mapNodes (undecided_of_layout same) there
  exact ⟨twin, inside, (congrArg PlanNode.id looks :), (congrArg PlanNode.kind looks :),
    (congrArg PlanNode.block looks :)⟩

theorem exists_link_of_layout {link : PlanNode × PlanNode} (there : link ∈ other.tree.links) :
    ∃ twin ∈ plan.tree.links, link.1.id = twin.1.id ∧ link.1.block = twin.1.block ∧
      link.2.id = twin.2.id ∧ link.2.block = twin.2.block := by
  have keeps (tree : PlanTree) := @PlanTree.links_mapNodes tree PlanNode.undecided fun _ _ => rfl
  have all := congrArg PlanTree.links (undecided_of_layout same)
  rw [keeps, keeps] at all
  have member :=
    all ▸ List.mem_map_of_mem (f := Prod.map PlanNode.undecided PlanNode.undecided) there
  obtain ⟨twin, inside, twin_eq⟩ := List.mem_map.mp member
  have fst_eq : twin.1.undecided = link.1.undecided := congrArg Prod.fst twin_eq
  have snd_eq : twin.2.undecided = link.2.undecided := congrArg Prod.snd twin_eq
  exact ⟨twin, inside,
    (congrArg PlanNode.id fst_eq.symm :), (congrArg PlanNode.block fst_eq.symm :),
    (congrArg PlanNode.id snd_eq.symm :), (congrArg PlanNode.block snd_eq.symm :)⟩

theorem contains_of_layout (id : BlockId) : other.Contains id ↔ plan.Contains id := by
  unfold Contains Program.Reaches
  rw [root_block_of_layout same, Program.lists_of_shape (shape_of_layout same)]

theorem hasSingleParents_of_layout (single : plan.program.HasSingleParents) :
    other.program.HasSingleParents := by
  unfold Program.HasSingleParents
  rw [Program.lists_of_shape (shape_of_layout same)]
  exact single

theorem canGrow_of_layout (grows : plan.program.CanGrow) : other.program.CanGrow where
  single := hasSingleParents_of_layout same grows.single
  unlisted := by
    rw [Program.lists_of_shape (shape_of_layout same), nextBlock_of_layout same]
    exact grows.unlisted

theorem IsFormed.of_layout (formed : plan.IsFormed) : other.IsFormed where
  numbered := isNumbered_of_layout formed.numbered same
  top := by
    rw [root_block_of_layout same]
    exact formed.top
  kinds := by
    intro node there id block_eq
    obtain ⟨twin, inside, -, kind_eq, twin_eq⟩ := exists_node_of_layout same there
    rw [Program.kind?_of_shape (shape_of_layout same), kind_eq]
    exact formed.kinds twin inside id (twin_eq ▸ block_eq)
  operators := by
    intro node there block_eq
    obtain ⟨twin, inside, -, kind_eq, twin_eq⟩ := exists_node_of_layout same there
    rw [kind_eq]
    exact formed.operators twin inside (twin_eq ▸ block_eq)

theorem IsMirror.of_layout (mirror : plan.IsMirror) : other.IsMirror where
  injective := by
    intro first there second alsoThere id first_eq second_eq
    obtain ⟨twin, inside, id_eq, -, block_eq⟩ := exists_node_of_layout same there
    obtain ⟨otherTwin, alsoInside, other_id_eq, -, other_block_eq⟩ :=
      exists_node_of_layout same alsoThere
    rw [id_eq, other_id_eq]
    exact mirror.injective twin inside otherTwin alsoInside id (block_eq ▸ first_eq)
      (other_block_eq ▸ second_eq)
  linked := by
    intro link there above below above_eq below_eq
    obtain ⟨twin, inside, -, fst_eq, -, snd_eq⟩ := exists_link_of_layout same there
    rw [Program.lists_of_shape (shape_of_layout same)]
    exact mirror.linked twin inside above below (fst_eq ▸ above_eq) (snd_eq ▸ below_eq)
  bound := by
    intro id contained kind
    rw [contains_of_layout same] at contained
    rw [Program.kind?_of_shape (shape_of_layout same)] at kind
    obtain ⟨node, inside, block_eq⟩ := mirror.bound id contained kind
    obtain ⟨twin, there, -, -, twin_eq⟩ := exists_node_of_layout same.symm inside
    exact ⟨twin, there, twin_eq ▸ block_eq⟩

end Layout

/-! ## Splitting the loop -/

/-- The loop of the plan is split: a new node and a new block are between it and its body. -/
structure Split (plan after : Plan α) (root outer inner : PlanNode) (children : List PlanTree)
    (top : BlockId) : Prop where
  before : plan.tree = .node root children
  tree_eq : after.tree = .node outer [.node inner children]
  root_block : root.block = some top
  outer_id : outer.id = root.id
  outer_kind : outer.kind = root.kind
  outer_block : outer.block = some top
  inner_id : inner.id = plan.tree.freshId
  inner_kind : inner.kind = .parfor
  inner_block : inner.block = some plan.program.nextBlock
  inside : top.index < plan.program.blocks.size
  listed_eq : ∀ id, after.program.listed id =
    if id = top then [plan.program.nextBlock]
    else if id = plan.program.nextBlock then plan.program.listed top else plan.program.listed id
  kind_eq : ∀ id, after.program.kind? id =
    if id = plan.program.nextBlock then some .parfor else plan.program.kind? id

theorem blockOf_root {top : BlockId} (distinct : plan.tree.ids.Nodup)
    (found : plan.blockOf plan.tree.id = .ok top) : plan.tree.root.block = some top := by
  obtain ⟨node, there, id_eq, block_eq⟩ := exists_node_of_blockOf found
  have same := PlanTree.eq_of_id_eq distinct there (PlanTree.root_mem_nodes plan.tree) id_eq
  rw [← same]
  exact block_eq

/-- Splitting the loop of a plan puts one node and one block in between. -/
theorem exists_split {chunk : Nat} {outerVar : String} {id : NodeId}
    (distinct : plan.tree.ids.Nodup)
    (done : (splitLoop plan.tree.id chunk outerVar).result plan = (.ok id, after)) :
    ∃ root outer inner children top, Split plan after root outer inner children top := by
  obtain ⟨top, block, _, count, bounds, settings, steps, found, held, -, -, -, -, -, tree_eq,
    program_eq⟩ := of_splitLoop done
  have root_block := blockOf_root distinct found
  have inside := Program.index_lt_of_kind? (Program.kind?_of_block held)
  have notNext := Program.ne_nextBlock inside
  obtain ⟨root, children, before⟩ := plan.tree.exists_eq_node
  refine ⟨root, outerNode count (max chunk 1) root, plan.innerNode (max chunk 1), children, top, {
    before
    tree_eq := ?_
    root_block := ?_
    outer_id := rfl
    outer_kind := rfl
    outer_block := ?_
    inner_id := rfl
    inner_kind := rfl
    inner_block := rfl
    inside
    listed_eq := ?_
    kind_eq := ?_ }⟩
  · have id_eq : (PlanTree.node root children).id = root.id := rfl
    rw [tree_eq, before, id_eq, PlanTree.insertBelow_root, PlanTree.update_root]
  · rw [before] at root_block
    exact root_block
  · rw [before] at root_block
    exact root_block
  · intro id
    -- The top block lists the new block only, which lists what the top block did.
    rw [Program.listed, program_eq, Program.getElem?_modifyBlock]
    by_cases here : id = top
    · rw [if_pos here, if_pos here, Program.getElem?_addBlock, if_neg notNext,
        Program.getElem?_of_block held]
      rfl
    · rw [if_neg here, if_neg here, Program.listed_of_block held]
      exact Program.listed_addBlock plan.program _ id
  · intro id
    rw [program_eq, Program.kind?_modifyBlock fun _ => by rfl, Program.kind?_addBlock,
      Block.parallel]

/-- A node stands for a block that is there. -/
theorem IsFormed.block_lt (formed : plan.IsFormed) {node : PlanNode} {id : BlockId}
    (there : node ∈ plan.tree.nodes) (block_eq : node.block = some id) :
    id.index < plan.program.blocks.size := by
  obtain ⟨kind, held, -⟩ := Option.map_eq_some_iff.mp (formed.kinds node there id block_eq)
  exact Program.index_lt_of_kind? held

theorem IsFormed.block_ne_next (formed : plan.IsFormed) {node : PlanNode} {id : BlockId}
    (there : node ∈ plan.tree.nodes) (block_eq : node.block = some id) :
    id ≠ plan.program.nextBlock := Program.ne_nextBlock (formed.block_lt there block_eq)

/-- Demoting a loop keeps a plan formed. -/
theorem IsFormed.demote {id : NodeId} (formed : plan.IsFormed)
    (done : (demote id).result plan = (.ok (), after)) : after.IsFormed := by
  obtain ⟨old, block, bounds, -, -, -, tree_eq, program_eq⟩ := of_demote done
  have ids_eq : after.tree.ids = plan.tree.ids := by
    rw [tree_eq]
    apply PlanTree.ids_update
    exact fun _ => rfl
  rw [PlanTree.update_eq_mapNodes formed.numbered.distinct] at tree_eq
  -- A node is the one that was demoted, or it was there before.
  have origin {node : PlanNode} (there : node ∈ after.tree.nodes) :
      node.block = some plan.program.nextBlock ∧ node.kind = .for ∨ node ∈ plan.tree.nodes := by
    rw [tree_eq, PlanTree.nodes_mapNodes] at there
    obtain ⟨twin, before, rfl⟩ := List.mem_map.mp there
    split
    next => exact .inl ⟨rfl, rfl⟩
    next => exact .inr before
  refine ⟨(PlanTree.isNumbered_congr ids_eq).mpr formed.numbered, ?_, ?_, ?_⟩
  · rw [tree_eq, PlanTree.root_mapNodes]
    split
    next => rfl
    next => exact formed.top
  · intro node there id block_eq
    rw [program_eq, Program.kind?_replaceBlock]
    rcases origin there with ⟨fresh, kind_eq⟩ | before
    · obtain rfl := Option.some.inj (fresh.symm.trans block_eq)
      rw [if_pos rfl, kind_eq]
      rfl
    · rw [if_neg (formed.block_ne_next before block_eq)]
      exact formed.kinds node before id block_eq
  · intro node there block_eq
    rcases origin there with ⟨fresh, -⟩ | before
    · cases fresh.symm.trans block_eq
    · exact formed.operators node before block_eq

theorem kind_ne_parfor (flat : plan.tree.hasNestedParallelism = false) {node : PlanNode}
    (there : node ∈ plan.tree.nodes) (nested : node.id ≠ plan.tree.id) : node.kind ≠ .parfor := by
  cases held : plan.tree with
  | node root children =>
    rw [held] at flat there nested
    rw [PlanTree.nodes_node, List.mem_cons] at there
    rcases there with rfl | below
    · exact absurd rfl nested
    · rw [PlanTree.hasNestedParallelism_eq_any, List.any_eq_false] at flat
      intro parallel
      exact flat node below (beq_iff_eq.mpr parallel)

namespace Split

variable {root outer inner : PlanNode} {children : List PlanTree} {top : BlockId}
  (split : Split plan after root outer inner children top)

include split

theorem nodes_eq : after.tree.nodes = outer :: inner :: children.flatMap PlanTree.nodes := by
  rw [split.tree_eq, PlanTree.nodes_node, List.flatMap_singleton, PlanTree.nodes_node]

theorem root_mem : root ∈ plan.tree.nodes := by
  rw [split.before, PlanTree.nodes_node]
  exact List.mem_cons_self ..

/-- A node that is not new was there before. -/
theorem origin_of_mem {node : PlanNode} (there : node ∈ after.tree.nodes) :
    node = inner ∨ ∃ twin ∈ plan.tree.nodes,
      node.id = twin.id ∧ node.kind = twin.kind ∧ node.block = twin.block := by
  have before : plan.tree.nodes = root :: children.flatMap PlanTree.nodes := by
    rw [split.before, PlanTree.nodes_node]
  rw [split.nodes_eq, List.mem_cons, List.mem_cons] at there
  rw [before]
  rcases there with rfl | same | below
  · exact .inr ⟨root, List.mem_cons_self .., split.outer_id, split.outer_kind,
      split.outer_block.trans split.root_block.symm⟩
  · exact .inl same
  · exact .inr ⟨node, List.mem_cons_of_mem root below, rfl, rfl, rfl⟩

theorem isNumbered (numbered : plan.tree.IsNumbered) : after.tree.IsNumbered := by
  apply numbered.of_perm
  rw [split.tree_eq, PlanTree.ids_node, List.flatMap_singleton, PlanTree.ids_node, split.outer_id,
    split.inner_id, split.before, PlanTree.ids_node]
  exact List.Perm.swap ..

theorem id_eq : after.tree.id = plan.tree.id := by
  rw [split.tree_eq, split.before]
  exact split.outer_id

/-- When the plan had no parallel loop below its topmost one, the only one now is the new one. -/
theorem eq_inner_of_parallel (flat : plan.tree.hasNestedParallelism = false) {node : PlanNode}
    (there : node ∈ after.tree.nodes) (parallel : node.kind = .parfor)
    (nested : node.id ≠ after.tree.id) : node = inner := by
  rcases split.origin_of_mem there with same | ⟨twin, before, id_eq, kind_eq, -⟩
  · exact same
  · rw [id_eq, split.id_eq] at nested
    exact absurd (kind_eq ▸ parallel) (kind_ne_parfor flat before nested)

/-- A plan stays formed. -/
theorem isFormed (formed : plan.IsFormed) : after.IsFormed where
  numbered := split.isNumbered formed.numbered
  top := by
    rw [split.tree_eq]
    exact split.outer_block ▸ rfl
  kinds := by
    intro node there id block_eq
    rw [split.kind_eq]
    rcases split.origin_of_mem there with rfl | ⟨twin, before, -, kind_eq, twin_eq⟩
    · obtain rfl := Option.some.inj (split.inner_block.symm.trans block_eq)
      rw [if_pos rfl, split.inner_kind]
      rfl
    · rw [twin_eq] at block_eq
      rw [if_neg (formed.block_ne_next before block_eq), kind_eq]
      exact formed.kinds twin before id block_eq
  operators := by
    intro node there block_eq
    rcases split.origin_of_mem there with rfl | ⟨twin, before, -, kind_eq, twin_eq⟩
    · cases split.inner_block.symm.trans block_eq
    · rw [kind_eq]
      exact formed.operators twin before (twin_eq ▸ block_eq)

theorem top_ne_next : top ≠ plan.program.nextBlock := Program.ne_nextBlock split.inside

/-- What listed a block lists it still, only that the new block has taken over the body. -/
theorem lists_of_lists {above below : BlockId} (lists : plan.program.Lists above below) :
    after.program.Lists (if above = top then plan.program.nextBlock else above) below := by
  unfold Program.Lists at *
  rw [split.listed_eq]
  by_cases here : above = top
  · rwa [if_pos here, if_neg split.top_ne_next.symm, if_pos rfl, ← here]
  · have notNext := Program.ne_nextBlock (Program.index_lt_of_lists lists)
    rwa [if_neg here, if_neg here, if_neg notNext]

theorem lists_cases {above below : BlockId} (lists : after.program.Lists above below) :
    above = top ∧ below = plan.program.nextBlock ∨
      ∃ origin, plan.program.Lists origin below ∧
        above = if origin = top then plan.program.nextBlock else origin := by
  unfold Program.Lists at *
  rw [split.listed_eq] at lists
  by_cases here : above = top
  · rw [if_pos here] at lists
    exact .inl ⟨here, List.mem_singleton.mp lists⟩
  · rw [if_neg here] at lists
    by_cases next : above = plan.program.nextBlock
    · rw [if_pos next] at lists
      exact .inr ⟨top, lists, by rw [if_pos rfl, next]⟩
    · rw [if_neg next] at lists
      exact .inr ⟨above, lists, by rw [if_neg here]⟩

/-- Only the new block and what was there before is in the loop. -/
theorem contains_cases {id : BlockId} (contained : after.Contains id) :
    id = plan.program.nextBlock ∨ plan.Contains id := by
  obtain ⟨start, root_eq, reaches⟩ := contained
  have start_eq : start = top := by
    rw [split.tree_eq] at root_eq
    exact Option.some.inj (root_eq.symm.trans split.outer_block)
  have start_block : plan.tree.root.block = some top := by
    rw [split.before]
    exact split.root_block
  rw [start_eq] at reaches
  -- Along the way from the block of the loop, step by step.
  induction reaches with
  | refl => exact .inr ⟨top, start_block, .refl⟩
  | @tail above below _ step ih =>
    rcases split.lists_cases step with ⟨-, next⟩ | ⟨origin, lists, above_eq⟩
    · exact .inl next
    · by_cases here : origin = top
      · exact .inr ⟨top, start_block, .tail .refl (here ▸ lists)⟩
      · rw [if_neg here] at above_eq
        rcases ih with next | ⟨first, first_eq, before⟩
        · -- A block that is not there yet lists nothing.
          have inside := Program.index_lt_of_lists lists
          rw [← above_eq, next] at inside
          exact absurd inside (Nat.lt_irrefl _)
        · exact .inr ⟨first, first_eq, .tail before (above_eq ▸ lists)⟩

/-- The nodes still stand for different blocks: no other one can stand for the new block. -/
theorem id_eq_of_block (formed : plan.IsFormed) (mirror : plan.IsMirror)
    {first second : PlanNode} {id : BlockId} (there : first ∈ after.tree.nodes)
    (alsoThere : second ∈ after.tree.nodes) (first_eq : first.block = some id)
    (second_eq : second.block = some id) : first.id = second.id := by
  rcases split.origin_of_mem there with rfl | ⟨twin, before, id_eq, -, block_eq⟩
  · rcases split.origin_of_mem alsoThere with rfl | ⟨other, alsoBefore, -, -, other_eq⟩
    · rfl
    · rw [other_eq] at second_eq
      have new := Option.some.inj (first_eq.symm.trans split.inner_block)
      exact absurd new (formed.block_ne_next alsoBefore second_eq)
  · rw [block_eq] at first_eq
    rcases split.origin_of_mem alsoThere with rfl | ⟨other, alsoBefore, other_id, -, other_eq⟩
    · have new := Option.some.inj (second_eq.symm.trans split.inner_block)
      exact absurd new (formed.block_ne_next before first_eq)
    · rw [id_eq, other_id]
      exact mirror.injective twin before other alsoBefore id first_eq (other_eq ▸ second_eq)

/-- Blocks keep their single parents: only the block of the loop lists the new one. -/
theorem hasSingleParents (grows : plan.program.CanGrow) : after.program.HasSingleParents := by
  intro above other below lists alsoLists
  rcases split.lists_cases lists with ⟨here, next⟩ | ⟨origin, before, above_eq⟩
  · rcases split.lists_cases alsoLists with ⟨alsoHere, -⟩ | ⟨origin, before, -⟩
    · rw [here, alsoHere]
    · exact absurd (next ▸ before) (grows.unlisted origin)
  · rcases split.lists_cases alsoLists with ⟨-, next⟩ | ⟨otherOrigin, alsoBefore, other_eq⟩
    · exact absurd (next ▸ before) (grows.unlisted origin)
    · rw [above_eq, other_eq, grows.single origin otherOrigin below before alsoBefore]

/-- The new node is linked to the loop, and what was linked to the loop is linked to the new node.
Links deeper down are those that were there before. -/
theorem links_cases {link : PlanNode × PlanNode} (member : link ∈ after.tree.links) :
    link = (outer, inner) ∨
      link.1 = inner ∧ (root, link.2) ∈ plan.tree.links ∨
      link.1 ∈ children.flatMap PlanTree.nodes ∧ link ∈ plan.tree.links := by
  obtain ⟨child, there, linked⟩ := PlanTree.mem_links.mp member
  rw [split.tree_eq] at there linked
  obtain rfl := List.mem_singleton.mp there
  rw [PlanTree.linksBelow_of_bound (split.inner_block ▸ rfl), List.mem_cons] at linked
  rcases linked with new | deeper
  · exact .inl new
  · obtain ⟨child, inside, linked⟩ := PlanTree.mem_linksBelowAll.mp deeper
    rw [split.before]
    rcases PlanTree.mem_linksBelow_of_above root linked with ⟨above_eq, moved⟩ | ⟨within, kept⟩
    · exact .inr (.inl ⟨above_eq, PlanTree.mem_links.mpr ⟨child, inside, moved⟩⟩)
    · exact .inr (.inr ⟨List.mem_flatMap.mpr ⟨child, inside, within⟩,
        PlanTree.mem_links.mpr ⟨child, inside, kept⟩⟩)

/-- Only the topmost node stands for the block of the loop. -/
theorem block_ne_top (formed : plan.IsFormed) (mirror : plan.IsMirror) {node : PlanNode}
    (below : node ∈ children.flatMap PlanTree.nodes) : node.block ≠ some top := by
  intro block_eq
  have inside : node ∈ plan.tree.nodes := by
    rw [split.before, PlanTree.nodes_node]
    exact List.mem_cons_of_mem root below
  have same := mirror.injective node inside root split.root_mem top block_eq split.root_block
  obtain ⟨child, there, within⟩ := List.mem_flatMap.mp below
  have distinct := formed.numbered.distinct
  rw [split.before, PlanTree.ids_node, List.nodup_cons] at distinct
  exact distinct.1 (same ▸ List.mem_flatMap.mpr ⟨child, there, List.mem_map_of_mem within⟩)

theorem isLinked (formed : plan.IsFormed) (mirror : plan.IsMirror) : after.IsLinked := by
  intro link member above below above_eq below_eq
  rcases split.links_cases member with rfl | ⟨fst_eq, moved⟩ | ⟨within, kept⟩
  · obtain rfl := Option.some.inj (above_eq.symm.trans split.outer_block)
    obtain rfl := Option.some.inj (below_eq.symm.trans split.inner_block)
    rw [Program.Lists, split.listed_eq, if_pos rfl]
    exact List.mem_singleton_self _
  · rw [fst_eq, split.inner_block] at above_eq
    obtain rfl := Option.some.inj above_eq
    have taken := split.lists_of_lists (mirror.linked _ moved top below split.root_block below_eq)
    rwa [if_pos rfl] at taken
  · have taken := split.lists_of_lists (mirror.linked link kept above below above_eq below_eq)
    have different : above ≠ top := by
      rintro rfl
      exact split.block_ne_top formed mirror within above_eq
    rwa [if_neg different] at taken

/-- Every parallel loop of the program still has a node: only one was added, and it has the new
one. -/
theorem exists_node_of_contains (mirror : plan.IsMirror) {id : BlockId}
    (contained : after.Contains id) (kind : after.program.kind? id = some .parfor) :
    ∃ node ∈ after.tree.nodes, node.block = some id := by
  rw [split.kind_eq] at kind
  rw [split.nodes_eq]
  by_cases next : id = plan.program.nextBlock
  · exact ⟨inner, List.mem_cons_of_mem _ (List.mem_cons_self ..), next ▸ split.inner_block⟩
  · rw [if_neg next] at kind
    obtain ⟨node, there, block_eq⟩ :=
      mirror.bound id ((split.contains_cases contained).resolve_left next) kind
    rw [split.before, PlanTree.nodes_node, List.mem_cons] at there
    rcases there with rfl | below
    · refine ⟨outer, List.mem_cons_self .., ?_⟩
      rw [split.outer_block, ← split.root_block, block_eq]
    · exact ⟨node, List.mem_cons_of_mem _ (List.mem_cons_of_mem _ below), block_eq⟩

/-- A plan stays a mirror of its program. -/
theorem isMirror (formed : plan.IsFormed) (mirror : plan.IsMirror) : after.IsMirror where
  injective _ there _ alsoThere _ := split.id_eq_of_block formed mirror there alsoThere
  linked := split.isLinked formed mirror
  bound _ := split.exists_node_of_contains mirror

end Split

end Plan

end ParallelLoop
