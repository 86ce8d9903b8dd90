/-
# Links of a plan tree

A node that stands for a block is linked to the nearest node above it that stands for a
block, too; nodes of operators in between do not count. The links of a tree go from above to
below, so what passes along every link holds of every node that stands for a block.
-/

import ParallelLoop.Proofs.Plan.Tree

namespace ParallelLoop.PlanTree

mutual

/-- The links below a node that stands for a block. -/
def linksBelow (above : PlanNode) : PlanTree → List (PlanNode × PlanNode)
  | node root children =>
    if root.block.isSome then (above, root) :: linksBelowAll root children
    else linksBelowAll above children

/-- The links in all trees below a node that stands for a block. -/
def linksBelowAll (above : PlanNode) : List PlanTree → List (PlanNode × PlanNode)
  | [] => []
  | tree :: rest => linksBelow above tree ++ linksBelowAll above rest

end

/-- Each node below the topmost one that stands for a block, with the nearest one above it. -/
def links (tree : PlanTree) : List (PlanNode × PlanNode) := linksBelowAll tree.root tree.children

variable {tree : PlanTree} {trees : List PlanTree} {above below : PlanNode}
  {change : PlanNode → PlanNode}

theorem linksBelowAll_eq_flatMap (above : PlanNode) (trees : List PlanTree) :
    linksBelowAll above trees = trees.flatMap (linksBelow above) := by
  induction trees with
  | nil => rfl
  | cons tree rest ih => rw [linksBelowAll, ih, List.flatMap_cons]

theorem mem_linksBelowAll {link : PlanNode × PlanNode} :
    link ∈ linksBelowAll above trees ↔ ∃ tree ∈ trees, link ∈ linksBelow above tree := by
  rw [linksBelowAll_eq_flatMap, List.mem_flatMap]

theorem linksBelow_of_bound {root : PlanNode} (bound : root.block.isSome = true)
    (children : List PlanTree) :
    linksBelow above (node root children) = (above, root) :: linksBelowAll root children :=
  if_pos bound

theorem linksBelow_of_unbound {root : PlanNode} (unbound : ¬ root.block.isSome = true)
    (children : List PlanTree) :
    linksBelow above (node root children) = linksBelowAll above children := if_neg unbound

/-- A link goes down the order of the nodes. -/
theorem sublist_of_mem_linksBelow {link : PlanNode × PlanNode}
    (member : link ∈ linksBelow above tree) : [link.1, link.2].Sublist (above :: tree.nodes) := by
  induction tree using induction generalizing above with
  | node root children ih =>
    -- The trees below are reached from the root or from the node above, whichever stands for a
    -- block.
    have deeper {above : PlanNode} (inside : link ∈ linksBelowAll above children) :
        [link.1, link.2].Sublist (above :: children.flatMap nodes) := by
      obtain ⟨child, there, below⟩ := mem_linksBelowAll.mp inside
      refine (ih child there below).trans (List.Sublist.cons_cons above ?_)
      exact List.sublist_flatten_of_mem (List.mem_map_of_mem there)
    rw [nodes_node]
    by_cases bound : root.block.isSome = true
    · rw [linksBelow_of_bound bound, List.mem_cons] at member
      rcases member with rfl | inside
      · exact List.Sublist.cons_cons above (List.Sublist.cons_cons root (List.nil_sublist _))
      · exact (deeper inside).cons above
    · rw [linksBelow_of_unbound bound] at member
      exact (deeper member).trans (List.Sublist.cons_cons above (List.sublist_cons_self ..))

/-- What holds of the node above and passes along every link holds of every node that stands for a
block. -/
theorem linksBelow_induction {motive : PlanNode → Prop} (start : motive above)
    (step : ∀ link ∈ linksBelow above tree, motive link.1 → motive link.2) :
    ∀ below ∈ tree.nodes, below.block.isSome = true → motive below := by
  induction tree using induction generalizing above with
  | node root children ih =>
    intro below member isBound
    rw [nodes_node, List.mem_cons] at member
    -- The property comes down to the trees below from the nearest node that stands for a block.
    have deeper {above : PlanNode} (start : motive above)
        (step : ∀ link ∈ linksBelowAll above children, motive link.1 → motive link.2)
        (inside : below ∈ children.flatMap nodes) : motive below := by
      obtain ⟨child, there, found⟩ := List.mem_flatMap.mp inside
      refine ih child there start (fun link linked => ?_) below found isBound
      exact step link (mem_linksBelowAll.mpr ⟨child, there, linked⟩)
    by_cases bound : root.block.isSome = true
    · rw [linksBelow_of_bound bound, List.forall_mem_cons] at step
      have here := step.1 start
      rcases member with rfl | inside
      · exact here
      · exact deeper here step.2 inside
    · rw [linksBelow_of_unbound bound] at step
      rcases member with rfl | inside
      · exact absurd isBound bound
      · exact deeper start step inside

theorem exists_mem_linksBelow (member : below ∈ tree.nodes) (isBound : below.block.isSome = true) :
    ∃ link ∈ linksBelow above tree, link.2 = below := by
  induction tree using induction generalizing above with
  | node root children ih =>
    have deeper (above : PlanNode) (inside : below ∈ children.flatMap nodes) :
        ∃ link ∈ linksBelowAll above children, link.2 = below := by
      obtain ⟨child, there, found⟩ := List.mem_flatMap.mp inside
      obtain ⟨link, linked, same⟩ := @ih child there above found
      exact ⟨link, mem_linksBelowAll.mpr ⟨child, there, linked⟩, same⟩
    rw [nodes_node, List.mem_cons] at member
    -- A node without a block hands the node above it down.
    by_cases bound : root.block.isSome = true
    · rw [linksBelow_of_bound bound]
      rcases member with rfl | inside
      · exact ⟨(above, below), List.mem_cons_self .., rfl⟩
      · obtain ⟨link, linked, same⟩ := deeper root inside
        exact ⟨link, List.mem_cons_of_mem _ linked, same⟩
    · rw [linksBelow_of_unbound bound]
      rcases member with rfl | inside
      · exact absurd isBound bound
      · exact deeper above inside

/-- A change of records that keeps which nodes stand for blocks keeps the links. -/
theorem linksBelow_mapNodes
    (keeps : ∀ node ∈ tree.nodes, (change node).block.isSome = node.block.isSome) :
    linksBelow (change above) (tree.mapNodes change) =
      (linksBelow above tree).map (Prod.map change change) := by
  induction tree using induction generalizing above with
  | node root children ih =>
    rw [nodes_node, List.forall_mem_cons] at keeps
    have deeper (above : PlanNode) :
        linksBelowAll (change above) (children.map (mapNodes change)) =
          (linksBelowAll above children).map (Prod.map change change) := by
      rw [linksBelowAll_eq_flatMap, linksBelowAll_eq_flatMap, List.flatMap_map, List.map_flatMap]
      refine List.flatMap_congr fun child there => ih child there fun node member => ?_
      exact keeps.2 node (List.mem_flatMap.mpr ⟨child, there, member⟩)
    rw [mapNodes_node]
    by_cases bound : root.block.isSome = true
    · rw [linksBelow_of_bound (keeps.1.trans bound), linksBelow_of_bound bound, deeper,
        List.map_cons]
      rfl
    · rw [linksBelow_of_unbound (keeps.1 ▸ bound), linksBelow_of_unbound bound, deeper]

theorem isSome_of_mem_linksBelow {link : PlanNode × PlanNode} (start : above.block.isSome = true)
    (member : link ∈ linksBelow above tree) :
    link.1.block.isSome = true ∧ link.2.block.isSome = true := by
  induction tree using induction generalizing above with
  | node root children ih =>
    have deeper {above : PlanNode} (start : above.block.isSome = true)
        (inside : link ∈ linksBelowAll above children) :
        link.1.block.isSome = true ∧ link.2.block.isSome = true := by
      obtain ⟨child, there, below⟩ := mem_linksBelowAll.mp inside
      exact ih child there start below
    by_cases bound : root.block.isSome = true
    · rw [linksBelow_of_bound bound, List.mem_cons] at member
      rcases member with rfl | inside
      · exact ⟨start, bound⟩
      · exact deeper bound inside
    · rw [linksBelow_of_unbound bound] at member
      exact deeper start member

/-- The node above shows in the links to the nodes next below it only. -/
theorem mem_linksBelow_of_above (above : PlanNode) {other : PlanNode} {link : PlanNode × PlanNode}
    (member : link ∈ linksBelow other tree) :
    link.1 = other ∧ (above, link.2) ∈ linksBelow above tree ∨
      link.1 ∈ tree.nodes ∧ link ∈ linksBelow above tree := by
  induction tree using induction with
  | node root children ih =>
    rw [nodes_node]
    by_cases bound : root.block.isSome = true
    -- The root hides the node above from the trees below, so only the link to it goes up there.
    · rw [linksBelow_of_bound bound] at member ⊢
      rcases List.mem_cons.mp member with rfl | inside
      · exact .inl ⟨rfl, List.mem_cons_self ..⟩
      · obtain ⟨child, there, linked⟩ := mem_linksBelowAll.mp inside
        have order := sublist_of_mem_linksBelow linked
        refine .inr ⟨?_, List.mem_cons_of_mem _ inside⟩
        rcases List.mem_cons.mp (order.subset (List.mem_cons_self ..)) with same | deeper
        · exact same ▸ List.mem_cons_self ..
        · exact List.mem_cons_of_mem _ (List.mem_flatMap.mpr ⟨child, there, deeper⟩)
    · rw [linksBelow_of_unbound bound] at member ⊢
      obtain ⟨child, there, linked⟩ := mem_linksBelowAll.mp member
      rcases ih child there linked with ⟨same, moved⟩ | ⟨deeper, kept⟩
      · exact .inl ⟨same, mem_linksBelowAll.mpr ⟨child, there, moved⟩⟩
      · refine .inr ⟨?_, mem_linksBelowAll.mpr ⟨child, there, kept⟩⟩
        exact List.mem_cons_of_mem _ (List.mem_flatMap.mpr ⟨child, there, deeper⟩)

/-! ## Links of a whole tree -/

theorem mem_links {link : PlanNode × PlanNode} :
    link ∈ tree.links ↔ ∃ child ∈ tree.children, link ∈ linksBelow tree.root child :=
  mem_linksBelowAll

/-- A link goes down the order of the nodes. -/
theorem sublist_of_mem_links {link : PlanNode × PlanNode} (member : link ∈ tree.links) :
    [link.1, link.2].Sublist tree.nodes := by
  obtain ⟨child, there, linked⟩ := mem_links.mp member
  cases tree with
  | node root children =>
    rw [nodes_node]
    refine (sublist_of_mem_linksBelow linked).trans (List.Sublist.cons_cons root ?_)
    exact List.sublist_flatten_of_mem (List.mem_map_of_mem there)

theorem fst_mem_nodes {link : PlanNode × PlanNode} (member : link ∈ tree.links) :
    link.1 ∈ tree.nodes :=
  (sublist_of_mem_links member).subset (List.mem_cons_self ..)

theorem snd_mem_nodes {link : PlanNode × PlanNode} (member : link ∈ tree.links) :
    link.2 ∈ tree.nodes :=
  (sublist_of_mem_links member).subset (List.mem_cons_of_mem _ (List.mem_singleton_self _))

/-- No link goes up to the topmost node. -/
theorem snd_id_ne {link : PlanNode × PlanNode} (distinct : tree.ids.Nodup)
    (member : link ∈ tree.links) : link.2.id ≠ tree.id := by
  have order := (sublist_of_mem_links member).map PlanNode.id
  cases tree with
  | node root children =>
    have rest : link.2.id ∈ children.flatMap ids := by
      change [link.1.id, link.2.id].Sublist (node root children).ids at order
      rw [ids_node] at order
      exact order.tail.subset (List.mem_singleton_self _)
    rw [ids_node, List.nodup_cons] at distinct
    intro same
    have top : link.2.id = root.id := same
    exact distinct.1 (top ▸ rest)

theorem isSome_of_mem_links {link : PlanNode × PlanNode} (start : tree.root.block.isSome = true)
    (member : link ∈ tree.links) : link.1.block.isSome = true ∧ link.2.block.isSome = true := by
  obtain ⟨child, there, linked⟩ := mem_links.mp member
  exact isSome_of_mem_linksBelow start linked

/-- What holds of the topmost node and passes along every link holds of every node that stands for
a block. -/
theorem links_induction {motive : PlanNode → Prop} (start : motive tree.root)
    (step : ∀ link ∈ tree.links, motive link.1 → motive link.2) :
    ∀ below ∈ tree.nodes, below.block.isSome = true → motive below := by
  intro below member bound
  cases tree with
  | node root children =>
    rw [nodes_node, List.mem_cons] at member
    rcases member with rfl | inside
    · exact start
    · obtain ⟨child, there, found⟩ := List.mem_flatMap.mp inside
      refine linksBelow_induction start (fun link linked => ?_) below found bound
      exact step link (mem_links.mpr ⟨child, there, linked⟩)

/-- Every node below the topmost one that stands for a block has a link. -/
theorem exists_mem_links (member : below ∈ tree.nodes) (bound : below.block.isSome = true)
    (different : below ≠ tree.root) : ∃ link ∈ tree.links, link.2 = below := by
  cases tree with
  | node root children =>
    rw [nodes_node, List.mem_cons] at member
    rcases member with rfl | inside
    · exact absurd rfl different
    · obtain ⟨child, there, found⟩ := List.mem_flatMap.mp inside
      obtain ⟨link, linked, same⟩ := exists_mem_linksBelow found bound
      exact ⟨link, mem_links.mpr ⟨child, there, linked⟩, same⟩

theorem links_mapNodes
    (keeps : ∀ node ∈ tree.nodes, (change node).block.isSome = node.block.isSome) :
    (tree.mapNodes change).links = tree.links.map (Prod.map change change) := by
  cases tree with
  | node root children =>
    rw [nodes_node, List.forall_mem_cons] at keeps
    rw [mapNodes_node]
    unfold links
    rw [linksBelowAll_eq_flatMap, linksBelowAll_eq_flatMap, List.map_flatMap]
    change (children.map (mapNodes change)).flatMap (linksBelow (change root)) = _
    rw [List.flatMap_map]
    refine List.flatMap_congr fun child there => linksBelow_mapNodes fun node member => ?_
    exact keeps.2 node (List.mem_flatMap.mpr ⟨child, there, member⟩)

end ParallelLoop.PlanTree
