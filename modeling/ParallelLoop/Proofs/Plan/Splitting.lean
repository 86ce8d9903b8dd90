/-
# Whether a split is exact

A split puts one node below the node of a loop and one block below its block. The rows of a plan,
what each node and each block holds, show that nothing else changes: `LoopAt.IsDivided` names the
four rows in question, and all others are as they were.

A loop between constants is split exactly. What it took before are the values that the loops
within its chunks take one after the other. For a loop whose end depends on another variable this
is not so. The last chunk is cut off at the limit of the end, which is known beforehand, and not at
the end as it is in the scope, which need not be as large. Such a loop is there after every split:
the inner loop, whose own chunks may go beyond the chunk that it stands for.
-/

import Mathlib.Algebra.Order.Floor.Div
import ParallelLoop.Proofs.Plan.ChunkedValues
import ParallelLoop.Proofs.Plan.Division
import ParallelLoop.Proofs.Plan.Drift

namespace ParallelLoop

namespace PlanTree

variable {tree : PlanTree} {root fresh : PlanNode} {children : List PlanTree}
  {change : PlanNode → PlanNode} {id other : NodeId}

/-- The record of a node, and the ids of the nodes right below it. -/
def row? (tree : PlanTree) (id : NodeId) : Option (PlanNode × List NodeId) :=
  (tree.find? id).map fun subtree => (subtree.root, subtree.children.map PlanTree.id)

theorem row?_node (root : PlanNode) (children : List PlanTree) (id : NodeId) :
    (node root children).row? id =
      if root.id = id then some (root, children.map PlanTree.id)
      else children.findSome? fun child => child.row? id := by
  have below : (node root children).find? id = if root.id = id then some (node root children)
      else children.findSome? fun child => child.find? id := by
    unfold find?
    rw [subtrees_node, List.find?_cons, subtreesAll_eq_flatMap, List.find?_flatMap]
    by_cases here : root.id = id
    · rw [if_pos here, beq_iff_eq.mpr (show (node root children).id = id from here)]
    · rw [if_neg here, beq_eq_false_iff_ne.mpr (show (node root children).id ≠ id from here)]
  rw [row?, below]
  split
  next => rfl
  next => exact List.map_findSome?

theorem node?_of_row? {below : List NodeId} (row : tree.row? id = some (root, below)) :
    tree.node? id = some root := by
  obtain ⟨subtree, found, read⟩ := Option.map_eq_some_iff.mp row
  rw [node?, found, Option.map_some, (Prod.mk.inj read).1]

/-- Rebuilds a node with a new one between it and the nodes below it. -/
def wedge (fresh : PlanNode) (change : PlanNode → PlanNode) (root : PlanNode)
    (children : List PlanTree) : PlanTree := node (change root) [node fresh children]

/-- Adding a node below another one and changing the record of that one is one rebuilding. -/
theorem update_insertBelow (tree : PlanTree) (id : NodeId) (fresh : PlanNode)
    (change : PlanNode → PlanNode) :
    (tree.insertBelow id fresh).update id change = tree.alter id (wedge fresh change) := by
  unfold insertBelow update
  induction tree using induction with
  | node root children ih =>
    by_cases here : root.id = id
    · rw [alter, if_pos here, alter, if_pos here, alter, if_pos here]
      rfl
    · rw [alter, if_neg here, alter, if_neg here, alter, if_neg here]
      simp only [alterAll_eq_map, List.map_map]
      congr 1
      exact List.map_congr_left ih

theorem id_wedge (keeps : ∀ node, (change node).id = node.id) (tree : PlanTree) :
    (tree.alter id (wedge fresh change)).id = tree.id := by
  cases tree with
  | node root children =>
    unfold alter
    split
    next => exact keeps root
    next => rfl

/-- The rows of a node that was rebuilt, of the new one, and of the others. -/
theorem row?_wedge (keeps : (change root).id = root.id) (other : NodeId) :
    (wedge fresh change root children).row? other =
      if other = root.id then some (change root, [fresh.id])
      else if other = fresh.id then some (fresh, children.map PlanTree.id)
      else (node root children).row? other := by
  rw [wedge, row?_node, keeps]
  by_cases own : other = root.id
  · rw [if_pos own, if_pos own.symm]
    rfl
  · rw [if_neg own, if_neg (Ne.symm own), List.findSome?_singleton, row?_node]
    by_cases new : other = fresh.id
    · rw [if_pos new, if_pos new.symm]
    · rw [if_neg new, if_neg (Ne.symm new), row?_node, if_neg (Ne.symm own)]

/-- The rows of a tree in which a node was rebuilt: that of the node, that of the new one, and all
others as they were. -/
theorem row?_alter_wedge (tree : PlanTree) (id : NodeId)
    (keeps : ∀ node, (change node).id = node.id) (absent : fresh.id ∉ tree.ids) (other : NodeId) :
    (tree.alter id (wedge fresh change)).row? other =
      if other = id then (tree.row? id).map fun row => (change row.1, [fresh.id])
      else if other = fresh.id then (tree.row? id).map fun row => (fresh, row.2)
      else tree.row? other := by
  induction tree using induction with
  | node root children ih =>
    by_cases here : root.id = id
    · have top : (node root children).row? id = some (root, children.map PlanTree.id) := by
        rw [row?_node, if_pos here]
      rw [alter, if_pos here, row?_wedge (keeps root), here, top]
      rfl
    · rw [ids_node, List.mem_cons, not_or] at absent
      obtain ⟨notRoot, notBelow⟩ := absent
      have ids : (children.map (alter id (wedge fresh change))).map PlanTree.id =
          children.map PlanTree.id := by
        rw [List.map_map]
        exact List.map_congr_left fun child _ => id_wedge keeps child
      have below (child : PlanTree) (there : child ∈ children) :=
        ih child there fun inside => notBelow (List.mem_flatMap.mpr ⟨child, there, inside⟩)
      rw [alter, if_neg here, alterAll_eq_map, row?_node, row?_node, ids, List.findSome?_map,
        if_neg here, row?_node]
      -- Each of the three rows is looked up in the same child as before.
      by_cases own : other = id
      · rw [if_pos own, if_neg (own ▸ here), List.map_findSome?]
        exact findSome?_congr fun child there => (below child there).trans (if_pos own)
      · by_cases new : other = fresh.id
        · rw [if_neg own, if_pos new, if_neg (new ▸ Ne.symm notRoot), List.map_findSome?]
          exact findSome?_congr fun child there =>
            (below child there).trans ((if_neg own).trans (if_pos new))
        · have others := findSome?_congr fun child there =>
            (below child there).trans ((if_neg own).trans (if_neg new))
          rw [if_neg own, if_neg new]
          exact congrArg (fun found => if root.id = other then some _ else found) others

end PlanTree

namespace LoopBounds

/-! ## Loops between constants -/

variable {bounds : LoopBounds} {first last : Int} {chunk count : Nat}

section Constant

variable (first_eq : bounds.first = .const first) (last_eq : bounds.last = .const last)
  (counted : iterationCount first last bounds.step = .ok count) (positive : 1 ≤ chunk)
include first_eq last_eq counted positive

/-- As many chunks are counted as it takes for all iterations. -/
theorem constantTripCount?_chunks (var : String) :
    (bounds.chunks var (.plain chunk bounds.step)).constantTripCount? =
      .ok (some (divideUp count chunk)) := by
  have forward := step_pos_of_iterationCount counted
  have wide : 0 < (chunk : Int) * bounds.step := mul_pos (Int.natCast_pos.mpr positive) forward
  have chunks : (loopValues first last (chunk * bounds.step)).length = divideUp count chunk := by
    rw [length_loopValues_chunks forward positive, length_loopValues_of_iterationCount counted]
  have few : divideUp count chunk ≤ Word.maxCount :=
    (divideUp_le positive).trans (le_maxCount_of_iterationCount counted)
  have outer : (bounds.chunks var (.plain chunk bounds.step)).constantTripCount? =
      (iterationCount first last (chunk * bounds.step)).map some :=
    constantTripCount?_eq first_eq last_eq
  rw [outer, iterationCount_eq_length wide (chunks ▸ few), chunks]
  rfl

/-- In every scope the runs within the chunks give the values of the loop. -/
theorem exists_runs (first_word : Word.InSigned first) (last_word : Word.InSigned last)
    (var : String) (scope : Scope) :
    ∃ runs, (bounds.withinChunk var (.plain chunk bounds.step)).valuesWithin
        (bounds.chunks var (.plain chunk bounds.step)) scope = .ok runs ∧
      bounds.values scope = .ok runs.flatten ∧
      ∀ run ∈ runs, 1 ≤ run.length ∧ run.length ≤ min chunk count := by
  have forward := step_pos_of_iterationCount counted
  have length := length_loopValues_of_iterationCount counted
  have words : bounds.IsWord := by
    constructor
    · rw [first_eq]
      exact first_word
    · rw [last_eq]
      exact last_word
  have resolved : bounds.resolve scope = .ok (first, last) := by
    rw [resolve, first_eq, last_eq]
    rfl
  -- The limit of the end is the end, so nothing comes next below it.
  have limit_eq : bounds.limit? = some last := by rw [limit?, last_eq]
  have beyond : last < first + (loopValues first last bounds.step).length * bounds.step := by
    rw [← Int.not_le, ← lt_length_loopValues_iff forward]
    exact Nat.lt_irrefl _
  obtain ⟨runs, done, same⟩ :=
    (splitsInto_iff words resolved positive var).mpr (.inr ⟨last, limit_eq, beyond⟩)
  refine ⟨runs, done, same, fun run there => ?_⟩
  have total := (List.sublist_flatten_of_mem there).length_le
  rw [← Except.ok.inj ((values_eq resolved).symm.trans same), length] at total
  obtain ⟨more, most⟩ := length_of_valuesWithin words resolved positive forward done run there
  exact ⟨more, le_min most total⟩

end Constant

end LoopBounds

namespace Plan

open Word (InSigned maxSigned minSigned)

variable {α : Type} {plan after : Plan α} {id inner : NodeId} {chunk count : Nat} {var : String}
  {scope : Scope} {first last : Int}

theorem id_outerNode (count chunk : Nat) (node : PlanNode) :
    (outerNode count chunk node).id = node.id := rfl

/-- A loop of a plan: its node, the nodes right below it, and its block. -/
structure LoopAt (plan : Plan α) (id : NodeId) where
  node : PlanNode
  below : List NodeId
  top : BlockId
  block : Block α
  bounds : LoopBounds
  settings : ParallelSettings α
  row_eq : plan.tree.row? id = some (node, below)
  top_eq : node.block = some top
  block_eq : plan.program.block top = .ok block
  bounds_eq : block.bounds = some bounds
  settings_eq : block.settings = some settings

namespace LoopAt

variable (loop : plan.LoopAt id)

/-- The bounds of the loop over the chunks. -/
def outer (chunk : Nat) (var : String) : LoopBounds :=
  loop.bounds.chunks var (.plain chunk loop.bounds.step)

/-- The bounds of the loop within a chunk. -/
def within (chunk : Nat) (var : String) : LoopBounds :=
  loop.bounds.withinChunk var (.plain chunk loop.bounds.step)

/-- The block of the loop within a chunk. It has the body, and all that is decided about the loop
but where it runs. -/
def innerBlock (chunk : Nat) (var : String) : Block α :=
  .parallel (loop.within chunk var) { loop.settings with mode := .inProcess } loop.block.children

/-- The plan in which the loop, of so many iterations, is split into chunks. -/
def divided (count chunk : Nat) (var : String) : Plan α where
  tree := plan.tree.alter id (PlanTree.wedge (plan.innerNode chunk) (outerNode count chunk))
  program := (plan.program.addBlock (loop.innerBlock chunk var)).modifyBlock loop.top
    (plan.outerBlock (loop.outer chunk var))

theorem node?_eq : plan.tree.node? id = some loop.node := PlanTree.node?_of_row? loop.row_eq

theorem node_eq : plan.node id = .ok loop.node := by
  rw [Plan.node, loop.node?_eq]

theorem blockOf_eq : plan.blockOf id = .ok loop.top := by
  rw [blockOf, loop.node?_eq, Option.bind_some, loop.top_eq]

theorem read_eq : plan.settings id = .ok loop.settings := by
  rw [Plan.settings, loop.blockOf_eq, Outcome.ok_bind, loop.block_eq, Outcome.ok_bind,
    loop.settings_eq]
  rfl

/-- A loop with a count is split when the steps of the two loops are found. -/
theorem result_splitLoop (recorded : loop.node.tripCount = .ok count) (positive : 1 ≤ chunk)
    (steps_eq : ChunkSteps.ofChunk chunk loop.bounds.step = .ok (.plain chunk loop.bounds.step))
    (var : String) :
    (splitLoop id chunk var).result plan =
      (.ok plan.tree.freshId, loop.divided count chunk var) := by
  have tree_eq := plan.tree.update_insertBelow id (plan.innerNode chunk) (outerNode count chunk)
  have positive_eq := Nat.max_eq_left positive
  rw [← positive_eq] at steps_eq
  have done := Plan.result_splitLoop loop.blockOf_eq loop.block_eq loop.node_eq recorded
    loop.bounds_eq loop.read_eq steps_eq var
  rw [positive_eq, tree_eq] at done
  exact done

/-- A loop with a count is split into chunks whose step is a signed word, at least one iteration
each. -/
theorem result_splitLoop_of_le (recorded : loop.node.tripCount = .ok count)
    (forward : 0 < loop.bounds.step)
    (fits : (max chunk 1 : Nat) * loop.bounds.step ≤ maxSigned) (var : String) :
    (splitLoop id chunk var).result plan =
      (.ok plan.tree.freshId, loop.divided count (max chunk 1) var) := by
  have positive := Nat.le_max_right chunk 1
  have wide : 0 < ((max chunk 1 : Nat) : Int) * loop.bounds.step :=
    mul_pos (Int.natCast_pos.mpr positive) forward
  have word : InSigned ((max chunk 1 : Nat) * loop.bounds.step) := by
    unfold InSigned minSigned
    omega
  have done := loop.result_splitLoop recorded positive
    (ChunkSteps.ofChunk_eq forward positive word) var
  rwa [splitLoop_max] at done

/-- A split leaves what it has to leave: the two loops, and all else as it was. -/
structure IsDivided (loop : plan.LoopAt id) (count chunk : Nat) (var : String) (after : Plan α) :
    Prop where
  root : after.tree.id = plan.tree.id
  rows (other : NodeId) : after.tree.row? other =
    if other = id then some (outerNode count chunk loop.node, [plan.tree.freshId])
    else if other = plan.tree.freshId then some (plan.innerNode chunk, loop.below)
    else plan.tree.row? other
  blocks (other : BlockId) : after.program.block other =
    if other = loop.top then .ok (plan.outerBlock (loop.outer chunk var) loop.block)
    else if other = plan.program.nextBlock then .ok (loop.innerBlock chunk var)
    else plan.program.block other
  hops : after.program.hops = plan.program.hops

theorem isDivided_divided (numbered : plan.tree.IsNumbered) (count chunk : Nat) (var : String) :
    loop.IsDivided count chunk var (loop.divided count chunk var) where
  root := PlanTree.id_wedge (id_outerNode count chunk) plan.tree
  rows other := by
    have fresh : (plan.innerNode chunk).id ∉ plan.tree.ids := numbered.freshId_not_mem
    have rows := plan.tree.row?_alter_wedge id (id_outerNode count chunk) fresh other
    rw [loop.row_eq] at rows
    exact rows
  blocks := Program.block_addBlock_modifyBlock loop.block_eq _
  hops := rfl

/-- A split of a loop that succeeds leaves this plan. -/
theorem of_splitLoop (positive : 1 ≤ chunk) (fits : InSigned (chunk * loop.bounds.step))
    (done : (splitLoop id chunk var).result plan = (.ok inner, after)) :
    inner = plan.tree.freshId ∧ ∃ count, loop.node.tripCount = .ok count ∧
      after = loop.divided count chunk var := by
  obtain ⟨blockId, block, node, count, bounds, settings, steps, bound, held, found, counted,
    bounds_eq, -, steps_eq, -, -⟩ := Plan.of_splitLoop done
  obtain rfl := Except.ok.inj (loop.blockOf_eq.symm.trans bound)
  obtain rfl := Except.ok.inj (loop.block_eq.symm.trans held)
  obtain rfl := Except.ok.inj (loop.node_eq.symm.trans found)
  obtain rfl := Option.some.inj (loop.bounds_eq.symm.trans bounds_eq)
  rw [Nat.max_eq_left positive] at steps_eq
  obtain rfl := ChunkSteps.of_ofChunk fits steps_eq
  rw [loop.result_splitLoop counted positive steps_eq, Prod.mk.injEq] at done
  exact ⟨(Except.ok.inj done.1).symm, count, counted, done.2.symm⟩

/-! ### The bounds of the two loops -/

theorem bounds?_of_row? {node : PlanNode} {below : List NodeId} {top : BlockId} {block : Block α}
    (row : plan.tree.row? id = some (node, below)) (bound : node.block = some top)
    (held : plan.program.block top = .ok block) : plan.bounds? id = block.bounds := by
  rw [bounds?, block?_of_node? (PlanTree.node?_of_row? row) bound held, Option.bind_some]

theorem IsDivided.bounds?_outer {loop : plan.LoopAt id}
    (divided : loop.IsDivided count chunk var after) :
    after.bounds? id = some (loop.outer chunk var) := by
  have row := (divided.rows id).trans (if_pos rfl)
  exact bounds?_of_row? row loop.top_eq ((divided.blocks loop.top).trans (if_pos rfl))

theorem IsDivided.bounds?_inner {loop : plan.LoopAt id}
    (divided : loop.IsDivided count chunk var after) (numbered : plan.tree.IsNumbered) :
    after.bounds? plan.tree.freshId = some (loop.within chunk var) := by
  have newNode : plan.tree.freshId ≠ id := by
    intro same
    exact numbered.freshId_not_mem (same ▸ mem_ids_of_node loop.node_eq)
  have newBlock : plan.program.nextBlock ≠ loop.top :=
    (Program.ne_nextBlock (Program.index_lt_of_kind? (Program.kind?_of_block loop.block_eq))).symm
  have row := (divided.rows plan.tree.freshId).trans ((if_neg newNode).trans (if_pos rfl))
  exact bounds?_of_row? row rfl
    ((divided.blocks plan.program.nextBlock).trans ((if_neg newBlock).trans (if_pos rfl)))

/-- A split of a loop, of so many iterations, that is exact in every scope. The loops over the
chunks and within them take the values of the loop, no run is empty or longer than a chunk, and
the count that the node of the outer loop records is that of its bounds. -/
structure IsExact (loop : plan.LoopAt id) (count chunk : Nat) (var : String) (after : Plan α) : Prop
    extends loop.IsDivided count chunk var after where
  runs (scope : Scope) : ∃ runs,
    (loop.within chunk var).valuesWithin (loop.outer chunk var) scope = .ok runs ∧
      loop.bounds.values scope = .ok runs.flatten ∧
      ∀ run ∈ runs, 1 ≤ run.length ∧ run.length ≤ min chunk count
  outerCount : (loop.outer chunk var).constantTripCount? = .ok (some (count ⌈/⌉ chunk))
  outerRecorded : (outerNode count chunk loop.node).tripCount = .ok (count ⌈/⌉ chunk)

end LoopAt

/-- Splitting a loop between constants is exact, and the new node and the new block get words as ids
if there are any left. -/
theorem LoopAt.splitLoop_isExact (loop : plan.LoopAt id) (numbered : plan.tree.IsNumbered)
    (room : plan.HasRoom) (first_eq : loop.bounds.first = .const first)
    (last_eq : loop.bounds.last = .const last) (first_word : InSigned first)
    (last_word : InSigned last)
    (counted : iterationCount first last loop.bounds.step = .ok count)
    (recorded : loop.node.tripCount = .ok count) (positive : 1 ≤ chunk)
    (fits : chunk * loop.bounds.step ≤ maxSigned) (var : String) :
    ∃ after, (splitLoop id chunk var).result plan = (.ok plan.tree.freshId, after) ∧
      loop.IsExact count chunk var after ∧ plan.GivesWords := by
  have forward := step_pos_of_iterationCount counted
  have word : InSigned (chunk * loop.bounds.step) := by
    have wide : 0 < (chunk : Int) * loop.bounds.step :=
      mul_pos (Int.natCast_pos.mpr positive) forward
    unfold InSigned minSigned
    omega
  have steps_eq := ChunkSteps.ofChunk_eq forward positive word
  have few : divideUp count chunk ≤ Word.maxCount :=
    (divideUp_le positive).trans (le_maxCount_of_iterationCount counted)
  refine ⟨_, loop.result_splitLoop recorded positive steps_eq var, ?_, room.givesWords⟩
  exact {
    toIsDivided := loop.isDivided_divided numbered count chunk var
    runs := LoopBounds.exists_runs first_eq last_eq counted positive first_word last_word var
    outerCount := LoopBounds.constantTripCount?_chunks first_eq last_eq counted positive var
    outerRecorded := PlanNode.tripCount_eq few rfl }

/-- The only loop of `tenTimes`. -/
def loopTenTimes : tenTimes.LoopAt ⟨0⟩ where
  node := tenTimes.tree.root
  below := []
  top := ⟨0⟩
  block := .parallel { var := "i", first := .const 1, last := .const 10, step := 1 } .undecided []
  bounds := { var := "i", first := .const 1, last := .const 10, step := 1 }
  settings := .undecided
  row_eq := rfl
  top_eq := rfl
  block_eq := rfl
  bounds_eq := rfl
  settings_eq := rfl

/-- The loop from one to ten in chunks of four, the last of which has two iterations. -/
theorem splitLoop_isExact_tenTimes : ∃ after,
    (splitLoop ⟨0⟩ 4 "p").result tenTimes = (.ok tenTimes.tree.freshId, after) ∧
      loopTenTimes.IsExact 10 4 "p" after ∧ tenTimes.GivesWords := by
  have counted : iterationCount 1 10 1 = .ok 10 := by decide
  have room : tenTimes.HasRoom := ⟨by decide, by decide⟩
  exact loopTenTimes.splitLoop_isExact isNumbered_tenTimes room rfl rfl (by decide) (by decide)
    counted (PlanNode.tripCount_eq (by decide) rfl) (by decide) (by decide) "p"

/-- A split of any loop, in a scope in which its bounds have values, is exact if the chunks come out
even, or the limit that cuts off the last chunk is below what would come next; else it is not. -/
theorem LoopAt.splitLoop_splitsInto_iff (loop : plan.LoopAt id) (numbered : plan.tree.IsNumbered)
    (words : loop.bounds.IsWord) (positive : 1 ≤ chunk) (fits : InSigned (chunk * loop.bounds.step))
    (done : (splitLoop id chunk var).result plan = (.ok inner, after))
    (resolved : loop.bounds.resolve scope = .ok (first, last)) :
    ∃ outer within, after.bounds? id = some outer ∧ after.bounds? inner = some within ∧
      (loop.bounds.SplitsInto outer within scope ↔
        chunk ∣ (loopValues first last loop.bounds.step).length ∨
          ∃ limit, loop.bounds.limit? = some limit ∧ limit <
            first + (loopValues first last loop.bounds.step).length * loop.bounds.step) := by
  obtain ⟨rfl, count, -, rfl⟩ := loop.of_splitLoop positive fits done
  have divided := loop.isDivided_divided numbered count chunk var
  refine ⟨_, _, divided.bounds?_outer, divided.bounds?_inner numbered, ?_⟩
  exact LoopBounds.splitsInto_iff words resolved positive var

/-- The loop from one to ten in chunks of four. -/
def tenTimesInFours : Plan Rat := loopTenTimes.divided 10 4 "p"

/-- The loop within a chunk of four. -/
def loopWithinFour : tenTimesInFours.LoopAt ⟨1⟩ where
  node := tenTimes.innerNode 4
  below := []
  top := ⟨1⟩
  block := loopTenTimes.innerBlock 4 "p"
  bounds := loopTenTimes.within 4 "p"
  settings := { ParallelSettings.undecided with mode := .inProcess }
  row_eq := by decide +kernel
  top_eq := rfl
  block_eq := rfl
  bounds_eq := rfl
  settings_eq := rfl

theorem result_splitLoop_tenTimes :
    (splitLoop ⟨0⟩ 4 "p").result tenTimes = (.ok ⟨1⟩, tenTimesInFours) :=
  loopTenTimes.result_splitLoop (PlanNode.tripCount_eq (by decide) rfl) (by decide)
    (ChunkSteps.ofChunk_eq (by decide) (by decide) (by decide)) "p"

theorem isNumbered_tenTimesInFours : tenTimesInFours.tree.IsNumbered :=
  ⟨by decide +kernel, by decide +kernel⟩

theorem isWord_loopWithinFour : loopWithinFour.bounds.IsWord where
  first := nofun
  last := by
    rintro most ⟨⟩
    decide

theorem result_splitLoop_loopWithinFour {chunk : Nat} (positive : 1 ≤ chunk)
    (fits : InSigned (chunk * loopWithinFour.bounds.step)) :
    (splitLoop ⟨1⟩ chunk "q").result tenTimesInFours =
      (.ok ⟨2⟩, loopWithinFour.divided 4 chunk "q") :=
  loopWithinFour.result_splitLoop (PlanNode.tripCount_eq (by decide) rfl) positive
    (ChunkSteps.ofChunk_eq (by decide) positive fits) "q"

theorem loopValues_one_four : loopValues 1 4 1 = [1, 2, 3, 4] := by
  simp [loopValues_cons, loopValues_of_lt]

/-- The first chunk of four can be split into chunks of two. -/
theorem splitLoop_splitsInto_iff_loopWithinFour : ∃ after outer within,
    (splitLoop ⟨1⟩ 2 "q").result tenTimesInFours = (.ok ⟨2⟩, after) ∧
      after.bounds? ⟨1⟩ = some outer ∧ after.bounds? ⟨2⟩ = some within ∧
      loopWithinFour.bounds.SplitsInto outer within [("p", 1)] := by
  have fits : InSigned ((2 : Nat) * loopWithinFour.bounds.step) := by decide
  have done := result_splitLoop_loopWithinFour (by decide) fits
  have entered : loopWithinFour.bounds.resolve [("p", 1)] = .ok (1, 4) := rfl
  obtain ⟨outer, within, outer_eq, within_eq, splits⟩ :=
    loopWithinFour.splitLoop_splitsInto_iff isNumbered_tenTimesInFours isWord_loopWithinFour
      (by decide) fits done entered
  have even : 2 ∣ (loopValues 1 4 1).length := by
    rw [loopValues_one_four]
    decide
  exact ⟨_, outer, within, done, outer_eq, within_eq, splits.mpr (.inl even)⟩

/-- Into chunks of eight it cannot: it has the values from one to four, but what it is split into
goes on to eight, through all values of the next chunk. -/
theorem not_splitsInto_loopWithinFour : ∃ after outer within,
    (splitLoop ⟨0⟩ 4 "p").result tenTimes = (.ok ⟨1⟩, tenTimesInFours) ∧
      (splitLoop ⟨1⟩ 8 "q").result tenTimesInFours = (.ok ⟨2⟩, after) ∧
      after.bounds? ⟨1⟩ = some outer ∧ after.bounds? ⟨2⟩ = some within ∧
      loopWithinFour.bounds.last = .relative "p" 3 (some 10) ∧
      loopWithinFour.bounds.values [("p", 1)] = .ok [1, 2, 3, 4] ∧
      within.valuesWithin outer [("p", 1)] = .ok [[1, 2, 3, 4, 5, 6, 7, 8]] ∧
      ¬ loopWithinFour.bounds.SplitsInto outer within [("p", 1)] := by
  have divided := loopWithinFour.isDivided_divided isNumbered_tenTimesInFours 4 8 "q"
  have one : loopValues 1 4 8 = [1] := by simp [loopValues_cons, loopValues_of_lt]
  have eight : loopValues 1 8 1 = [1, 2, 3, 4, 5, 6, 7, 8] := by
    simp [loopValues_cons, loopValues_of_lt]
  have entered : loopWithinFour.bounds.resolve [("p", 1)] = .ok (1, 4) := rfl
  have starting : (loopWithinFour.outer 8 "q").resolve [("p", 1)] = .ok (1, 4) := rfl
  have within : (loopWithinFour.within 8 "q").resolve [("q", 1), ("p", 1)] = .ok (1, 8) := rfl
  have before : loopWithinFour.bounds.values [("p", 1)] = .ok [1, 2, 3, 4] :=
    (LoopBounds.values_eq entered).trans (congrArg _ loopValues_one_four)
  have starts : (loopWithinFour.outer 8 "q").values [("p", 1)] = .ok [1] :=
    (LoopBounds.values_eq starting).trans (congrArg _ one)
  have run : (loopWithinFour.within 8 "q").values [("q", 1), ("p", 1)] =
      .ok [1, 2, 3, 4, 5, 6, 7, 8] := (LoopBounds.values_eq within).trans (congrArg _ eight)
  have taken : (loopWithinFour.within 8 "q").valuesWithin (loopWithinFour.outer 8 "q") [("p", 1)] =
      .ok [[1, 2, 3, 4, 5, 6, 7, 8]] := by
    rw [LoopBounds.valuesWithin, starts]
    exact Outcome.mapM_cons_eq_ok_iff.mpr ⟨_, [], run, List.mapM_nil, rfl⟩
  have done := result_splitLoop_loopWithinFour (show 1 ≤ 8 by decide) (by decide)
  refine ⟨_, _, _, result_splitLoop_tenTimes, done, divided.bounds?_outer,
    divided.bounds?_inner isNumbered_tenTimesInFours, rfl, before, taken, ?_⟩
  rintro ⟨runs, done, same⟩
  obtain rfl := Except.ok.inj (taken.symm.trans done)
  cases before.symm.trans same

end Plan

end ParallelLoop
