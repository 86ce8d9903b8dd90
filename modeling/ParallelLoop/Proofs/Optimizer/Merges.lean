/-
# Results at every depth

The seventh rule decides for every parallel loop, however deep, how its results are put together. It
goes by the operators in the subtree of this loop and by the matrices that this loop writes
(`IsMergeOf`), so a node elsewhere in the plan plays no part in it. The decision is recorded in the
node of the loop and in its block.

Nothing keeps two loops from standing for one block. Such a block has room for one decision, and
keeps that of the last of its loops, in the order of the tree. For a loop that has its block for
itself both records agree.
-/

import ParallelLoop.Proofs.Optimizer.Executing
import ParallelLoop.Proofs.Optimizer.Rearranging
import ParallelLoop.Proofs.Plan.Operations

namespace ParallelLoop

variable {α : Type}

/-- The blocks after one of them was changed. -/
theorem Program.block_modifyBlock (program : Program α) (id : BlockId) (change : Block α → Block α)
    (other : BlockId) :
    (program.modifyBlock id change).block other =
      if other = id then (program.block other).map change else program.block other := by
  unfold Program.block
  rw [getElem?_modifyBlock]
  by_cases here : other = id
  · rw [if_pos here, if_pos here, here]
    cases program.blocks[id.index]? <;> rfl
  · rw [if_neg here, if_neg here]

/-- The block of a loop about which this is decided. -/
def Block.mergedBy (merge : ResultMerge) (block : Block α) : Block α :=
  { block with settings := block.settings.map fun settings =>
      { settings with resultMerge := merge } }

namespace PlanningRule

variable {context : PassContext α} {plan mid after : Plan α} {loop : PlanTree}
  {resultVars : List String}

/-! ## The decision about one loop -/

/-- A distributed operator in the loop, with nothing below it, writes one of these matrices. -/
def WritesElsewhere (plan : Plan α) (resultVars : List String) (loop : PlanTree) : Prop :=
  ∃ tree ∈ loop.subtrees, tree.isLeaf = true ∧ tree.root.kind = .hop ∧
    tree.root.placement = .remote ∧ tree.root.param? .opString = some leftIndexing ∧
    ∃ hop name, plan.readHop tree.id = .ok hop ∧ hop.inputName? 0 = some name ∧ name ∈ resultVars

/-- Cell files may be copied together, and all these matrices are live, in a cell format and without
nonzero cells. -/
def CopiesSuffice (context : PassContext α) (resultVars : List String) : Prop :=
  context.settings.copyCellFiles = true ∧ ∀ name ∈ resultVars, ∃ matrix,
    context.vars.get? name = some matrix ∧ matrix.format ≠ .binaryBlock ∧ matrix.nonzeros = 0

/-- The results of the loop are put together in this way: by a distributed job if a distributed
operator in the loop writes one of them and copies do not suffice, and otherwise locally. -/
def IsMergeOf (context : PassContext α) (plan : Plan α) (loop : PlanTree) (merge : ResultMerge) :
    Prop :=
  ∃ settings, plan.settings loop.id = .ok settings ∧
    ((WritesElsewhere plan settings.resultVars loop ∧
        ¬ CopiesSuffice context settings.resultVars) ∧ merge = .remote ∨
      ¬ (WritesElsewhere plan settings.resultVars loop ∧
        ¬ CopiesSuffice context settings.resultVars) ∧ merge = .localAutomatic)

theorem IsMergeOf.unique {first second : ResultMerge} (one : IsMergeOf context plan loop first)
    (other : IsMergeOf context plan loop second) : first = second := by
  obtain ⟨settings, read, cases⟩ := one
  obtain ⟨twin, alsoRead, alsoCases⟩ := other
  obtain rfl := Except.ok.inj (read.symm.trans alsoRead)
  rcases cases with ⟨remote, rfl⟩ | ⟨here, rfl⟩ <;>
    rcases alsoCases with ⟨alsoRemote, rfl⟩ | ⟨alsoHere, rfl⟩
  · rfl
  · exact absurd remote alsoHere
  · exact absurd alsoRemote here
  · rfl

theorem copiesSuffice_iff :
    (context.settings.copyCellFiles && allEmptyCells context.vars resultVars) = true ↔
      CopiesSuffice context resultVars := by
  simp [allEmptyCells, CopiesSuffice, Option.any_eq_true]

theorem writesRemotely_iff {trees : List PlanTree} {remote : Bool}
    (done : (writesRemotely resultVars trees).result plan = (.ok remote, plan)) :
    remote = true ↔ ∃ tree ∈ trees, isOperator leftIndexing tree = true ∧
      tree.root.placement = .remote ∧ ∃ hop name, plan.readHop tree.id = .ok hop ∧
        hop.inputName? 0 = some name ∧ name ∈ resultVars := by
  induction trees with
  | nil =>
    cases done
    simp
  | cons tree rest ih =>
    rw [List.exists_mem_cons_iff]
    unfold writesRemotely at done
    split at done
    next operator =>
      obtain ⟨hop, read, chosen⟩ := Plan.of_readHop_bind done
      -- An operator has one record, so what it writes is what that record says.
      have own : (∃ twin name, plan.readHop tree.id = .ok twin ∧
          twin.inputName? 0 = some name ∧ name ∈ resultVars) ↔
            (hop.inputName? 0).any resultVars.contains = true := by
        simp [read, Option.any_eq_true]
      simp only [operator, true_and, own]
      split at chosen
      next writes =>
        cases chosen
        simp [writes]
      next elsewhere => simp [elsewhere, ih chosen]
    next other =>
      rw [ih done, or_iff_right]
      rintro ⟨operator, elsewhere, -⟩
      exact other ⟨operator, elsewhere⟩

theorem isMergeOf_mergeFor {settings : ParallelSettings α} {remote : Bool}
    (read : plan.settings loop.id = .ok settings)
    (writes : (writesRemotely settings.resultVars loop.operators).result plan =
      (.ok remote, plan)) :
    IsMergeOf context plan loop (mergeFor context settings.resultVars remote) := by
  have remote_iff : remote = true ↔ WritesElsewhere plan settings.resultVars loop := by
    rw [PlanTree.operators, writesRemotely_filter] at writes
    rw [writesRemotely_iff writes, WritesElsewhere]
    simp only [isOperator, Bool.and_eq_true, beq_iff_eq]
    grind
  refine ⟨settings, read, ?_⟩
  rw [← remote_iff, ← copiesSuffice_iff, mergeFor]
  cases remote with
  | false => simp
  | true => by_cases copies : (context.settings.copyCellFiles &&
      allEmptyCells context.vars settings.resultVars) = true <;> simp [copies]

/-! ## One loop after the other -/

section

variable {merge : ResultMerge} {id : NodeId}
  (set : (Plan.setResultMerge id merge).result plan = (.ok (), after))

include set

theorem blockOf_setResultMerge : after.blockOf = plan.blockOf := by
  obtain ⟨_, _, -, -, tree_eq, -⟩ := Plan.of_decision set
  funext other
  unfold Plan.blockOf
  rw [tree_eq, PlanTree.bind_node?_update (fun _ => by rfl) fun _ => by rfl]

theorem readHop_setResultMerge (other : NodeId) : after.readHop other = plan.readHop other := by
  obtain ⟨_, _, -, -, tree_eq, program_eq⟩ := Plan.of_decision set
  unfold Plan.readHop Plan.hopOf
  rw [tree_eq, PlanTree.bind_node?_update (fun _ => by rfl) fun _ => by rfl, program_eq]
  rfl

theorem resultVars_setResultMerge (other : NodeId) :
    (after.settings? other).map ParallelSettings.resultVars =
      (plan.settings? other).map ParallelSettings.resultVars := by
  have blind : Change.Preserves (Plan.decided .matrices) (Plan.setResultMerge (α := α) id merge) :=
    Plan.preserves_decided ⟨fun _ => rfl, fun _ => rfl⟩ (fun _ => rfl) fun _ => rfl
  have shown := congrArg (fun shown => (shown other).2.map Prod.fst) (blind.of_result set)
  simpa only [Plan.decided, Option.map_map, Function.comp_def] using shown

end

/-- What a decision about a loop goes by is the same in another plan. -/
theorem IsMergeOf.congr {merge : ResultMerge} (decides : IsMergeOf context mid loop merge)
    (reads : ∀ tree ∈ loop.subtrees, mid.readHop tree.id = plan.readHop tree.id)
    (matrices : (mid.settings? loop.id).map ParallelSettings.resultVars =
      (plan.settings? loop.id).map ParallelSettings.resultVars) :
    IsMergeOf context plan loop merge := by
  obtain ⟨settings, read, cases⟩ := decides
  rw [Plan.settings_eq_ok_iff.mp read] at matrices
  obtain ⟨twin, alsoRead, same⟩ := Option.map_eq_some_iff.mp matrices.symm
  refine ⟨twin, Plan.settings_eq_ok_iff.mpr alsoRead, ?_⟩
  have writes : WritesElsewhere mid settings.resultVars loop ↔
      WritesElsewhere plan settings.resultVars loop := by
    unfold WritesElsewhere
    refine exists_congr fun tree => and_congr_right fun there => ?_
    rw [reads tree there]
  rwa [same, ← writes]

/-- The results of exactly these loops, one after the other, are put together in these ways, and
nothing else has changed. A block keeps the last decision that was made about it. -/
structure HasMerges (context : PassContext α) (loops : List PlanTree)
    (merge : NodeId → ResultMerge) (plan after : Plan α) : Prop where
  decides : ∀ loop ∈ loops, IsMergeOf context plan loop (merge loop.id)
  tree_eq : after.tree = plan.tree.mapNodes fun node =>
    if node.id ∈ loops.map PlanTree.id then node.setParam .resultMerge (merge node.id).name
    else node
  hops_eq : after.program.hops = plan.program.hops
  last : ∀ {before loop later id}, loops = before ++ loop :: later → plan.blockOf loop.id = .ok id →
    (∀ other ∈ later, plan.blockOf other.id ≠ .ok id) →
      after.program.block id = (plan.program.block id).map (Block.mergedBy (merge loop.id))
  others : ∀ {id}, (∀ loop ∈ loops, plan.blockOf loop.id ≠ .ok id) →
    after.program.block id = plan.program.block id

theorem HasMerges.nil : HasMerges context [] (fun _ => .localAutomatic) plan plan where
  decides := nofun
  tree_eq := (PlanTree.mapNodes_eq_self fun _ _ => rfl).symm
  hops_eq := rfl
  last := by simp
  others _ := rfl

/-- Another loop is decided about before these. -/
theorem HasMerges.cons {rest : List PlanTree} {merge : NodeId → ResultMerge}
    {decision : ResultMerge} (has : HasMerges context rest merge mid after)
    (distinct : plan.tree.ids.Nodup) (fresh : loop.id ∉ rest.map PlanTree.id)
    (decides : IsMergeOf context plan loop decision)
    (set : (Plan.setResultMerge loop.id decision).result plan = (.ok (), mid)) :
    HasMerges context (loop :: rest) (fun id => if id = loop.id then decision else merge id)
      plan after := by
  obtain ⟨blockId, _, bound, -, tree_eq, program_eq⟩ := Plan.of_decision set
  have blocks (id : BlockId) : mid.program.block id = if id = blockId
      then (plan.program.block id).map (Block.mergedBy decision)
      else plan.program.block id := by
    rw [program_eq]
    exact Program.block_modifyBlock ..
  have blockOf_eq := blockOf_setResultMerge set
  have apart {other : PlanTree} (there : other ∈ rest) : other.id ≠ loop.id := by
    rintro same
    exact fresh (same ▸ List.mem_map_of_mem there)
  refine { decides := ?decides, tree_eq := ?tree, hops_eq := ?hops, last := ?last
           others := ?others }
  case decides =>
    refine List.forall_mem_cons.mpr ⟨?_, fun other there => ?_⟩
    · rwa [if_pos rfl]
    · rw [if_neg (apart there)]
      exact (has.decides other there).congr (fun _ _ => readHop_setResultMerge set _)
        (resultVars_setResultMerge set _)
  case tree =>
    rw [has.tree_eq, tree_eq, PlanTree.update_eq_mapNodes distinct, PlanTree.mapNodes_mapNodes]
    congr 1
    funext node
    rw [Function.comp_apply]
    by_cases here : node.id = loop.id
    · rw [if_pos here, if_neg, if_pos, if_pos here]
      · exact here ▸ List.mem_cons_self ..
      · exact fun listed => fresh (here ▸ listed)
    · simp [here]
  case hops =>
    rw [has.hops_eq, program_eq]
    rfl
  case last =>
    -- The last loop of a block is this one, if no other one stands for it, or the last of the rest.
    intro before other others id split own none
    rw [List.cons_eq_append_iff] at split
    rcases split with ⟨rfl, same⟩ | ⟨between, rfl, same⟩
    · obtain ⟨rfl, rfl⟩ := List.cons.inj same
      obtain rfl := Except.ok.inj (bound.symm.trans own)
      rw [if_pos rfl, has.others fun later there => blockOf_eq ▸ none later there, blocks,
        if_pos rfl]
    · have there : other ∈ rest := same ▸ by simp
      rw [if_neg (apart there), has.last same (blockOf_eq ▸ own)
        fun later listed => blockOf_eq ▸ none later listed, blocks]
      split
      · cases plan.program.block id <;> simp [Except.map, Block.mergedBy, Option.map_map,
          Function.comp_def]
      · rfl
  case others =>
    intro id none
    rw [List.forall_mem_cons] at none
    have different : id ≠ blockId := by
      rintro rfl
      exact none.1 bound
    rw [has.others fun later there => blockOf_eq ▸ none.2 later there, blocks, if_neg different]

theorem hasMerges_mergeEach {loops : List PlanTree} (distinct : plan.tree.ids.Nodup)
    (once : (loops.map PlanTree.id).Nodup) (leads : (mergeEach context loops).Leads plan () after) :
    ∃ merge, HasMerges context loops merge plan after := by
  induction loops generalizing plan with
  | nil =>
    obtain ⟨-, rfl⟩ := leads.of_pure
    exact ⟨_, .nil⟩
  | cons loop rest ih =>
    rw [List.map_cons, List.nodup_cons] at once
    obtain ⟨_, mid, first, later⟩ := Pass.Leads.of_bind leads
    obtain ⟨settings, remote, found, writes, set⟩ := of_mergeResults first
    obtain ⟨_, _, -, -, tree_eq, -⟩ := Plan.of_decision set
    have stillDistinct : mid.tree.ids.Nodup := by
      rwa [tree_eq, PlanTree.ids_update fun _ => by rfl]
    obtain ⟨merge, has⟩ := ih stillDistinct once.2 later
    have decides : IsMergeOf context plan loop _ :=
      isMergeOf_mergeFor (Plan.settings_eq_ok_iff.mpr found) writes
    exact ⟨_, has.cons distinct once.1 decides set⟩

/-! ## The loops of a plan -/

/-- The results of every parallel loop are put together as its own subtree and its own matrices have
it. Its node records this, and its block what is decided about the last of the loops that stand for
this block. Nothing else has changed. -/
structure MergesEachLoop (context : PassContext α) (plan after : Plan α)
    (merge : NodeId → ResultMerge) : Prop where
  decides : ∀ loop ∈ plan.tree.loops, IsMergeOf context plan loop (merge loop.id)
  tree_eq : after.tree = plan.tree.mapNodes fun node =>
    if node.kind = .parfor then node.setParam .resultMerge (merge node.id).name else node
  hops_eq : after.program.hops = plan.program.hops
  last : ∀ {before loop later id}, plan.tree.loops = before ++ loop :: later →
    loop.root.block = some id → (∀ other ∈ later, other.root.block ≠ some id) →
      after.program.block id = (plan.program.block id).map (Block.mergedBy (merge loop.id))
  others : ∀ {id}, (∀ loop ∈ plan.tree.loops, loop.root.block ≠ some id) →
    after.program.block id = plan.program.block id

/-- No other loop stands for the block of this one. -/
def HasOwnBlock (plan : Plan α) (loop : PlanTree) : Prop :=
  ∀ other ∈ plan.tree.loops, other.root.block = loop.root.block → other.id = loop.id

instance : Decidable (HasOwnBlock plan loop) :=
  inferInstanceAs (Decidable (∀ other ∈ plan.tree.loops, _ → _))

theorem node?_of_mem_loops (distinct : plan.tree.ids.Nodup) (there : loop ∈ plan.tree.loops) :
    plan.tree.node? loop.id = some loop.root :=
  PlanTree.node?_eq_some distinct (List.mem_map_of_mem (PlanTree.mem_loops.mp there).1)

theorem blockOf_eq_ok_iff {id : BlockId} (distinct : plan.tree.ids.Nodup)
    (there : loop ∈ plan.tree.loops) :
    plan.blockOf loop.id = .ok id ↔ loop.root.block = some id := by
  unfold Plan.blockOf
  rw [node?_of_mem_loops distinct there, Option.bind_some]
  cases loop.root.block <;> simp

theorem exists_mergesEachLoop (distinct : plan.tree.ids.Nodup)
    (parallel : plan.tree.root.kind = .parfor)
    (leads : (runResultMerge context).Leads plan () after) :
    ∃ merge, MergesEachLoop context plan after merge := by
  have chain := Pass.Leads.of_plan_bind leads
  dsimp only at chain
  rw [← mergeEach_loops parallel] at chain
  obtain ⟨merge, has⟩ := hasMerges_mergeEach distinct (PlanTree.nodup_loops distinct) chain
  refine ⟨merge,
    { decides := has.decides, tree_eq := ?tree, hops_eq := has.hops_eq, last := ?last
      others := ?others }⟩
  case tree =>
    rw [has.tree_eq]
    refine PlanTree.mapNodes_congr fun node there => ?_
    -- Identifiers are distinct, so a node is listed exactly if it is a parallel loop.
    have listed : node.id ∈ plan.tree.loops.map PlanTree.id ↔ node.kind = .parfor := by
      constructor
      · intro listed
        obtain ⟨loop, isLoop, same⟩ := List.mem_map.mp listed
        obtain ⟨member, parallel⟩ := PlanTree.mem_loops.mp isLoop
        rwa [← PlanTree.eq_of_id_eq distinct (List.mem_map_of_mem member) there same]
      · intro parallel
        obtain ⟨loop, member, rfl⟩ := List.mem_map.mp there
        exact List.mem_map_of_mem (PlanTree.mem_loops.mpr ⟨member, parallel⟩)
    simp only [listed]
  case last =>
    intro before loop later id split own none
    have mem {other : PlanTree} (there : other ∈ loop :: later) : other ∈ plan.tree.loops :=
      split ▸ List.mem_append_right before there
    refine has.last split ((blockOf_eq_ok_iff distinct (mem (List.mem_cons_self ..))).mpr own)
      fun other there => ?_
    rw [ne_eq, blockOf_eq_ok_iff distinct (mem (List.mem_cons_of_mem _ there))]
    exact none other there
  case others =>
    intro id none
    refine has.others fun loop there => ?_
    rw [ne_eq, blockOf_eq_ok_iff distinct there]
    exact none loop there

/-- The block that a loop has for itself keeps what was decided about this loop. -/
theorem MergesEachLoop.block_eq {merge : NodeId → ResultMerge}
    (merges : MergesEachLoop context plan after merge) (distinct : plan.tree.ids.Nodup)
    (there : loop ∈ plan.tree.loops) (own : HasOwnBlock plan loop) {id : BlockId}
    (bound : loop.root.block = some id) :
    after.program.block id = (plan.program.block id).map (Block.mergedBy (merge loop.id)) := by
  obtain ⟨before, later, split⟩ := List.append_of_mem there
  have once := PlanTree.nodup_loops distinct
  rw [split, List.map_append, List.map_cons, List.nodup_append, List.nodup_cons] at once
  refine merges.last split bound fun other listed same => ?_
  have inside : other ∈ plan.tree.loops := by
    rw [split]
    exact List.mem_append_right _ (List.mem_cons_of_mem _ listed)
  exact once.2.1.1 (own other inside (same.trans bound.symm) ▸ List.mem_map_of_mem listed)

/-- For a loop that has its block for itself, the node and the block record the same. -/
theorem MergesEachLoop.decided_eq {merge : NodeId → ResultMerge}
    (merges : MergesEachLoop context plan after merge) (distinct : plan.tree.ids.Nodup)
    (there : loop ∈ plan.tree.loops) (own : HasOwnBlock plan loop) :
    after.decided .resultMerge loop.id =
      (some (some (merge loop.id).name), some (merge loop.id)) := by
  have found := node?_of_mem_loops distinct there
  have parallel := (PlanTree.mem_loops.mp there).2
  have record : after.tree.node? loop.id =
      some (loop.root.setParam .resultMerge (merge loop.id).name) := by
    rw [merges.tree_eq, PlanTree.node?_mapNodes (fun node => by split <;> rfl), found,
      Option.map_some, if_pos parallel]
    rfl
  obtain ⟨settings, read, -⟩ := merges.decides loop there
  obtain ⟨block, block_eq, settings_eq⟩ :=
    Option.bind_eq_some_iff.mp (Plan.settings_eq_ok_iff.mp read)
  obtain ⟨blockId, bound, held⟩ := Plan.block?_eq_some_iff.mp block_eq
  have bound := (blockOf_eq_ok_iff distinct there).mp bound
  have block : after.block? loop.id = some (block.mergedBy (merge loop.id)) := by
    refine Plan.block?_eq_some_iff.mpr ⟨blockId, ?_, ?_⟩
    · rw [Plan.blockOf, record, Option.bind_some]
      rw [show (loop.root.setParam .resultMerge (merge loop.id).name).block = _ from bound]
    · rw [merges.block_eq distinct there own bound, held]
      rfl
  -- The record of the loop tells the merge, and so do the settings of its block.
  refine Prod.ext ?_ ?_
  · have text : (loop.root.setParam .resultMerge (merge loop.id).name).param? .resultMerge =
        some (merge loop.id).name := (PlanNode.param?_setParam ..).trans (if_pos rfl)
    rw [Plan.decided, record]
    exact congrArg some text
  · rw [Plan.decided, Plan.settings?, block, Option.bind_some, Block.mergedBy, settings_eq]
    rfl

/-! ## Nodes elsewhere -/

section

variable {parent : NodeId} {fresh : PlanNode} (numbered : plan.tree.IsNumbered)
  (next : fresh.id = plan.tree.freshId)

include numbered next

/-- A new node outside of a loop does not show in what is decided about the loop. -/
theorem isMergeOf_addChild {merge : ResultMerge} (there : loop ∈ plan.tree.loops)
    (decides : IsMergeOf context { plan with tree := plan.tree.addChild parent fresh } loop merge) :
    IsMergeOf context plan loop merge := by
  have member := (PlanTree.mem_loops.mp there).1
  have old {tree : PlanTree} (inside : tree ∈ loop.subtrees) : tree.id ∈ plan.tree.ids :=
    List.mem_map_of_mem (List.mem_map_of_mem (PlanTree.mem_subtrees_trans inside member))
  refine decides.congr (fun tree inside => Plan.readHop_addChild numbered next (old inside)) ?_
  unfold Plan.settings?
  rw [Plan.block?_addChild numbered next (old loop.self_mem_subtrees)]

omit next in
/-- A loop keeps its block for itself if the new node is no loop that stands for it. -/
theorem hasOwnBlock_addChild (inside : parent ∈ plan.tree.ids) (own : HasOwnBlock plan loop)
    (apart : fresh.kind = .parfor → fresh.block ≠ loop.root.block) :
    HasOwnBlock { plan with tree := plan.tree.addChild parent fresh } loop := by
  intro other listed same
  obtain ⟨member, parallel⟩ := PlanTree.mem_loops.mp listed
  have node : other.root ∈ (plan.tree.addChild parent fresh).nodes := List.mem_map_of_mem member
  rw [(PlanTree.nodes_addChild numbered.distinct inside).mem_iff, List.mem_cons] at node
  rcases node with new | old
  · rw [new] at parallel same
    exact absurd same (apart parallel)
  · obtain ⟨twin, alsoMember, root_eq⟩ := List.mem_map.mp old
    rw [← root_eq] at parallel same
    have id_eq := own twin (PlanTree.mem_loops.mpr ⟨alsoMember, parallel⟩) same
    rwa [PlanTree.id, root_eq] at id_eq

end

/-- The seventh rule puts the results of every parallel loop together as the subtree and matrices of
this loop have it, and where the loop has its block for itself, both records tell so. A node that is
added outside of a loop does not change what the node of the loop records, nor, unless it is another
loop that stands for the same block, what is decided about a loop that has its block for itself. -/
theorem mergesEachLoop_resultMerge (numbered : plan.tree.IsNumbered)
    (parallel : plan.tree.root.kind = .parfor)
    (leads : (runResultMerge context).Leads plan () after) :
    ∃ merge, MergesEachLoop context plan after merge ∧
      (∀ loop ∈ plan.tree.loops, HasOwnBlock plan loop →
        after.decided .resultMerge loop.id =
          (some (some (merge loop.id).name), some (merge loop.id))) ∧
      ∀ loop ∈ plan.tree.loops, ∀ parent ∈ plan.tree.ids, parent ∉ loop.ids →
        ∀ fresh grown, fresh.id = plan.tree.freshId →
          (runResultMerge context).Leads
            { plan with tree := plan.tree.addChild parent fresh } () grown →
              (grown.tree.node? loop.id).bind (fun node => node.param? .resultMerge) =
                some (merge loop.id).name ∧
              (HasOwnBlock plan loop →
                (fresh.kind = .parfor → fresh.block ≠ loop.root.block) →
                  grown.decided .resultMerge loop.id = after.decided .resultMerge loop.id) := by
  obtain ⟨merge, merges⟩ := exists_mergesEachLoop numbered.distinct parallel leads
  have both (loop : PlanTree) (there : loop ∈ plan.tree.loops) (own : HasOwnBlock plan loop) :=
    merges.decided_eq numbered.distinct there own
  refine ⟨merge, merges, both, ?_⟩
  intro loop there parent inside outside fresh grown next alsoLeads
  have stillNumbered := numbered.addChild inside next
  obtain ⟨member, alsoParallel⟩ := PlanTree.mem_loops.mp there
  have stillThere : loop ∈ (plan.tree.addChild parent fresh).loops :=
    PlanTree.mem_loops.mpr ⟨PlanTree.mem_subtrees_addChild member outside fresh, alsoParallel⟩
  obtain ⟨other, grows⟩ := exists_mergesEachLoop stillNumbered.distinct
    ((congrArg PlanNode.kind (plan.tree.root_addChild fresh)).trans parallel) alsoLeads
  -- Both runs decide the same about the loop.
  have same : other loop.id = merge loop.id :=
    (isMergeOf_addChild numbered next there (grows.decides loop stillThere)).unique
      (merges.decides loop there)
  constructor
  · have found : (plan.tree.addChild parent fresh).node? loop.id = some loop.root :=
      PlanTree.node?_eq_some stillNumbered.distinct
        (List.mem_map_of_mem (PlanTree.mem_loops.mp stillThere).1)
    rw [grows.tree_eq, PlanTree.node?_mapNodes (fun node => by split <;> rfl), found,
      Option.map_some, if_pos alsoParallel, Option.bind_some, ← same]
    exact (PlanNode.param?_setParam ..).trans (if_pos rfl)
  · intro own apart
    rw [both loop there own, grows.decided_eq stillNumbered.distinct stillThere
      (hasOwnBlock_addChild numbered inside own apart), same]

end PlanningRule

namespace Optimizer

open PlanningRule

/-- A distributed operator that writes a matrix. -/
def writer (matrix : String) : Hop Rat where
  op := leftIndexing
  inputs := [⟨matrix, true⟩, ⟨"C", true⟩, ⟨"1", false⟩, ⟨"1", false⟩, ⟨"k", true⟩, ⟨"k", true⟩]
  memory := some 8

/-- A loop with an operator below it that writes a matrix. -/
def writingLoop (index : Nat) : PlanTree :=
  .node { id := ⟨index⟩, kind := .parfor, placement := .inProcess, block := some ⟨index⟩
          parameters := { numIterations := some "5" } }
    [.node { id := ⟨index + 1⟩, kind := .hop, placement := .remote, hop := some ⟨0⟩
             parameters := { opString := some leftIndexing } } []]

/-- The loop in a sequential loop in a loop that writes another matrix. -/
def nestedWriter : Plan Rat where
  tree :=
    .node { id := ⟨0⟩, kind := .parfor, placement := .inProcess, block := some ⟨0⟩
            parameters := { numIterations := some "10" } }
      [.node { id := ⟨1⟩, kind := .for, placement := .inProcess, block := some ⟨1⟩
               parameters := { numIterations := some "3" } } [writingLoop 2]]
  program :=
    { blocks := #[
        .parallel { var := "i", first := .const 1, last := .const 10, step := 1 }
          { ParallelSettings.undecided with resultVars := ["R"] } [⟨1⟩],
        .sequential { var := "j", first := .const 1, last := .const 3, step := 1 } [⟨2⟩],
        .parallel { var := "k", first := .const 1, last := .const 5, step := 1 }
          { ParallelSettings.undecided with resultVars := ["S"] } []]
      hops := #[writer "S", writer "R"] }

/-- What is known when results are put together on one machine. -/
def mergingContext (plan : Plan Rat) : PassContext Rat :=
  .ofTree (ofMachine 1).settings .empty (.localOnly 1 100) plan.tree 10 false

/-- A node for the operator that writes the matrix of the outer loop. -/
def outerWriter : PlanNode :=
  { id := ⟨4⟩, kind := .hop, placement := .remote, hop := some ⟨1⟩
    parameters := { opString := some leftIndexing } }

/-- The inner loop needs a distributed job, and the outer one does only once there is an operator
that writes its matrix. This node is outside of the inner loop, for which it changes nothing. -/
theorem mergesEachLoop_nestedWriter :
    ∃ after merge grown, nestedWriter.tree.IsNumbered ∧ nestedWriter.tree.root.kind = .parfor ∧
      (runResultMerge (mergingContext nestedWriter)).Leads nestedWriter () after ∧
      MergesEachLoop (mergingContext nestedWriter) nestedWriter after merge ∧
      (runResultMerge (mergingContext nestedWriter)).Leads
        { nestedWriter with tree := nestedWriter.tree.addChild ⟨1⟩ outerWriter } () grown ∧
      after.decided .resultMerge ⟨0⟩ = (some (some "LOCAL_AUTOMATIC"), some .localAutomatic) ∧
      grown.decided .resultMerge ⟨0⟩ = (some (some "REMOTE_MR"), some .remote) ∧
      after.decided .resultMerge ⟨2⟩ = (some (some "REMOTE_MR"), some .remote) ∧
      grown.decided .resultMerge ⟨2⟩ = after.decided .resultMerge ⟨2⟩ := by
  have numbered : nestedWriter.tree.IsNumbered := ⟨by decide, by decide⟩
  have leads : (runResultMerge (mergingContext nestedWriter)).Leads nestedWriter ()
      ((runResultMerge (mergingContext nestedWriter)).result
        { plan := nestedWriter, log := [] }).2.plan :=
    ⟨[], _, Prod.ext (by decide +kernel) rfl⟩
  have grows : (runResultMerge (mergingContext nestedWriter)).Leads
      { nestedWriter with tree := nestedWriter.tree.addChild ⟨1⟩ outerWriter } ()
      ((runResultMerge (mergingContext nestedWriter)).result
        { plan := { nestedWriter with tree := nestedWriter.tree.addChild ⟨1⟩ outerWriter }
          log := [] }).2.plan :=
    ⟨[], _, Prod.ext (by decide +kernel) rfl⟩
  have there : writingLoop 2 ∈ nestedWriter.tree.loops := by
    refine PlanTree.mem_loops.mpr ⟨?_, rfl⟩
    exact PlanTree.mem_subtrees_node.mpr (.inr ⟨_, .head _,
      PlanTree.mem_subtrees_node.mpr (.inr ⟨_, .head _, (writingLoop 2).self_mem_subtrees⟩)⟩)
  have own : HasOwnBlock nestedWriter (writingLoop 2) := by decide
  obtain ⟨merge, merges, -, elsewhere⟩ := mergesEachLoop_resultMerge numbered rfl leads
  obtain ⟨-, same⟩ := elsewhere (writingLoop 2) there ⟨1⟩ (by decide) (by decide) outerWriter _ rfl
    grows
  exact ⟨_, merge, _, numbered, rfl, leads, merges, grows, by decide +kernel, by decide +kernel,
    by decide +kernel, same own (by decide)⟩

/-- Two nodes stand for the inner loop, and the first of them has the operator that writes its
matrix. -/
def sharedBlock : Plan Rat where
  tree :=
    .node { id := ⟨0⟩, kind := .parfor, placement := .inProcess, block := some ⟨0⟩
            parameters := { numIterations := some "10" } }
      [writingLoop 1,
       .node { id := ⟨3⟩, kind := .parfor, placement := .inProcess, block := some ⟨1⟩
               parameters := { numIterations := some "5" } } []]
  program :=
    { blocks := #[
        .parallel { var := "i", first := .const 1, last := .const 10, step := 1 }
          .undecided [⟨1⟩],
        .parallel { var := "k", first := .const 1, last := .const 5, step := 1 }
          { ParallelSettings.undecided with resultVars := ["S"] } []]
      hops := #[writer "S"] }

theorem isBuilt_sharedBlock : sharedBlock.IsBuilt := by
  obtain ⟨single, first⟩ : ∃ single, Plan.ofLoop sharedBlock.program ⟨0⟩ = .ok single := ⟨_, rfl⟩
  obtain ⟨double, second⟩ : ∃ double, (Plan.addBlockNode ⟨0⟩ ⟨1⟩).result single =
      (.ok ⟨1⟩, double) := by
    cases first
    exact ⟨_, rfl⟩
  obtain ⟨triple, third⟩ : ∃ triple, (Plan.addHopNode ⟨1⟩ ⟨0⟩ .remote).result double =
      (.ok ⟨2⟩, triple) := by
    cases first
    cases second
    exact ⟨_, rfl⟩
  have fourth : (Plan.addBlockNode ⟨0⟩ ⟨1⟩).result triple = (.ok ⟨3⟩, sharedBlock) := by
    cases first
    cases second
    cases third
    rfl
  exact .addBlockNode (.addHopNode (.addBlockNode (.ofLoop first) second) third) fourth

/-- The first of the two nodes needs a distributed job and records this, but their block has what is
decided about the second one. -/
theorem decided_sharedBlock :
    sharedBlock.IsBuilt ∧ ∃ after,
      (runResultMerge (mergingContext sharedBlock)).Leads sharedBlock () after ∧
        writingLoop 1 ∈ sharedBlock.tree.loops ∧
        IsMergeOf (mergingContext sharedBlock) sharedBlock (writingLoop 1) .remote ∧
        after.decided .resultMerge (writingLoop 1).id =
          (some (some "REMOTE_MR"), some .localAutomatic) := by
  have leads : (runResultMerge (mergingContext sharedBlock)).Leads sharedBlock ()
      ((runResultMerge (mergingContext sharedBlock)).result
        { plan := sharedBlock, log := [] }).2.plan :=
    ⟨[], _, Prod.ext (by decide +kernel) rfl⟩
  have there : writingLoop 1 ∈ sharedBlock.tree.loops :=
    PlanTree.mem_loops.mpr
      ⟨PlanTree.mem_subtrees_node.mpr (.inr ⟨_, .head _, (writingLoop 1).self_mem_subtrees⟩), rfl⟩
  have read : sharedBlock.settings (writingLoop 1).id =
      .ok { ParallelSettings.undecided with resultVars := ["S"] } := rfl
  have writes : (writesRemotely ["S"] (writingLoop 1).operators).result sharedBlock =
      (.ok true, sharedBlock) := rfl
  have needed : IsMergeOf (mergingContext sharedBlock) sharedBlock (writingLoop 1) .remote :=
    isMergeOf_mergeFor read writes
  exact ⟨isBuilt_sharedBlock, _, leads, there, needed, by decide +kernel⟩

end Optimizer

end ParallelLoop
