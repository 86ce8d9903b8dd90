/-
# What planning looks up

A pass looks up trip counts, bounds and settings of loops, the operators behind nodes, and
what is known about matrices. A plan is backed when all of this is there, so that no decision
about it can fail for want of something. Each lookup is backed by the way plans are built or
by an earlier decision: an operator that reads slices reads a live matrix because it got
its slices from one, and the two loops of a split record the counts that the split gave them.

Decisions leave a plan backed. They keep its layout as well, so what a rule found in the tree
when it started is still there when the rule comes to decide about it.
-/

import ParallelLoop.Proofs.Optimizer.Inputs
import ParallelLoop.Proofs.Plan.ChunkedValues
import ParallelLoop.Proofs.Plan.Division

namespace ParallelLoop

open Change (Respects)

variable {α : Type}

/-- What planning looks up about a loop, apart from its bounds. -/
abbrev Aspect.lookups : Aspect α (Option String) (List (String × PartitionFormat)) :=
  ⟨fun node => node.parameters.numIterations, ParallelSettings.candidates⟩

/-- All these matrices are live. -/
def Variables.Holds (vars : Variables) (candidates : List (String × PartitionFormat)) : Prop :=
  ∀ candidate ∈ candidates, (vars.get? candidate.1).isSome = true

/-- An operator has what planning asks of the one behind a node: its memory if it runs in the
process, its matrix if it is an indexing operator, and a live one if it reads slices. -/
structure Hop.Answers (vars : Variables) (node : PlanNode) (hop : Hop α) : Prop where
  memory : node.placement = .inProcess → hop.memory.isSome = true
  matrix : node.param? .opString = some rightIndexing → (hop.inputName? 0).isSome = true
  live : (node.param? .dataPartitionFormat).isSome = true →
    ∀ name, hop.inputName? 0 = some name → (vars.get? name).isSome = true

/-- A trip count that was read is a machine word. -/
theorem PlanNode.le_maxCount_of_tripCount {node : PlanNode} {count : Nat}
    (counted : node.tripCount = .ok count) : count ≤ Word.maxCount := by
  unfold tripCount at counted
  split at counted
  next => cases counted
  next text _ =>
    split at counted
    next => cases counted
    next found read =>
      obtain rfl := Except.ok.inj counted
      obtain ⟨number, -, word⟩ := Option.bind_eq_some_iff.mp read
      obtain ⟨fits, rfl⟩ := Word.count?_eq_some_iff.mp word
      exact fits

namespace Plan

variable {vars : Variables} {plan before after : Plan α} {id : NodeId}

/-- The trip count, the settings and the bounds of a loop are there, and so are the matrices that
its settings name. -/
structure BacksLoop (vars : Variables) (plan : Plan α) (id : NodeId) : Prop where
  counted : ∃ node count, plan.tree.node? id = some node ∧ node.tripCount = .ok count
  settings : ∃ settings, plan.settings? id = some settings ∧ vars.Holds settings.candidates
  bounds : ∃ bounds, plan.bounds? id = some bounds

/-- All that planning looks up is there. -/
structure IsBacked (vars : Variables) (plan : Plan α) : Prop where
  formed : plan.IsFormed
  loops : ∀ id, plan.IsLoop id → plan.BacksLoop vars id
  operators : ∀ node ∈ plan.tree.nodes, node.kind = .hop →
    ∃ hop, plan.readHop node.id = .ok hop ∧ hop.Answers vars node

/-! ## What decisions leave -/

/-- A loop stays backed as long as its text, its candidates and its bounds stay. -/
theorem BacksLoop.of_same (backs : before.BacksLoop vars id)
    (decided : after.decided .lookups id = before.decided .lookups id)
    (bounds : after.bounds? id = before.bounds? id) : after.BacksLoop vars id := by
  obtain ⟨⟨node, count, found, counted⟩, ⟨settings, read, live⟩, known⟩ := backs
  rw [Plan.decided, Plan.decided, found, read, Prod.mk.injEq] at decided
  obtain ⟨twin, twin_eq, text_eq⟩ := Option.map_eq_some_iff.mp decided.1
  obtain ⟨other, other_eq, candidates_eq⟩ := Option.map_eq_some_iff.mp decided.2
  have id_eq := (mem_nodes_of_node? twin_eq).2.trans (mem_nodes_of_node? found).2.symm
  refine ⟨⟨twin, count, twin_eq, ?_⟩, ⟨other, other_eq, ?_⟩, bounds ▸ known⟩
  · rw [PlanNode.tripCount_congr id_eq text_eq, counted]
  · rw [show other.candidates = settings.candidates from candidates_eq]
    exact live

/-- What keeps operators and loops keeps them backed. -/
theorem KeepsLoops.isBacked (kept : before.KeepsLoops .lookups after)
    (backed : before.IsBacked vars) : after.IsBacked vars where
  formed := kept.formed
  loops id loop :=
    (backed.loops id (kept.isLoop loop)).of_same (kept.decided_eq loop) (kept.bounds_eq loop)
  operators := by
    intro node there operator
    obtain ⟨twin, inside, twin_eq⟩ := PlanTree.exists_node_of_mapNodes kept.bare_eq there
    -- The record of an operator stays as it is.
    have twin_operator : twin.kind = .hop := by
      rw [← PlanNode.kind_bare_eq_hop, ← twin_eq, PlanNode.kind_bare_eq_hop]
      exact operator
    rw [PlanNode.bare_of_hop operator, PlanNode.bare_of_hop twin_operator] at twin_eq
    rw [twin_eq, readHop_of_bare kept.bare_eq kept.hops_eq]
    exact backed.operators twin inside twin_operator

/-- A plan that was backed still is, and has its layout. -/
def StaysBacked (vars : Variables) (before after : Plan α) : Prop :=
  before.IsBacked vars → after.IsBacked vars ∧ after.layout = before.layout

instance (vars : Variables) : IsPreorder (Plan α) (StaysBacked vars) where
  refl _ backed := ⟨backed, rfl⟩
  trans _ _ _ first second backed :=
    ⟨(second (first backed).1).1, (second (first backed).1).2.trans (first backed).2⟩

section Decisions

variable {change : Change (Plan α) Unit}

theorem staysBacked_of_keeps (keeps : Respects (Keeps .lookups) change)
    (layout : Change.Preserves Plan.layout change) : Respects (StaysBacked vars) change :=
  fun plan backed => ⟨(keeps plan backed.formed).isBacked backed, layout plan⟩

theorem staysBacked_setWorkers (workers : Nat) :
    Respects (StaysBacked vars) (setWorkers (α := α) id workers) :=
  staysBacked_of_keeps (keeps_setWorkers (fun _ => rfl) fun _ => rfl)
    (ignores_layout.given.setWorkers workers)

theorem staysBacked_serialize : Respects (StaysBacked vars) (serialize (α := α) id) :=
  respects_serialize staysBacked_setWorkers

theorem staysBacked_setTaskPartitioner (kind : PartitionerKind) :
    Respects (StaysBacked vars) (setTaskPartitioner (α := α) id kind) :=
  staysBacked_of_keeps (keeps_setTaskPartitioner (fun _ => rfl) fun _ => rfl)
    (ignores_layout.given.setTaskPartitioner PlanNode.given_setParam kind)

theorem staysBacked_setDataPartitioner (partitioner : DataPartitioner) :
    Respects (StaysBacked vars) (setDataPartitioner (α := α) id partitioner) :=
  staysBacked_of_keeps (keeps_setDataPartitioner (fun _ => rfl) fun _ => rfl)
    (ignores_layout.given.setDataPartitioner PlanNode.given_setParam partitioner)

theorem staysBacked_setResultMerge (merge : ResultMerge) :
    Respects (StaysBacked vars) (setResultMerge (α := α) id merge) :=
  staysBacked_of_keeps (keeps_setResultMerge (fun _ => rfl) fun _ => rfl)
    (ignores_layout.given.setResultMerge PlanNode.given_setParam merge)

theorem staysBacked_setRecompileBudget (budget : α) :
    Respects (StaysBacked vars) (setRecompileBudget id budget) :=
  staysBacked_of_keeps (keeps_updateSettings fun _ => rfl)
    (ignores_layout.setRecompileBudget budget)

theorem staysBacked_setColocated (matrix : String) :
    Respects (StaysBacked vars) (setColocated (α := α) id matrix) :=
  staysBacked_of_keeps (keeps_updateSettings fun _ => rfl) (ignores_layout.setColocated matrix)

end Decisions

/-- Letting an operator read slices of a live matrix leaves a plan backed. -/
theorem IsBacked.setPartitionFormat {format : PartitionFormat} {slice : α} {hop : Hop α}
    (backed : plan.IsBacked vars) (read : plan.readHop id = .ok hop)
    (live : ∀ name, hop.inputName? 0 = some name → (vars.get? name).isSome = true)
    (done : (setPartitionFormat id format slice).result plan = (.ok (), after)) :
    after.IsBacked vars := by
  have layout := ignores_layout.given.setPartitionFormat format slice |>.eq done
  have decided : after.decided .lookups = plan.decided .lookups :=
    (preserves_decided_setPartitionFormat fun _ => rfl).eq done
  have bounds : after.bounds? = plan.bounds? :=
    (ignores_bounds.setPartitionFormat format slice).eq done
  refine ⟨backed.formed.of_layout layout, fun other loop => ?_, fun node there operator => ?_⟩
  · exact (backed.loops other (isLoop_of_layout layout loop)).of_same (congrFun decided other)
      (congrFun bounds other)
  obtain ⟨_, _, -, -, tree_eq, -⟩ := PlanningRule.of_setPartitionFormat done
  rw [tree_eq, PlanTree.update_eq_mapNodes backed.formed.numbered.distinct,
    PlanTree.nodes_mapNodes] at there
  obtain ⟨twin, inside, rfl⟩ := List.mem_map.mp there
  by_cases here : twin.id = id
  · -- The operator itself has the memory of a slice now, and reads the matrix that is live.
    rw [if_pos here] at operator ⊢
    have own := PlanningRule.readHop_setPartitionFormat done (here ▸ read)
    rw [if_pos (congrArg plan.hopOf here)] at own
    obtain ⟨found, found_eq, answers⟩ := backed.operators twin inside operator
    rw [here, read] at found_eq
    obtain rfl := Except.ok.inj found_eq
    exact ⟨_, own, fun _ => rfl, answers.matrix, fun _ => live⟩
  · rw [if_neg here] at operator ⊢
    obtain ⟨found, found_eq, answers⟩ := backed.operators twin inside operator
    refine ⟨_, PlanningRule.readHop_setPartitionFormat done found_eq, ?_⟩
    split
    next => exact ⟨fun _ => rfl, answers.matrix, answers.live⟩
    next => exact answers

/-! ## What a rule found in the tree -/

/-- The operator behind a node is the one that its record names. -/
theorem of_readHop {node : PlanNode} {hop : Hop α} (distinct : plan.tree.ids.Nodup)
    (there : node ∈ plan.tree.nodes) (read : plan.readHop node.id = .ok hop) :
    ∃ hopId, node.hop = some hopId ∧ plan.program.hop hopId = .ok hop := by
  obtain ⟨hopId, bound, held⟩ := Outcome.of_bind read
  rw [hopOf, PlanTree.node?_eq_some distinct there, Option.bind_some] at bound
  split at bound
  next own => exact ⟨_, own, Except.ok.inj bound ▸ held⟩
  next => cases bound

/-- A node with this id and of this kind is in the plan. -/
def Covers (plan : Plan α) (node : PlanNode) : Prop :=
  ∃ twin ∈ plan.tree.nodes, twin.id = node.id ∧ twin.kind = node.kind

theorem covers_of_mem {node : PlanNode} (there : node ∈ plan.tree.nodes) : plan.Covers node :=
  ⟨node, there, rfl, rfl⟩

theorem Covers.of_layout {node : PlanNode} (covers : before.Covers node)
    (same : after.layout = before.layout) : after.Covers node := by
  obtain ⟨twin, there, id_eq, kind_eq⟩ := covers
  obtain ⟨other, inside, other_id, other_kind, -⟩ := exists_node_of_layout same.symm there
  exact ⟨other, inside, other_id.symm.trans id_eq, other_kind.symm.trans kind_eq⟩

theorem Covers.isLoop {node : PlanNode} (covers : plan.Covers node) (loop : node.kind = .parfor) :
    plan.IsLoop node.id := by
  obtain ⟨twin, there, id_eq, kind_eq⟩ := covers
  exact ⟨twin, there, id_eq, kind_eq.trans loop⟩

theorem IsBacked.exists_readHop {node : PlanNode} (backed : plan.IsBacked vars)
    (covers : plan.Covers node) (operator : node.kind = .hop) :
    ∃ hop, plan.readHop node.id = .ok hop := by
  obtain ⟨twin, there, id_eq, kind_eq⟩ := covers
  obtain ⟨hop, read, -⟩ := backed.operators twin there (kind_eq.trans operator)
  exact ⟨hop, id_eq ▸ read⟩

/-! ## Decisions that succeed -/

theorem IsBacked.succeeds_updateSettings (backed : plan.IsBacked vars) (loop : plan.IsLoop id)
    (change : ParallelSettings α → ParallelSettings α) :
    (updateSettings id change).Succeeds plan := by
  obtain ⟨settings, read, -⟩ := (backed.loops id loop).settings
  obtain ⟨block, block_eq, -⟩ := Option.bind_eq_some_iff.mp read
  obtain ⟨blockId, bound, -⟩ := block?_eq_some_iff.mp block_eq
  exact ⟨(), _, result_updateSettings bound (settings_eq_ok_iff.mpr read) change⟩

/-- What is decided about a loop in its settings and in its record can be decided. -/
theorem IsBacked.succeeds_decision (backed : plan.IsBacked vars) (loop : plan.IsLoop id)
    (settings : ParallelSettings α → ParallelSettings α) (record : PlanNode → PlanNode) :
    (do updateSettings id settings; updateNode id record : Change (Plan α) Unit).Succeeds plan :=
  .bind (backed.succeeds_updateSettings loop settings) fun _ _ _ => .modify _ _

theorem IsBacked.succeeds_setPlacement (backed : plan.IsBacked vars)
    (parallel : plan.tree.root.kind = .parfor) (placement : Placement) :
    (setPlacement plan.tree.id placement).Succeeds plan :=
  .congr (result_setPlacement (PlanTree.node?_root plan.tree) parallel placement)
    (backed.succeeds_decision (isLoop_root parallel) _ _)

theorem succeeds_setPartitionFormat {hop : Hop α} (read : plan.readHop id = .ok hop)
    (format : PartitionFormat) (slice : α) : (setPartitionFormat id format slice).Succeeds plan := by
  obtain ⟨hopId, bound, held⟩ := Outcome.of_bind read
  exact .inspect_bind bound (.inspect_bind held (.bind (.modify _ _) fun _ _ _ => .modify _ _))

theorem IsBacked.succeeds_serializeNodes {nodes : List PlanNode} (backed : plan.IsBacked vars)
    (covers : ∀ node ∈ nodes, plan.Covers node) : (serializeNodes nodes).Succeeds plan := by
  induction nodes generalizing plan with
  | nil => exact .pure _ _
  | cons node rest ih =>
    rw [List.forall_mem_cons] at covers
    unfold serializeNodes
    split
    next loop =>
      refine .bind (backed.succeeds_decision (covers.1.isLoop loop) _ _) fun _ mid set => ?_
      obtain ⟨still, layout⟩ := (staysBacked_setWorkers 1).of_result set backed
      exact ih still fun other there => (covers.2 other there).of_layout layout
    next => exact ih backed covers.2

theorem IsBacked.succeeds_serialize (backed : plan.IsBacked vars) {node : PlanNode}
    (covers : plan.Covers node) : (serialize node.id).Succeeds plan := by
  obtain ⟨twin, there, id_eq, -⟩ := covers
  obtain ⟨subtree, member, rfl⟩ := List.mem_map.mp there
  have found := PlanTree.find?_eq_some backed.formed.numbered.distinct member
  rw [← id_eq]
  exact .congr (result_serialize found) (backed.succeeds_serializeNodes fun other inside =>
    covers_of_mem ((PlanTree.nodes_sublist member).subset inside))

/-- A loop can be demoted. -/
theorem IsBacked.succeeds_demote (backed : plan.IsBacked vars) (loop : plan.IsLoop id) :
    (demote id).Succeeds plan := by
  obtain ⟨bounds, known⟩ := (backed.loops id loop).bounds
  obtain ⟨block, block_eq, bounds_eq⟩ := Option.bind_eq_some_iff.mp known
  obtain ⟨blockId, bound, held⟩ := block?_eq_some_iff.mp block_eq
  have found : boundsOf id block = .ok bounds := by rw [boundsOf, bounds_eq]
  exact .inspect_bind bound (.inspect_bind held (.ofExcept_bind found (.get_bind
    (.bind (.modify _ _) fun _ _ _ => .modify _ _))))

/-- A loop can be split when the step over a chunk is a signed word. -/
theorem IsBacked.succeeds_splitLoop {bounds : LoopBounds} {chunk : Nat}
    (backed : plan.IsBacked vars) (parallel : plan.tree.root.kind = .parfor)
    (known : plan.bounds? plan.tree.id = some bounds) (forward : 0 < bounds.step)
    (fits : Word.InSigned ((max chunk 1 : Nat) * bounds.step)) (var : String) :
    (splitLoop plan.tree.id chunk var).Succeeds plan := by
  obtain ⟨⟨node, count, found, counted⟩, ⟨settings, read, -⟩, -⟩ :=
    backed.loops _ (isLoop_root parallel)
  obtain ⟨block, block_eq, bounds_eq⟩ := Option.bind_eq_some_iff.mp known
  obtain ⟨blockId, bound, held⟩ := block?_eq_some_iff.mp block_eq
  have steps_eq := ChunkSteps.ofChunk_eq forward (Nat.le_max_right chunk 1) fits
  have node_eq : plan.node plan.tree.id = .ok node := by rw [Plan.node, found]
  exact ⟨_, _, result_splitLoop bound held node_eq counted bounds_eq (settings_eq_ok_iff.mpr read)
    steps_eq var⟩

/-! ## Split plans -/

/-- A split leaves a plan backed: the two loops record counts of their own, and share what the
settings of the one loop name. -/
theorem IsBacked.division {chunk : Nat} {var : String} (backed : plan.IsBacked vars)
    (division : Division plan after chunk var) (formed : after.IsFormed)
    (parallel : plan.tree.root.kind = .parfor)
    (flat : plan.tree.hasNestedParallelism = false) (positive : 1 ≤ chunk)
    (fits : chunk ≤ Word.maxCount) : after.IsBacked vars where
  formed := formed
  loops := by
    obtain ⟨-, ⟨settings, read, live⟩, -⟩ := backed.loops _ (isLoop_root parallel)
    obtain rfl := Option.some.inj (division.settings?_root.symm.trans read)
    intro id loop
    rcases division.isLoop_cases flat loop with rfl | rfl
    · have most := (divideUp_le positive).trans (PlanNode.le_maxCount_of_tripCount division.counted)
      have found := (division.node?_eq after.tree.id).trans (if_pos division.id_eq)
      exact ⟨⟨_, _, found, PlanNode.tripCount_eq most rfl⟩, ⟨_, division.settings?_outer, live⟩,
        ⟨_, division.bounds?_outer⟩⟩
    · have fresh : plan.tree.freshId ≠ plan.tree.id := fun same =>
        backed.formed.numbered.freshId_not_mem
          (same ▸ List.mem_map_of_mem plan.tree.root_mem_nodes)
      have found := (division.node?_eq plan.tree.freshId).trans ((if_neg fresh).trans (if_pos rfl))
      have inner : after.settings? plan.tree.freshId =
          some { division.settings with mode := .inProcess } := by
        rw [Plan.settings?, division.inner_eq]
        rfl
      exact ⟨⟨_, _, found, PlanNode.tripCount_eq fits rfl⟩, ⟨_, inner, live⟩,
        ⟨_, division.bounds?_inner⟩⟩
  operators := by
    intro node there operator
    have found := PlanTree.node?_eq_some formed.numbered.distinct there
    rw [division.tree_eq, PlanTree.nodes_node, List.flatMap_singleton, PlanTree.nodes_node,
      List.mem_cons, List.mem_cons] at there
    rcases there with rfl | rfl | below
    · -- Neither of the two loops is an operator.
      have loop : division.root.kind = .parfor := division.root_eq ▸ parallel
      exact absurd (loop.symm.trans operator) (by decide)
    · cases operator
    · have inside : node ∈ plan.tree.nodes := by
        rw [division.before, PlanTree.nodes_node]
        exact List.mem_cons_of_mem _ below
      obtain ⟨hop, read, answers⟩ := backed.operators node inside operator
      have same : after.readHop node.id = plan.readHop node.id := by
        unfold readHop hopOf Program.hop
        rw [found, PlanTree.node?_eq_some backed.formed.numbered.distinct inside, division.hops_eq]
      exact ⟨hop, same.trans read, answers⟩

/-! ## Plans that are built -/

/-- A node is as it was added for a block or for an operator of the program. -/
inductive IsNew (program : Program α) (node : PlanNode) : Prop
  | block {id : BlockId} {block : Block α} (held : program.block id = .ok block)
      (made : nodeOfBlock node.id id block = .ok node)
  | operator {hop : HopId} (kind_eq : node.kind = .hop)
      (texts : node.parameters = { opString := (program.hop hop).toOption.map Hop.op })
      (reads : node.hop = some hop)

theorem IsBuilt.isNew (built : plan.IsBuilt) :
    ∀ node ∈ plan.tree.nodes, IsNew plan.program node := by
  induction built with
  | @ofLoop program root plan done =>
    obtain ⟨block, held, chosen⟩ := Outcome.of_bind done
    split at chosen
    next => cases chosen
    next =>
      obtain ⟨node, made, returned⟩ := Outcome.of_bind chosen
      cases returned
      have single : (PlanTree.node node []).nodes = [node] := rfl
      rw [single, List.forall_mem_singleton]
      exact .block held ((of_nodeOfBlock made).1 ▸ made)
  | addBlockNode built done ih =>
    obtain ⟨block, node, held, made, there, rfl⟩ := of_addBlockNode done
    intro other inside
    have added := PlanTree.nodes_addChild built.isFormed.numbered.distinct there |>.mem_iff.mp inside
    rcases List.mem_cons.mp added with rfl | before
    · exact .block held ((of_nodeOfBlock made).1 ▸ made)
    · exact ih other before
  | addHopNode built done ih =>
    obtain ⟨there, rfl⟩ := eq_of_addHopNode done
    intro other inside
    have added := PlanTree.nodes_addChild built.isFormed.numbered.distinct there |>.mem_iff.mp inside
    rcases List.mem_cons.mp added with rfl | before
    · exact .operator rfl rfl rfl
    · exact ih other before

/-- The topmost node of a plan that is built stands for a parallel loop. -/
theorem IsBuilt.root_kind (built : plan.IsBuilt) : plan.tree.root.kind = .parfor := by
  induction built with
  | ofLoop done =>
    obtain ⟨block, held, chosen⟩ := Outcome.of_bind done
    split at chosen
    next => cases chosen
    next loop =>
      obtain ⟨node, made, returned⟩ := Outcome.of_bind chosen
      cases returned
      have kind_eq := (of_nodeOfBlock made).2.2
      rw [not_not.mp loop] at kind_eq
      exact kind_eq
  | addBlockNode _ done ih =>
    obtain ⟨_, _, -, -, -, rfl⟩ := of_addBlockNode done
    rwa [PlanTree.root_addChild]
  | addHopNode _ done ih =>
    obtain ⟨-, rfl⟩ := eq_of_addHopNode done
    rwa [PlanTree.root_addChild]

/-- What a plan stands for is all there: its parallel loops run between constants and have settings
whose candidates are live, and its operators are known, with their memory if they run in the process
and with a matrix if they index one. -/
structure IsComplete (vars : Variables) (plan : Plan α) : Prop where
  bounds : ∀ node ∈ plan.tree.nodes, node.kind = .parfor → ∃ bounds first last,
    plan.bounds? node.id = some bounds ∧ bounds.first = .const first ∧ bounds.last = .const last
  settings : ∀ node ∈ plan.tree.nodes, node.kind = .parfor → ∃ settings,
    plan.settings? node.id = some settings ∧ vars.Holds settings.candidates
  operators : ∀ node ∈ plan.tree.nodes, node.kind = .hop → ∃ hop,
    plan.readHop node.id = .ok hop ∧ (node.placement = .inProcess → hop.memory.isSome = true) ∧
      (hop.op = rightIndexing → (hop.inputName? 0).isSome = true)

/-- If the loop is split among so many nodes, the step over a chunk is a signed word. -/
def FitsSplit (plan : Plan α) (nodes : Nat) : Prop :=
  ∀ bounds count, plan.bounds? plan.tree.id = some bounds →
    plan.tree.root.tripCount = .ok count → Word.InSigned (divideUp count nodes * bounds.step)

/-- A loop between constants was counted when its node was added. -/
theorem IsBuilt.exists_count (built : plan.IsBuilt) {node : PlanNode} {bounds : LoopBounds}
    {first last : Int} (there : node ∈ plan.tree.nodes) (loop : node.kind = .parfor)
    (known : plan.bounds? node.id = some bounds) (first_eq : bounds.first = .const first)
    (last_eq : bounds.last = .const last) :
    ∃ count, iterationCount first last bounds.step = .ok count ∧ node.tripCount = .ok count := by
  cases built.isNew node there with
  | operator kind_eq => exact absurd (loop.symm.trans kind_eq) nofun
  | @block id block held made =>
    have found := PlanTree.node?_eq_some built.isFormed.numbered.distinct there
    have bounds_eq : block.bounds = some bounds := by
      rwa [Plan.bounds?, block?_of_node? found (of_nodeOfBlock made).2.1 held] at known
    obtain ⟨counted, counted_eq, text⟩ := recorded_of_nodeOfBlock made bounds_eq
    rw [LoopBounds.constantTripCount?_eq first_eq last_eq] at counted_eq
    obtain ⟨count, count_eq, rfl⟩ := Outcome.of_map counted_eq
    exact ⟨count, count_eq,
      PlanNode.tripCount_eq (le_maxCount_of_iterationCount count_eq) text⟩

/-- A plan that is built, and for which all is there, is backed. -/
theorem IsBuilt.isBacked (built : plan.IsBuilt) (complete : plan.IsComplete vars) :
    plan.IsBacked vars where
  formed := built.isFormed
  loops := by
    rintro id ⟨node, there, rfl, loop⟩
    obtain ⟨bounds, first, last, known, first_eq, last_eq⟩ := complete.bounds node there loop
    obtain ⟨count, -, counted⟩ := built.exists_count there loop known first_eq last_eq
    exact ⟨⟨node, count, PlanTree.node?_eq_some built.isFormed.numbered.distinct there, counted⟩,
      complete.settings node there loop, ⟨bounds, known⟩⟩
  operators := by
    intro node there operator
    obtain ⟨hop, read, memory, matrix⟩ := complete.operators node there operator
    cases built.isNew node there with
    | @block id block held made =>
      have kind_eq := (of_nodeOfBlock made).2.2
      rw [operator] at kind_eq
      cases of_kind : block.kind <;> rw [of_kind] at kind_eq <;> cases kind_eq
    | @operator hopId _ texts reads =>
      -- The text of the node is the name of the operator, and nothing else is recorded yet.
      obtain ⟨_, own, held⟩ := of_readHop built.isFormed.numbered.distinct there read
      obtain rfl := Option.some.inj (reads.symm.trans own)
      have named : node.param? .opString = some hop.op := by
        unfold PlanNode.param?
        rw [texts, held]
        rfl
      have unsliced : node.param? .dataPartitionFormat = none := by
        unfold PlanNode.param?
        rw [texts]
        rfl
      refine ⟨hop, read, memory, fun indexing => ?_, fun sliced => ?_⟩
      · exact matrix (Option.some.inj (named.symm.trans indexing))
      · rw [unsliced] at sliced
        cases sliced

/-- No loop between constants is the inner one of a split. -/
theorem IsComplete.splitTripCount_eq_none (complete : plan.IsComplete vars)
    (parallel : plan.tree.root.kind = .parfor) (var : String) :
    plan.splitTripCount plan.tree.id var = .ok none := by
  by_cases single : ∃ inner, plan.tree.children = [inner] ∧ inner.root.kind = .parfor
  · obtain ⟨inner, children, loop⟩ := single
    have there : inner ∈ plan.tree.children := children ▸ List.mem_cons_self ..
    have below := PlanTree.mem_nodes_of_child there inner.root_mem_nodes
    obtain ⟨_, _, _, outer_known, -, -⟩ := complete.bounds _ plan.tree.root_mem_nodes parallel
    obtain ⟨innerBounds, first, _, inner_known, first_eq, -⟩ := complete.bounds _ below loop
    obtain ⟨outer, outer_eq, -⟩ := Option.bind_eq_some_iff.mp outer_known
    obtain ⟨nested, nested_eq, nested_bounds⟩ := Option.bind_eq_some_iff.mp inner_known
    -- The inner loop starts at a constant, so it does not run through a chunk.
    have constant : chunkCount var outer.bounds (some innerBounds) = .ok none := by
      unfold chunkCount
      split
      next relative =>
        obtain rfl := Option.some.inj relative
        cases first_eq
      next => rfl
    rw [splitTripCount_eq children loop outer_eq nested_eq, nested_bounds, constant]
    rfl
  · exact splitTripCount_of_not fun inner children loop => single ⟨inner, children, loop⟩

end Plan

end ParallelLoop
