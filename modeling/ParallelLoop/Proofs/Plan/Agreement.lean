/-
# Loops whose node and settings agree

A plan is in agreement when each parallel loop stands for a parallel block of its own, and its node
says of the place, of the workers and of three more decisions what the settings of the block
say. Decisions about loops keep a plan in agreement whether they succeed or fail, and so do
demotions. A split does so if the loop has one worker, which is what the inner loop
starts with.
-/

import ParallelLoop.Proofs.Plan.Drift

namespace ParallelLoop

/-! ## What a node says -/

namespace PlanNode

variable {node : PlanNode} {parameter other : Parameter} {text otherText : String}

/-- What is recorded for the parameter is this text, unless nothing is. -/
def Says (node : PlanNode) (parameter : Parameter) (text : String) : Prop :=
  ∀ recorded, node.param? parameter = some recorded → recorded = text

theorem Says.setParam_self (node : PlanNode) (parameter : Parameter) (text : String) :
    (node.setParam parameter text).Says parameter text := by
  intro recorded found
  rw [param?_setParam, if_pos rfl] at found
  exact (Option.some.inj found).symm

theorem Says.setParam_of_ne (said : node.Says parameter text) (different : parameter ≠ other) :
    (node.setParam other otherText).Says parameter text := by
  intro recorded found
  rw [param?_setParam, if_neg different] at found
  exact said recorded found

theorem Says.of_none (silent : node.param? parameter = none) : node.Says parameter text := by
  intro recorded found
  rw [silent] at found
  cases found

end PlanNode

namespace Plan

open Change (Maintains Respects)

variable {α : Type} {base plan after : Plan α} {id : NodeId} {node : PlanNode}
  {settings : ParallelSettings α}

/-- The node of a loop says what its settings say. -/
structure Matches (node : PlanNode) (settings : ParallelSettings α) : Prop where
  workers : SameWorkers node settings
  placement : SamePlacement node settings
  taskPartitioner : node.Says .taskPartitioner settings.taskPartitioner.name
  dataPartitioner : node.Says .dataPartitioner settings.dataPartitioner.name
  resultMerge : node.Says .resultMerge settings.resultMerge.name

theorem isKept_matches : IsKept (Matches (α := α)) where
  placement _ fits := { fits with placement := rfl }
  workers _ fits := { fits with workers := rfl }
  taskPartitioner _ fits :=
    { fits with
      taskPartitioner := .setParam_self _ _ _
      dataPartitioner := fits.dataPartitioner.setParam_of_ne nofun
      resultMerge := fits.resultMerge.setParam_of_ne nofun }
  dataPartitioner _ fits :=
    { fits with
      taskPartitioner := fits.taskPartitioner.setParam_of_ne nofun
      dataPartitioner := .setParam_self _ _ _
      resultMerge := fits.resultMerge.setParam_of_ne nofun }
  resultMerge _ fits :=
    { fits with
      taskPartitioner := fits.taskPartitioner.setParam_of_ne nofun
      dataPartitioner := fits.dataPartitioner.setParam_of_ne nofun
      resultMerge := .setParam_self _ _ _ }
  recompileBudget _ fits := { fits with }
  colocated _ fits := { fits with }
  numIterations _ fits :=
    { fits with
      taskPartitioner := fits.taskPartitioner.setParam_of_ne nofun
      dataPartitioner := fits.dataPartitioner.setParam_of_ne nofun
      resultMerge := fits.resultMerge.setParam_of_ne nofun }

/-- The new node of a split says nothing about the tasks, and it has one worker. -/
theorem matches_innerNode (plan : Plan α) (chunk : Nat) (one : settings.workers = 1) :
    Matches (plan.innerNode chunk) { settings with mode := .inProcess } where
  workers := one
  placement := rfl
  taskPartitioner := .of_none rfl
  dataPartitioner := .of_none rfl
  resultMerge := .of_none rfl

/-! ## Plans in agreement -/

/-- Every loop stands for a parallel block, and no two loops for the same one. -/
structure BindsLoops (plan : Plan α) : Prop where
  kinds : ∀ loop ∈ plan.tree.nodes, loop.kind = .parfor → ∀ id, loop.block = some id →
    plan.program.kind? id = some .parfor
  apart : ∀ first ∈ plan.tree.nodes, first.kind = .parfor → ∀ second ∈ plan.tree.nodes,
    second.kind = .parfor → ∀ id, first.block = some id → second.block = some id →
      first.id = second.id

theorem BindsLoops.of_layout (binds : base.BindsLoops) (same : plan.layout = base.layout) :
    plan.BindsLoops where
  kinds loop there parallel id block_eq := by
    obtain ⟨twin, inside, -, kind_eq, twin_eq⟩ := exists_node_of_layout same there
    rw [Program.kind?_of_shape (shape_of_layout same)]
    exact binds.kinds twin inside (kind_eq ▸ parallel) id (twin_eq ▸ block_eq)
  apart first there parallel second alsoThere alsoParallel id block_eq alsoBlock_eq := by
    obtain ⟨twin, inside, id_eq, kind_eq, twin_eq⟩ := exists_node_of_layout same there
    obtain ⟨other, alsoInside, alsoId_eq, alsoKind_eq, other_eq⟩ :=
      exists_node_of_layout same alsoThere
    rw [id_eq, alsoId_eq]
    exact binds.apart twin inside (kind_eq ▸ parallel) other alsoInside (alsoKind_eq ▸ alsoParallel)
      id (twin_eq ▸ block_eq) (other_eq ▸ alsoBlock_eq)

theorem BindsLoops.isApart (binds : plan.BindsLoops) (distinct : plan.tree.ids.Nodup)
    (loop : plan.IsLoop id) : plan.IsApart id := by
  obtain ⟨node, inside, rfl, alsoParallel⟩ := loop
  intro other there parallel blockId block_eq bound
  obtain ⟨twin, alsoInside, same, twin_eq⟩ := exists_node_of_blockOf bound
  obtain rfl := PlanTree.eq_of_id_eq distinct alsoInside inside same
  exact binds.apart other there parallel twin inside alsoParallel blockId block_eq twin_eq

/-- A loop after a split is the new one, or it was there and stands for the same block. -/
theorem origin_of_splitLoop (numbered : plan.tree.IsNumbered) {chunk : Nat} {var : String}
    {inner : NodeId} (done : (splitLoop id chunk var).result plan = (.ok inner, after))
    (there : node ∈ after.tree.nodes) (parallel : node.kind = .parfor) :
    node = plan.innerNode (max chunk 1) ∨ ∃ twin ∈ plan.tree.nodes, twin.kind = .parfor ∧
      node.id = twin.id ∧ node.block = twin.block := by
  obtain ⟨-, count, mem_iff⟩ := nodes_splitLoop numbered done
  rcases (mem_iff node).mp there with rfl | ⟨twin, before, rfl⟩
  · exact .inl rfl
  · refine .inr ⟨twin, before, ?_⟩
    by_cases here : twin.id = id
    · rw [if_pos here] at parallel ⊢
      exact ⟨parallel, rfl, rfl⟩
    · rw [if_neg here] at parallel ⊢
      exact ⟨parallel, rfl, rfl⟩

/-- A split adds a parallel block. -/
theorem kind?_splitLoop {chunk : Nat} {var : String} {inner : NodeId}
    (done : (splitLoop id chunk var).result plan = (.ok inner, after)) (other : BlockId) :
    after.program.kind? other =
      if other = plan.program.nextBlock then some .parfor else plan.program.kind? other := by
  obtain ⟨_, _, _, _, _, _, _, -, -, -, -, -, -, -, -, program_eq⟩ := of_splitLoop done
  rw [program_eq, Program.kind?_modifyBlock, Program.kind?_addBlock]
  · rfl
  · exact fun _ => rfl

/-- The loops stand for blocks that are there already. -/
theorem BindsLoops.block_ne_next (binds : plan.BindsLoops) (there : node ∈ plan.tree.nodes)
    (parallel : node.kind = .parfor) {own : BlockId} (block_eq : node.block = some own) :
    own ≠ plan.program.nextBlock :=
  Program.ne_nextBlock (Program.index_lt_of_kind? (binds.kinds node there parallel own block_eq))

theorem BindsLoops.splitLoop (binds : plan.BindsLoops) (numbered : plan.tree.IsNumbered)
    {chunk : Nat} {var : String} {inner : NodeId}
    (done : (splitLoop id chunk var).result plan = (.ok inner, after)) : after.BindsLoops where
  -- A loop after the split is the new one or was there before, under the same block.
  kinds loop there parallel own block_eq := by
    rw [kind?_splitLoop done]
    split
    next => rfl
    next different =>
      rcases origin_of_splitLoop numbered done there parallel with
        rfl | ⟨twin, before, kind, -, twin_eq⟩
      · exact absurd (Option.some.inj block_eq).symm different
      · exact binds.kinds twin before kind own (twin_eq ▸ block_eq)
  apart first there parallel second alsoThere alsoParallel own block_eq alsoBlock_eq := by
    rcases origin_of_splitLoop numbered done there parallel with
      rfl | ⟨twin, before, kind, id_eq, twin_eq⟩
    · rcases origin_of_splitLoop numbered done alsoThere alsoParallel with
        rfl | ⟨twin, before, kind, -, twin_eq⟩
      · rfl
      · rw [twin_eq] at alsoBlock_eq
        exact absurd (Option.some.inj block_eq).symm (binds.block_ne_next before kind alsoBlock_eq)
    · rw [twin_eq] at block_eq
      rcases origin_of_splitLoop numbered done alsoThere alsoParallel with
        rfl | ⟨other, alsoBefore, alsoKind, other_id, other_eq⟩
      · exact absurd (Option.some.inj alsoBlock_eq).symm (binds.block_ne_next before kind block_eq)
      · rw [id_eq, other_id]
        exact binds.apart twin before kind other alsoBefore alsoKind own block_eq
          (other_eq ▸ alsoBlock_eq)

theorem BindsLoops.demote (binds : plan.BindsLoops) (distinct : plan.tree.ids.Nodup)
    (done : (demote id).result plan = (.ok (), after)) : after.BindsLoops := by
  obtain ⟨old, block, bounds, -, -, -, -, program_eq⟩ := of_demote done
  constructor
  · intro loop there parallel own block_eq
    have before := mem_of_demote distinct done there parallel
    rw [program_eq, Program.kind?_replaceBlock,
      if_neg (binds.block_ne_next before parallel block_eq)]
    exact binds.kinds loop before parallel own block_eq
  · intro first there parallel second alsoThere alsoParallel
    exact binds.apart first (mem_of_demote distinct done there parallel) parallel second
      (mem_of_demote distinct done alsoThere alsoParallel) alsoParallel

/-- Each loop stands for a parallel block of its own, whose settings say what its node says. -/
structure InAgreement (plan : Plan α) : Prop extends BindsLoops plan where
  agrees : plan.Agrees Matches

namespace InAgreement

theorem fits (agreement : plan.InAgreement) (distinct : plan.tree.ids.Nodup)
    (there : node ∈ plan.tree.nodes) (parallel : node.kind = .parfor)
    (read : plan.settings node.id = .ok settings) : Matches node settings := by
  obtain ⟨blockId, held, block_eq, found, fit⟩ := agreement.agrees node there parallel
  have bound := blockOf_eq distinct there block_eq
  have alsoRead := settings_eq_ok_iff_block.mpr ⟨blockId, bound, found⟩
  obtain rfl := Except.ok.inj (read.symm.trans alsoRead)
  exact fit

/-- Splitting a loop with one worker. -/
theorem splitLoop (agreement : plan.InAgreement) (numbered : plan.tree.IsNumbered)
    (there : node ∈ plan.tree.nodes) (parallel : node.kind = .parfor) (serial : node.workers = 1)
    {chunk : Nat} {var : String} {inner : NodeId}
    (done : (splitLoop node.id chunk var).result plan = (.ok inner, after)) :
    after.InAgreement := by
  have binds := agreement.toBindsLoops
  have apart := binds.isApart numbered.distinct ⟨node, there, rfl, parallel⟩
  refine ⟨binds.splitLoop numbered done, ?_⟩
  refine agreement.agrees.splitLoop isKept_matches numbered apart (fun settings read => ?_) done
  have fit := agreement.fits numbered.distinct there parallel read
  exact matches_innerNode plan _ (fit.workers.trans serial)

theorem demote (agreement : plan.InAgreement) (distinct : plan.tree.ids.Nodup)
    (done : (demote id).result plan = (.ok (), after)) : after.InAgreement :=
  ⟨agreement.toBindsLoops.demote distinct done, agreement.agrees.demote distinct done⟩

end InAgreement

/-- Demoting keeps a numbered plan in agreement, also when it fails. -/
theorem respects_demote : Respects
    (Maintains fun plan : Plan α => plan.tree.IsNumbered ∧ plan.InAgreement) (demote id) := by
  intro plan ⟨numbered, agreement⟩
  rcases step : (demote id).result plan with ⟨outcome, after⟩
  cases outcome with
  | error cause =>
    have atomic : Change.IsAtomic (Operation.demote.run id : Change (Plan α) Unit) :=
      Operation.isAtomic_run nofun
    obtain rfl : after = plan := atomic _ _ _ step
    exact ⟨numbered, agreement⟩
  | ok _ =>
    have done : (Operation.demote.run id).result plan = (.ok (), after) := step
    exact ⟨Operation.isNumbered_of_run numbered done, agreement.demote numbered.distinct done⟩

/-! ## Decisions -/

/-- A plan with the layout of another one that is in agreement. -/
structure Continues (base plan : Plan α) : Prop where
  layout : plan.layout = base.layout
  agreement : plan.InAgreement

namespace Continues

theorem isNumbered (here : Continues base plan) (numbered : base.tree.IsNumbered) :
    plan.tree.IsNumbered :=
  isNumbered_of_layout numbered here.layout

theorem isApart (here : Continues base plan) (numbered : base.tree.IsNumbered)
    (loop : base.IsLoop id) : plan.IsApart id :=
  here.agreement.isApart (here.isNumbered numbered).distinct
    (isLoop_of_layout here.layout.symm loop)

theorem isLoop (here : Continues base plan) (there : node ∈ plan.tree.nodes)
    (parallel : node.kind = .parfor) : base.IsLoop node.id :=
  isLoop_of_layout here.layout ⟨node, there, rfl, parallel⟩

theorem parallel_root (here : Continues base plan) (parallel : base.tree.root.kind = .parfor) :
    plan.tree.root.kind = .parfor := (root_kind_of_layout here.layout).trans parallel

theorem isLoop_root (here : Continues base plan) (parallel : base.tree.root.kind = .parfor) :
    base.IsLoop plan.tree.id :=
  here.isLoop (PlanTree.root_mem_nodes _) (here.parallel_root parallel)

theorem headId?_eq (here : Continues base plan) : plan.tree.headId? = base.tree.headId? := by
  have plain (tree : PlanTree) : (tree.mapNodes PlanNode.undecided).headId? = tree.headId? := by
    apply PlanTree.headId?_mapNodes
    exact fun _ => rfl
  rw [← plain, undecided_of_layout here.layout, plain]

end Continues

/-- The operation is about one node and keeps the layout. -/
def Operation.IsDecision : Operation α → Prop
  | serialize | splitLoop _ _ | demote => False
  | _ => True

/-- A decision that suits the plans in agreement keeps them so, also when it fails. -/
theorem respects_run (operation : Operation α) (decides : operation.IsDecision)
    (numbered : base.tree.IsNumbered)
    (suits : ∀ plan, Continues base plan → operation.Suits plan id) :
    Respects (Maintains (Continues base)) (operation.run id) := by
  intro plan here
  rcases step : (operation.run id).result plan with ⟨outcome, after⟩
  cases outcome with
  | error cause =>
    have single : operation ≠ .serialize := by
      rintro rfl
      exact decides
    have unchanged : after = plan := Operation.isAtomic_run single _ _ _ step
    exact unchanged ▸ here
  | ok _ =>
    have whole (chunk : Nat) (var : String) : operation ≠ .splitLoop chunk var := by
      rintro rfl
      exact decides
    have loops : operation ≠ .demote := by
      rintro rfl
      exact decides
    have layout : after.layout = plan.layout := (Operation.preserves_layout_run whole loops).eq step
    refine ⟨layout.trans here.layout, here.agreement.of_layout layout, ?_⟩
    exact Operation.agrees_of_run isKept_matches here.agreement.agrees (here.isNumbered numbered)
      (suits plan here) (fun chunk var _ same => absurd same (whole chunk var)) step

end Plan

end ParallelLoop
