/-
# Agreement through a pass

A pass keeps a plan in agreement, and since it is no transaction, this has to be so after every step
of it: a rule that fails leaves what the steps before it decided. The rules decide about the loops
of the plan that they look at, and up to the fourth rule and from there on this is always the same
layout. The fourth rule splits a loop that has one worker, because the pass has made it serial.

After a pass that succeeds, the seventh rule has decided for every loop that is left how its results
are put together, and the loops that the ninth rule has demoted stand for sequential blocks.
-/

import ParallelLoop.Proofs.Optimizer.Demotion
import ParallelLoop.Proofs.Optimizer.Executing
import ParallelLoop.Proofs.Optimizer.Workers
import ParallelLoop.Proofs.Plan.Agreement
import ParallelLoop.Proofs.Plan.Recognition

namespace ParallelLoop

open Change (Maintains Preserves Respects)

variable {α β γ : Type}

/-! ## Steps that may fail -/

namespace Pass

/-- Whatever comes of the step, the plan that it leaves has the property. -/
def Leaves (property : Plan α → Prop) (step : Pass α β) (plan : Plan α) : Prop :=
  ∀ log, property (step.result { plan, log }).2.plan

namespace Leaves

variable {property inner : Plan α → Prop} {plan after : Plan α} {value : β}

theorem of_leads {step : Pass α β} (leaves : Leaves property step plan)
    (leads : step.Leads plan value after) : property after := by
  obtain ⟨log, logAfter, done⟩ := leads
  simpa [done] using leaves log

theorem of_respects {step : Pass α β} (kept : Respects (Across (Maintains property)) step)
    (here : property plan) : Leaves property step plan := fun _ => kept _ here

theorem bind {first : Pass α β} {next : β → Pass α γ} (start : Leaves property first plan)
    (rest : ∀ value mid, first.Leads plan value mid → Leaves property (next value) mid) :
    Leaves property (first >>= next) plan := by
  intro log
  have left := start log
  rcases step : first.result { plan, log } with ⟨outcome, state⟩
  cases outcome with
  | error cause =>
    rw [step] at left
    rwa [Change.result_bind_error step]
  | ok value =>
    rw [Change.result_bind step]
    exact rest value state.plan ⟨log, state.log, step⟩ state.log

/-- A step that maintains more than has to be shown. -/
theorem through {first : Pass α β} {next : β → Pass α γ}
    (implies : ∀ plan, inner plan → property plan)
    (kept : Respects (Across (Maintains inner)) first) (here : inner plan)
    (rest : ∀ value mid, first.Leads plan value mid → inner mid →
      Leaves property (next value) mid) :
    Leaves property (first >>= next) plan := by
  have start : Leaves inner first plan := of_respects kept here
  exact bind (fun log => implies _ (start log)) fun value mid leads =>
    rest value mid leads (start.of_leads leads)

theorem readPlan_bind {next : Plan α → Pass α γ} (rest : Leaves property (next plan) plan) :
    Leaves property (Pass.plan >>= next) plan := by
  intro log
  rw [Change.result_bind (result_plan _)]
  exact rest log

theorem say_bind {level : LogLevel} {text : String} {next : Unit → Pass α γ}
    (rest : Leaves property (next ()) plan) : Leaves property (say level text >>= next) plan := by
  intro log
  rw [say, Change.result_bind (Change.result_modify _ _)]
  exact rest _

end Leaves

end Pass

open Pass

/-! ## Rules that keep the layout -/

namespace PlanningRule

variable {base plan : Plan α} {context : PassContext α}

/-- Nothing has to be kept of other plans. -/
theorem maintains_of_not {property : Plan α → Prop} (before after : Plan α)
    (other : ¬ property before) : Maintains property before after :=
  fun here => absurd here other

variable (context) (numbered : base.tree.IsNumbered) (parallel : base.tree.root.kind = .parfor)

include numbered parallel

theorem continues_dataPartitioner [Quantity α] :
    Respects (Across (Maintains (Plan.Continues base))) (runDataPartitioner context) := by
  refine respects_dataPartitioner_within context maintains_of_not ?_ ?_
  · intro plan here tree inside input format slice
    refine Plan.respects_run (.setPartitionFormat format slice) trivial numbered ?_
    intro other alsoHere loop there isLoop same
    -- The operator has the id of no loop, since plans of one layout have the same loops.
    obtain ⟨twin, alsoInside, id_eq, kind_eq, -⟩ :=
      Plan.exists_node_of_layout (alsoHere.layout.trans here.layout.symm) there
    have root : tree.root ∈ plan.tree.nodes := List.mem_map_of_mem inside
    obtain rfl := PlanTree.eq_of_id_eq (here.isNumbered numbered).distinct alsoInside root
      (id_eq.symm.trans same)
    simp only [isPartitionable, isOperator, Bool.and_eq_true, beq_iff_eq] at input
    have operator : loop.kind = .hop := kind_eq.trans input.1.1.2
    rw [isLoop] at operator
    cases operator
  · intro plan here partitioner
    exact Plan.respects_run (.setDataPartitioner partitioner) trivial numbered fun other alsoHere =>
      alsoHere.isApart numbered (here.isLoop_root parallel)

theorem continues_executionStrategy [Quantity α] :
    Respects (Across (Maintains (Plan.Continues base))) (runExecutionStrategy context) :=
  respects_executionStrategy_within context maintains_of_not fun _ here placement =>
    Plan.respects_run (.setPlacement placement) trivial numbered fun _ alsoHere =>
      alsoHere.isApart numbered (here.isLoop_root parallel)

theorem continues_colocation :
    Respects (Across (Maintains (Plan.Continues base))) (runColocation context) :=
  respects_colocation_within context maintains_of_not fun _ here matrix =>
    Plan.respects_run (.setColocated matrix) trivial numbered fun _ alsoHere =>
      alsoHere.isApart numbered (here.isLoop_root parallel)

omit parallel in
theorem continues_setWorkers {id : NodeId} (loop : base.IsLoop id) (workers : Nat) :
    Respects (Maintains (Plan.Continues base)) (Plan.setWorkers id workers) :=
  Plan.respects_run (.setWorkers workers) trivial numbered fun _ here => here.isApart numbered loop

omit parallel in
theorem continues_serialize {id : NodeId} :
    Respects (Maintains (Plan.Continues base)) (Plan.serialize id) :=
  Plan.respects_serialize_within maintains_of_not fun _ here _ there loop =>
    continues_setWorkers numbered (here.isLoop there loop) 1

theorem continues_degreeOfParallelism [Quantity α] :
    Respects (Across (Maintains (Plan.Continues base))) (runDegreeOfParallelism context) := by
  refine respects_degreeOfParallelism_within context maintains_of_not ?_ ?_
  · rintro plan here node there (root | loop) workers
    · exact continues_setWorkers numbered (root ▸ here.isLoop_root parallel) workers
    · exact continues_setWorkers numbered (here.isLoop there loop) workers
  · exact fun _ _ _ _ => continues_serialize numbered

/-- If the loop is taken for one that was split, the first node in it is a loop. -/
theorem continues_taskPartitioner
    (inner : context.nested = true → ∀ id, base.tree.headId? = some id → base.IsLoop id) :
    Respects (Across (Maintains (Plan.Continues base))) (runTaskPartitioner context) := by
  have cuts {id : NodeId} (loop : base.IsLoop id) (kind : PartitionerKind) :
      Respects (Maintains (Plan.Continues base)) (Plan.setTaskPartitioner id kind) :=
    Plan.respects_run (.setTaskPartitioner kind) trivial numbered fun _ here =>
      here.isApart numbered loop
  refine respects_taskPartitioner_within context maintains_of_not ?_ ?_
  · exact fun plan here => cuts (here.isLoop_root parallel)
  · intro nested plan here head rest children
    refine cuts (inner nested head.id ?_)
    rw [← here.headId?_eq, PlanTree.headId?, children]
    rfl

theorem continues_resultMerge :
    Respects (Across (Maintains (Plan.Continues base))) (runResultMerge context) := by
  have merges {id : NodeId} (loop : base.IsLoop id) (merge : ResultMerge) :
      Respects (Maintains (Plan.Continues base)) (Plan.setResultMerge id merge) :=
    Plan.respects_run (.setResultMerge merge) trivial numbered fun _ here =>
      here.isApart numbered loop
  refine respects_resultMerge_within context maintains_of_not ?_
  rintro plan here node there (root | loop)
  · exact merges (root ▸ here.isLoop_root parallel)
  · exact merges (here.isLoop there loop)

theorem continues_recompileBudget [Quantity α] :
    Respects (Across (Maintains (Plan.Continues base))) (runRecompileBudget context) :=
  respects_recompileBudget_within context maintains_of_not fun _ here budget =>
    Plan.respects_run (.setRecompileBudget budget) trivial numbered fun _ alsoHere =>
      alsoHere.isApart numbered (here.isLoop_root parallel)

end PlanningRule

/-! ## The walk through a pass -/

namespace Optimizer

open PlanningRule

variable {optimizer : Optimizer α} {vars : Variables} {base plan after : Plan α}
  {context : PassContext α}

/-- Splitting a loop with one worker, or not. -/
theorem leaves_nestedParallelism [Quantity α] (numbered : plan.tree.IsNumbered)
    (agreement : plan.InAgreement) (parallel : plan.tree.root.kind = .parfor)
    (single : plan.tree.root.workers = 1) :
    Leaves Plan.InAgreement (runNestedParallelism context) plan := by
  have divided (chunk : Nat) (var : String) :
      Leaves Plan.InAgreement (onPlan (Plan.splitLoop plan.tree.id chunk var)) plan := by
    intro log
    rw [result_onPlan]
    rcases step : (Plan.splitLoop plan.tree.id chunk var).result plan with ⟨outcome, after⟩
    -- A split that fails leaves the plan as it was.
    cases outcome with
    | error cause =>
      obtain rfl : after = plan := Plan.isAtomic_splitLoop chunk var _ _ _ step
      exact agreement
    | ok inner =>
      exact agreement.splitLoop numbered plan.tree.root_mem_nodes parallel single step
  refine .readPlan_bind ?_
  dsimp only
  split
  next =>
    refine .bind (divided _ _) fun _ mid leads => ?_
    exact .of_respects (.bind (.pure _) fun _ => .bind (respects_report _ _) fun _ => .pure _)
      ((divided _ _).of_leads leads)
  next =>
    exact .of_respects (.bind (.pure _) fun _ => .bind (respects_report _ _) fun _ => .pure _)
      agreement

/-- What nothing decides about workers shows in the topmost node. -/
theorem root_workers_eq (layout : after.layout = plan.layout)
    (same : after.decided .workers = plan.decided .workers) :
    after.tree.root.workers = plan.tree.root.workers := by
  have root := congrArg Prod.fst (congrFun same plan.tree.id)
  rw [Plan.decided, Plan.decided, PlanTree.node?_root, ← Plan.id_of_layout layout,
    PlanTree.node?_root] at root
  exact Option.some.inj root

theorem leaves_unnecessaryLoops (numbered : plan.tree.IsNumbered) (agreement : plan.InAgreement) :
    Leaves Plan.InAgreement runUnnecessaryLoops plan := fun log =>
  (respects_unnecessaryLoops Plan.respects_demote { plan, log } ⟨numbered, agreement⟩).2

theorem respects_estimate {relation : Plan α → Plan α → Prop} [IsPreorder (Plan α) relation]
    (asked : Nat) : Respects (Across relation) (optimizer.estimate asked) :=
  .bind respects_plan fun _ => .ofExcept _

variable [Quantity α]

theorem respects_prepare {relation : Plan α → Plan α → Prop} [IsPreorder (Plan α) relation]
    (serializes : ∀ {id : NodeId}, Respects relation (Plan.serialize id)) :
    Respects (Across relation) (optimizer.prepare vars) := by
  refine .bind respects_plan fun plan => ?_
  -- The steps after the check that the root is a parallel loop.
  have rest : Respects (Across relation) (do
      Pass.report "analyze infrastructure properties"
      let infrastructure ← Change.ofExcept optimizer.probe.resolve
      let context ← Change.ofOutcome
        (PassContext.ofPlan optimizer.settings vars infrastructure (← Pass.plan))
      Pass.report ("optimize with local_max_mem=" ++ Quantity.megabytes context.localMemory ++
        " and remote_max_mem=" ++ Quantity.megabytes context.remoteMemory)
      Pass.onPlan (Plan.serialize plan.tree.root.id)
      let footprint ← optimizer.estimate 0
      Pass.report ("estimated mem (serial exec) M=" ++ Quantity.megabytes footprint)
      return { context with footprint } : Pass α (PassContext α)) :=
    .bind (Pass.respects_report _) fun _ => .bind (.ofExcept _) fun _ =>
      .bind respects_plan fun _ => .bind (.ofOutcome _) fun _ =>
      .bind (Pass.respects_report _) fun _ => .bind (respects_onPlan serializes) fun _ =>
      .bind (respects_estimate 0) fun _ => .bind (Pass.respects_report _) fun _ => .pure _
  dsimp only
  split
  next => exact .bind (.fail _) fun _ => rest
  next => exact rest

theorem respects_reestimate {relation : Plan α → Plan α → Prop} [IsPreorder (Plan α) relation] :
    Respects (Across relation) (optimizer.reestimate context) :=
  .bind (respects_estimate 1) fun _ => .bind (Pass.respects_report _) fun _ => .pure _

/-- What a pass takes for a loop that was split starts with a loop. -/
theorem isLoop_head_of_ofPlan {settings : OptimizerSettings α} {infrastructure : Infrastructure}
    (done : PassContext.ofPlan settings vars infrastructure plan = .ok context)
    (nested : context.nested = true) {id : NodeId} (head : plan.tree.headId? = some id) :
    plan.IsLoop id := by
  obtain ⟨split, iterations, split_eq, -, rfl⟩ := PassContext.of_ofPlan done
  by_cases found : ∃ inner, plan.tree.children = [inner] ∧ inner.root.kind = .parfor
  · obtain ⟨inner, children, loop⟩ := found
    rw [PlanTree.headId?, children] at head
    obtain rfl : inner.id = id := Option.some.inj head
    have child : inner ∈ plan.tree.children := children ▸ List.mem_singleton_self inner
    exact ⟨inner.root, PlanTree.mem_nodes_of_child child inner.root_mem_nodes, rfl, loop⟩
  · have whole : plan.splitTripCount plan.tree.id settings.nestedVar = .ok none :=
      Plan.splitTripCount_of_not fun inner children loop => found ⟨inner, children, loop⟩
    obtain rfl := Except.ok.inj (split_eq.symm.trans whole)
    cases nested

/-- The fourth rule keeps the nodes numbered and the loop parallel. -/
theorem numbered_of_nestedParallelism {last : PassContext α} (numbered : plan.tree.IsNumbered)
    (parallel : plan.tree.root.kind = .parfor)
    (leads : (runNestedParallelism context).Leads plan last after) :
    after.tree.IsNumbered ∧ after.tree.root.kind = .parfor := by
  rcases of_nestedParallelism leads with ⟨rfl, rfl⟩ | ⟨rfl, -, _, divided⟩
  · exact ⟨numbered, parallel⟩
  · obtain ⟨root, outer, inner, children, top, split⟩ := Plan.exists_split numbered.distinct divided
    rw [split.before] at parallel
    refine ⟨split.isNumbered numbered, ?_⟩
    rw [split.tree_eq]
    exact split.outer_kind.trans parallel

/-- A loop that is split starts with a loop. -/
theorem isLoop_head_of_nestedParallelism {last : PassContext α} (distinct : plan.tree.ids.Nodup)
    (leads : (runNestedParallelism context).Leads plan last after)
    (inner : context.nested = true → ∀ id, plan.tree.headId? = some id → plan.IsLoop id)
    (nested : last.nested = true) (id : NodeId) (head : after.tree.headId? = some id) :
    after.IsLoop id := by
  rcases of_nestedParallelism leads with ⟨rfl, rfl⟩ | ⟨rfl, -, _, divided⟩
  · exact inner nested id head
  · obtain ⟨root, outer, inner, children, top, split⟩ := Plan.exists_split distinct divided
    rw [split.tree_eq] at head
    obtain rfl : inner.id = id := Option.some.inj head
    exact ⟨inner, split.nodes_eq ▸ by simp, rfl, split.inner_kind⟩

theorem leaves_laterRules (numbered : plan.tree.IsNumbered)
    (parallel : plan.tree.root.kind = .parfor) (agreement : plan.InAgreement)
    (inner : context.nested = true → ∀ id, plan.tree.headId? = some id → plan.IsLoop id) :
    Leaves Plan.InAgreement (laterRules context) plan := by
  have implies (other : Plan α) : Plan.Continues plan other → other.InAgreement :=
    Plan.Continues.agreement
  -- Until loops are demoted the layout stays, and with it what is known of the loops.
  have here : Plan.Continues plan plan := ⟨rfl, agreement⟩
  refine .say_bind ?_
  refine .through implies (continues_degreeOfParallelism _ numbered parallel) here ?_
  intro _ distributed _ atDistributed
  refine .say_bind ?_
  refine .through implies (continues_taskPartitioner _ numbered parallel inner) atDistributed ?_
  intro _ tasked _ atTasked
  refine .say_bind ?_
  refine .through implies (continues_resultMerge _ numbered parallel) atTasked ?_
  intro _ merged _ atMerged
  refine .say_bind ?_
  refine .through implies (continues_recompileBudget _ numbered parallel) atMerged ?_
  intro _ budgeted _ atBudgeted
  refine .say_bind ?_
  have demoting := leaves_unnecessaryLoops (atBudgeted.isNumbered numbered) atBudgeted.agreement
  exact .bind demoting fun removed final demoted =>
    .of_respects (.pure _) (demoting.of_leads demoted)

theorem leaves_applyRules (numbered : base.tree.IsNumbered)
    (parallel : base.tree.root.kind = .parfor) (here : Plan.Continues base plan)
    (single : plan.tree.root.workers = 1)
    (inner : context.nested = true → ∀ id, base.tree.headId? = some id → base.IsLoop id) :
    Leaves Plan.InAgreement (optimizer.applyRules context) plan := by
  have implies (other : Plan α) : Plan.Continues base other → other.InAgreement :=
    Plan.Continues.agreement
  rw [applyRules_eq]
  refine .say_bind ?_
  refine .through implies (continues_dataPartitioner _ numbered parallel) here ?_
  intro _ partitioned first stillHere
  refine .through implies respects_reestimate stillHere ?_
  intro known _ asked _
  obtain ⟨footprint, -, rfl, rfl⟩ := of_reestimate asked
  refine .say_bind ?_
  refine .through implies (continues_executionStrategy _ numbered parallel) stillHere ?_
  intro _ placed second atPlaced
  refine .say_bind ?_
  refine .through implies (continues_colocation _ numbered parallel) atPlaced ?_
  intro _ colocated third atColocated
  have one : colocated.tree.root.workers = 1 := by
    have partitioned_eq := root_workers_eq (stillHere.layout.trans here.layout.symm)
      (first.related (respects_dataPartitioner _
        (fun _ _ => Plan.preserves_decided_setPartitionFormat fun _ => rfl)
        fun _ => Plan.preserves_decided ⟨fun _ => rfl, fun _ => rfl⟩ (fun _ => rfl) fun _ => rfl))
    have placed_eq := root_workers_eq (atPlaced.layout.trans stillHere.layout.symm)
      (second.related (respects_executionStrategy _
        fun _ => Plan.preserves_decided_setPlacement (fun _ => rfl) fun _ => rfl))
    have colocated_eq := root_workers_eq (atColocated.layout.trans atPlaced.layout.symm)
      (third.related (respects_colocation _
        fun _ => Plan.preserves_decided_updateSettings fun _ => rfl))
    rw [colocated_eq, placed_eq, partitioned_eq, single]
  have numberedThen := atColocated.isNumbered numbered
  have parallelThen := atColocated.parallel_root parallel
  have innerThen (nested : context.nested = true) (id : NodeId)
      (head : colocated.tree.headId? = some id) : colocated.IsLoop id := by
    rw [atColocated.headId?_eq] at head
    exact Plan.isLoop_of_layout atColocated.layout.symm (inner nested id head)
  have nesting : Leaves Plan.InAgreement (runNestedParallelism { context with footprint })
      colocated := leaves_nestedParallelism numberedThen atColocated.agreement parallelThen one
  refine .say_bind ?_
  refine .bind nesting ?_
  intro last split fourth
  -- From here on the layout is that of the plan that may have been split.
  obtain ⟨splitNumbered, splitParallel⟩ :=
    numbered_of_nestedParallelism numberedThen parallelThen fourth
  exact leaves_laterRules splitNumbered splitParallel (nesting.of_leads fourth)
    (isLoop_head_of_nestedParallelism numberedThen.distinct fourth innerThen)

/-- Whatever comes of a pass, it leaves a plan in agreement. -/
theorem leaves_pass (numbered : plan.tree.IsNumbered) (agreement : plan.InAgreement) :
    Leaves Plan.InAgreement (optimizer.pass vars) plan := by
  have implies : ∀ other, Plan.Continues plan other → other.InAgreement :=
    fun _ => Plan.Continues.agreement
  refine .through implies (respects_prepare (continues_serialize numbered)) ⟨rfl, agreement⟩ ?_
  intro context serial prepared atSerial
  obtain ⟨infrastructure, blank, footprint, parallel, -, ofPlan, serialized, -, rfl⟩ :=
    of_prepare prepared
  have serial_eq := Plan.tree_serialize numbered.distinct (PlanTree.self_mem_subtrees _) serialized
  have there := serial.tree.root_mem_nodes
  rw [congrArg PlanTree.nodes serial_eq] at there
  -- Preparing has serialized the plan, so its root is left with one worker.
  have single : serial.tree.root.workers = 1 :=
    Plan.workers_serial there (atSerial.parallel_root parallel)
  have applying : Leaves Plan.InAgreement (optimizer.applyRules { blank with footprint }) serial :=
    leaves_applyRules numbered parallel atSerial single fun nested id =>
      isLoop_head_of_ofPlan ofPlan nested
  refine .bind applying ?_
  intro result final applied
  refine .of_respects ?_ (applying.of_leads applied)
  exact .bind (respects_summarize _ _ _) fun _ => .bind respects_plan fun _ =>
    .bind (respects_say _ _) fun _ => .pure _

end Optimizer

/-! ## Loops that remain, and loops that do not -/

namespace Plan

variable {plan after : Plan α} {id other : NodeId} {node : PlanNode}

/-- How the results of the loop are put together is recorded. -/
def IsMerged (plan : Plan α) (id : NodeId) : Prop :=
  ∃ node text, plan.tree.node? id = some node ∧ node.param? .resultMerge = some text

/-- What is recorded for one loop stays when it is decided for another one. -/
theorem maintains_isMerged (merge : ResultMerge) :
    Respects (Maintains fun plan : Plan α => plan.IsMerged id) (setResultMerge other merge) := by
  have settings := (preserves_tree_updateSettings (α := α) other fun settings =>
    { settings with resultMerge := merge }).maintains fun tree => ∃ node text,
      tree.node? id = some node ∧ node.param? .resultMerge = some text
  refine .bind settings fun _ => .modify fun plan ⟨node, text, found, recorded⟩ => ?_
  have keeps (node : PlanNode) : (node.setParam .resultMerge merge.name).id = node.id := rfl
  change ∃ node text, (plan.tree.update other _).node? id = some node ∧ _
  rw [PlanTree.node?_update keeps]
  split
  next here =>
    rw [← here, found]
    exact ⟨_, merge.name, rfl, by rw [PlanNode.param?_setParam, if_pos rfl]⟩
  next => exact ⟨node, text, found, recorded⟩

theorem isMerged_of_setResultMerge {merge : ResultMerge}
    (done : (setResultMerge id merge).result plan = (.ok (), after)) : after.IsMerged id := by
  obtain ⟨node, -, found, -, recorded, -⟩ := of_decided (decided_setResultMerge done)
  exact ⟨node, merge.name, found, recorded⟩

/-- The node stands for a sequential loop. -/
structure IsSequential (plan : Plan α) (node : PlanNode) : Prop where
  kind : node.kind = .for
  bound : ∃ id, node.block = some id ∧ plan.program.kind? id = some .for ∧
    plan.program.settings? id = none

/-- It does so whatever is demoted after it. -/
theorem maintains_isSequential :
    Respects (Maintains fun plan : Plan α => plan.IsSequential node) (demote id) := by
  intro plan sequential
  rcases step : (demote id).result plan with ⟨outcome, after⟩
  cases outcome with
  | error cause =>
    have atomic : Change.IsAtomic (Operation.demote.run id : Change (Plan α) Unit) :=
      Operation.isAtomic_run nofun
    obtain rfl : after = plan := atomic _ _ _ step
    exact sequential
  | ok _ =>
    obtain ⟨old, block, bounds, -, -, -, -, program_eq⟩ := of_demote step
    obtain ⟨own, block_eq, kind, none⟩ := sequential.bound
    -- The block of the node was there before, and demoting a loop only adds one.
    have different := Program.ne_nextBlock (Program.index_lt_of_kind? kind)
    refine ⟨sequential.kind, own, block_eq, ?_, ?_⟩
    · rw [program_eq, Program.kind?_replaceBlock, if_neg different, kind]
    · rw [program_eq, Program.settings?_replaceBlock, if_neg different, none]

/-- The node that is demoted stands for a new block, and the others stay. -/
theorem isSequential_or_mem (distinct : plan.tree.ids.Nodup)
    (done : (demote id).result plan = (.ok (), after)) (there : node ∈ after.tree.nodes) :
    after.IsSequential node ∨ node ∈ plan.tree.nodes := by
  obtain ⟨old, block, bounds, -, -, -, tree_eq, program_eq⟩ := Plan.of_demote done
  rw [tree_eq, PlanTree.update_eq_mapNodes distinct, PlanTree.nodes_mapNodes] at there
  obtain ⟨twin, inside, rfl⟩ := List.mem_map.mp there
  by_cases here : twin.id = id
  · rw [if_pos here]
    refine .inl ⟨rfl, plan.program.nextBlock, rfl, ?_, ?_⟩
    · rw [program_eq, Program.kind?_replaceBlock, if_pos rfl]
      rfl
    · rw [program_eq, Program.settings?_replaceBlock, if_pos rfl]
      rfl
  · rw [if_neg here]
    exact .inr inside

end Plan

namespace PlanningRule

variable {plan after : Plan α} {node : PlanNode}

/-- After demotions a node stands for a sequential loop, or it was there before. -/
theorem isSequential_of_demoteEach {ids : List NodeId} (distinct : plan.tree.ids.Nodup)
    (done : (demoteEach ids).result plan = (.ok (), after)) (there : node ∈ after.tree.nodes) :
    after.IsSequential node ∨ node ∈ plan.tree.nodes := by
  induction ids generalizing plan with
  | nil =>
    cases done
    exact .inr there
  | cons id rest ih =>
    obtain ⟨_, mid, first, others⟩ := Change.of_bind done
    obtain ⟨-, -, -, -, -, -, tree_eq, -⟩ := Plan.of_demote first
    have ids_eq : mid.tree.ids = plan.tree.ids := by
      rw [tree_eq]
      apply PlanTree.ids_update
      exact fun _ => rfl
    rcases ih (ids_eq ▸ distinct) others with sequential | before
    · exact .inl sequential
    rcases Plan.isSequential_or_mem distinct first before with sequential | inside
    · exact .inl
        ((respects_demoteEach Plan.maintains_isSequential rest).of_result others sequential)
    · exact .inr inside

/-- What the seventh rule decides is recorded for every loop. -/
theorem isMerged_of_mergeEach {context : PassContext α} {loops : List PlanTree}
    (leads : (mergeEach context loops).Leads plan () after) :
    ∀ loop ∈ loops, after.IsMerged loop.id := by
  induction loops generalizing plan with
  | nil => exact List.forall_mem_nil _
  | cons loop rest ih =>
    obtain ⟨_, mid, first, others⟩ := Pass.Leads.of_bind leads
    obtain ⟨settings, remote, -, -, set⟩ := of_mergeResults first
    refine List.forall_mem_cons.mpr ⟨?_, ih others⟩
    exact others.related (respects_mergeEach Plan.maintains_isMerged rest)
      (Plan.isMerged_of_setResultMerge set)


end PlanningRule

namespace Optimizer

open PlanningRule

variable [Quantity α] {optimizer : Optimizer α} {vars : Variables} {plan final : Plan α}
  {summary : PassSummary α} {node : PlanNode}

namespace Stages

variable (stages : Stages optimizer vars plan final summary)

include stages

variable (numbered : plan.tree.IsNumbered)

include numbered

/-- How the results of a loop that is left are put together is recorded for it. -/
theorem exists_resultMerge (there : node ∈ final.tree.nodes) (parallel : node.kind = .parfor) :
    ∃ text, node.param? .resultMerge = some text := by
  have parallelThen : stages.colocated.tree.root.kind = .parfor :=
    (Plan.root_kind_of_layout stages.layout_colocated).trans stages.parallel
  obtain ⟨splitNumbered, splitParallel⟩ :=
    numbered_of_nestedParallelism (stages.isNumbered_colocated numbered) parallelThen
      stages.nestedParallelism
  have distinct := stages.distinct_budgeted splitNumbered.distinct
  -- The loop was there when the seventh rule was applied, and so the rule decided about it.
  obtain ⟨inside, -⟩ := mem_of_demoteEach distinct (nodup_nestedSerialLoops distinct)
    stages.demoted there parallel
  rw [stages.tree_budgeted] at inside distinct
  obtain ⟨twin, before, id_eq, kind_eq, -⟩ := Plan.exists_node_of_layout
    (stages.layout_merged.trans stages.layout_tasked.symm) inside
  obtain ⟨loop, member, rfl⟩ := List.mem_map.mp before
  have merging := Leads.of_plan_bind stages.resultMerge
  dsimp only at merging
  rw [← mergeEach_loops ((Plan.root_kind_of_layout stages.layout_tasked).trans splitParallel)]
    at merging
  obtain ⟨own, text, found, recorded⟩ := isMerged_of_mergeEach merging loop
    (PlanTree.mem_loops.mpr ⟨member, kind_eq ▸ parallel⟩)
  have same := PlanTree.node?_eq_some distinct inside
  rw [id_eq, show loop.root.id = loop.id from rfl, found, Option.some.injEq] at same
  exact ⟨text, same ▸ recorded⟩

/-- Before loops are demoted, those that were given are parallel, and the one from a split is. -/
theorem parallel_budgeted (there : node ∈ stages.budgeted.tree.nodes)
    (loop : plan.IsLoop node.id ∨ node.id ∉ plan.tree.ids) : node.kind = .parfor := by
  have given {old : PlanNode} (inPlan : old ∈ plan.tree.nodes) (same : node.id = old.id) :
      old.kind = .parfor := by
    rcases loop with ⟨twin, alsoInPlan, twin_id, parallel⟩ | new
    · obtain rfl := PlanTree.eq_of_id_eq numbered.distinct alsoInPlan inPlan (twin_id.trans same)
      exact parallel
    · exact absurd (List.mem_map_of_mem inPlan) (same ▸ new)
  obtain ⟨twin, inSplit, id_eq, kind_eq, -⟩ :=
    Plan.exists_node_of_layout stages.layout_budgeted there
  rw [kind_eq]
  -- A node is one of the given plan, or else the inner loop of the split.
  rcases stages.layout_cases numbered.distinct with
    same | ⟨-, root, outer, inner, children, top, split⟩
  · obtain ⟨old, inPlan, old_id, old_kind, -⟩ := Plan.exists_node_of_layout same inSplit
    exact old_kind.trans (given inPlan (id_eq.trans old_id))
  · rcases split.origin_of_mem inSplit with rfl | ⟨old, inside, old_id, old_kind, -⟩
    · exact split.inner_kind
    · obtain ⟨older, inPlan, older_id, older_kind, -⟩ :=
        Plan.exists_node_of_layout stages.layout_colocated inside
      rw [old_kind, older_kind]
      exact given inPlan (id_eq.trans (old_id.trans older_id))

/-- A node is demoted by the pass when it is no parallel loop afterwards, although it was one before
or has come from a split. -/
theorem isSequential (there : node ∈ final.tree.nodes) (demoted : node.kind ≠ .parfor)
    (loop : plan.IsLoop node.id ∨ node.id ∉ plan.tree.ids) : final.IsSequential node := by
  have distinct := stages.distinct_budgeted (stages.isNumbered_split numbered).distinct
  rcases isSequential_of_demoteEach distinct stages.demoted there with sequential | inside
  · exact sequential
  · exact absurd (stages.parallel_budgeted numbered inside loop) demoted

end Stages

/-- A pass keeps a plan in agreement wherever it ends. If it succeeds, it is recorded for every
parallel loop how its results are put together, and each loop that was demoted stands for a
sequential block. -/
theorem inAgreement_optimize (numbered : plan.tree.IsNumbered) (agreement : plan.InAgreement) :
    (optimizer.optimize vars plan).2.plan.InAgreement ∧
      ∀ summary, (optimizer.optimize vars plan).1 = .ok summary →
        ∀ node ∈ (optimizer.optimize vars plan).2.plan.tree.nodes,
          (node.kind = .parfor → ∃ text, node.param? .resultMerge = some text) ∧
          (node.kind ≠ .parfor → plan.IsLoop node.id ∨ node.id ∉ plan.tree.ids →
            (optimizer.optimize vars plan).2.plan.IsSequential node) := by
  refine ⟨leaves_pass numbered agreement [], fun summary done node there => ?_⟩
  obtain ⟨stages⟩ := exists_stages done
  exact ⟨stages.exists_resultMerge numbered there, stages.isSequential numbered there⟩

theorem inAgreement_oneLoop : oneLoop.InAgreement where
  kinds := List.forall_mem_singleton.mpr fun _ id bound => by
    obtain rfl := Option.some.inj bound
    rfl
  apart := List.forall_mem_singleton.mpr fun _ =>
    List.forall_mem_singleton.mpr fun _ _ _ _ => rfl
  agrees := List.forall_mem_singleton.mpr fun _ =>
    ⟨_, _, rfl, rfl, rfl, rfl, .of_none rfl, .of_none rfl, .of_none rfl⟩

/-- A machine that can be asked only once what a loop needs. -/
def estimatesOnce : Optimizer Rat :=
  { ofMachine 1 with estimator := .scripted [some 1, none] }

/-- With two cluster nodes nothing is left to do in parallel within a chunk, so that the inner loop
of the split is demoted again. A pass that cannot estimate a loop twice ends after the first
rule. -/
theorem inAgreement_optimize_oneLoop :
    (∃ summary, ((ofCluster 2 2).optimize .empty oneLoop).1 = .ok summary ∧
      ((ofCluster 2 2).optimize .empty oneLoop).2.plan.InAgreement ∧
      ∃ node ∈ ((ofCluster 2 2).optimize .empty oneLoop).2.plan.tree.nodes,
        node.id ∉ oneLoop.tree.ids ∧
          ((ofCluster 2 2).optimize .empty oneLoop).2.plan.IsSequential node) ∧
    (estimatesOnce.optimize .empty oneLoop).1.isOk = false ∧
      (estimatesOnce.optimize .empty oneLoop).2.plan.InAgreement := by
  have numbered : oneLoop.tree.IsNumbered := ⟨by decide, by decide⟩
  obtain ⟨agreement, succeeds⟩ :=
    @inAgreement_optimize _ _ (ofCluster 2 2) .empty _ numbered inAgreement_oneLoop
  obtain ⟨summary, done⟩ := Outcome.exists_ok
    (show ((ofCluster 2 2).optimize .empty oneLoop).1.toOption.isSome = true by decide +kernel)
  obtain ⟨node, there, other, new⟩ :
      ∃ node ∈ ((ofCluster 2 2).optimize .empty oneLoop).2.plan.tree.nodes,
        node.kind ≠ .parfor ∧ node.id ∉ oneLoop.tree.ids := by decide +kernel
  refine ⟨⟨summary, done, agreement, node, there, new, ?_⟩, by decide +kernel, ?_⟩
  · exact (succeeds summary done node there).2 other (.inr new)
  · exact (inAgreement_optimize numbered inAgreement_oneLoop).1

end Optimizer

end ParallelLoop
