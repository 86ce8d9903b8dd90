/-
# What the rules leave alone

All rules but two decide about a plan whose layout they leave as it is; the fourth rule
may split the loop, and the ninth one demotes loops. The sixth, seventh and eighth
rule only write down what follows from the choices made before. Each rule respects
every relation between plans that the decisions respect which it makes.

Which nodes a rule decides about depends on the plan that it looks at first. A relation that says
nothing of some plans, being true of whatever they become, has to be respected only by the
decisions about the nodes of the others; the lemmas whose names end in `within` say so.
-/

import ParallelLoop.Optimizer.Pass
import ParallelLoop.Proofs.Plan.Decisions

namespace ParallelLoop

open Change (Respects)

variable {α β : Type}

namespace Pass

/-- What a change of the plan gives, and the state it leaves. -/
theorem result_onPlan (change : Change (Plan α) β) (state : PassState α) :
    (onPlan change).result state =
      ((change.result state.plan).1, { state with plan := (change.result state.plan).2 }) := rfl

theorem onPlan_ok {change : Change (Plan α) β} {state after : PassState α} {value : β}
    (done : (onPlan change).result state = (.ok value, after)) :
    change.result state.plan = (.ok value, after.plan) := by
  rw [result_onPlan, Prod.mk.injEq] at done
  rw [← done.1, ← done.2]

@[simp] theorem result_plan (state : PassState α) :
    (Pass.plan : Pass α (Plan α)).result state = (.ok state.plan, state) := rfl

/-- The plans of two states are related. -/
def Across (relation : Plan α → Plan α → Prop) (before after : PassState α) : Prop :=
  relation before.plan after.plan

variable {relation : Plan α → Plan α → Prop} [IsPreorder (Plan α) relation]

instance : IsPreorder (PassState α) (Across relation) where
  refl state := Std.Refl.refl state.plan
  trans before _ after first second := IsTrans.trans before.plan _ after.plan first second

omit [IsPreorder (Plan α) relation] in
theorem respects_onPlan {change : Change (Plan α) β} (kept : Respects relation change) :
    Respects (Across relation) (onPlan change) := fun state => kept state.plan

theorem respects_say (level : LogLevel) (text : String) :
    Respects (Across relation) (say level text : Pass α Unit) :=
  .modify fun state => Std.Refl.refl state.plan

theorem respects_report (text : String) :
    Respects (Across relation) (report text : Pass α Unit) := respects_say _ _

theorem respects_plan : Respects (Across relation) (Pass.plan : Pass α (Plan α)) :=
  .of_unchanged fun _ => rfl

omit [IsPreorder (Plan α) relation] in
/-- A plan of which the relation says nothing need not be looked at. -/
theorem respects_readPlan {admitted : Plan α → Prop}
    (vacuous : ∀ before after, ¬ admitted before → relation before after) {next : Plan α → Pass α β}
    (rest : ∀ plan, admitted plan → Respects (Across relation) (next plan)) :
    Respects (Across relation) (Pass.plan >>= next) := by
  intro state
  by_cases here : admitted state.plan
  · rw [Change.result_bind (result_plan state)]
    exact rest state.plan here state
  · exact vacuous _ _ here

end Pass

namespace PlanningRule

open Pass

variable {relation : Plan α → Plan α → Prop} [IsPreorder (Plan α) relation]

theorem respects_report (rule : PlanningRule) (result : String) :
    Respects (Across relation) (rule.report result : Pass α Unit) := Pass.respects_report _

theorem respects_directlyIndexed (var : String) (tree : PlanTree) :
    Respects relation (directlyIndexed var tree : Change (Plan α) (Option String)) := by
  unfold directlyIndexed
  split
  next =>
    split
    next => exact .pure _
    next => exact .bind (.inspect _) fun _ => .bind (.inspect _) fun _ => .pure _
  next => exact .pure _

theorem respects_directlyIndexedAll (var : String) (trees : List PlanTree) :
    Respects relation (directlyIndexedAll var trees : Change (Plan α) (List String)) := by
  induction trees with
  | nil => exact .pure _
  | cons tree rest ih =>
    exact .bind (respects_directlyIndexed var tree) fun _ => .bind ih fun _ => .pure _

theorem respects_writesRemotely (resultVars : List String) (trees : List PlanTree) :
    Respects relation (writesRemotely resultVars trees : Change (Plan α) Bool) := by
  induction trees with
  | nil => exact .pure _
  | cons tree rest ih =>
    unfold writesRemotely
    split
    next =>
      refine .bind (.inspect _) fun _ => .bind (.inspect _) fun _ => ?_
      split
      next => exact .pure _
      next => exact ih
    next => exact ih

variable (context : PassContext α)

variable {admitted : Plan α → Prop}
  (vacuous : ∀ before after, ¬ admitted before → relation before after)

section Partitions

variable [Quantity α]

theorem respects_partitionInput {id : NodeId}
    (formats : ∀ format slice, Respects relation (Plan.setPartitionFormat id format slice))
    (candidates : List (String × PartitionFormat)) :
    Respects relation (partitionInput context candidates id) := by
  refine .bind (.inspect _) fun hopId => .bind (.inspect _) fun hop => ?_
  split
  next => exact .fail _
  next name _ =>
    split
    next => exact .pure _
    next format _ =>
      split
      next => exact .fail _
      next matrix _ =>
        dsimp only
        split
        next => exact .bind (formats format _) fun _ => .pure _
        next => exact .pure _

theorem respects_partitionInputs {trees : List PlanTree}
    (formats : ∀ tree ∈ trees, isPartitionable tree = true → ∀ format slice,
      Respects relation (Plan.setPartitionFormat tree.id format slice))
    (candidates : List (String × PartitionFormat)) :
    Respects relation (partitionInputs context candidates trees) := by
  induction trees with
  | nil => exact .pure _
  | cons tree rest ih =>
    rw [List.forall_mem_cons] at formats
    unfold partitionInputs
    -- Whether a tree is an input or not, the trees beside it follow.
    have others (applied : Bool) :
        Respects relation (do return applied || (← partitionInputs context candidates rest)) :=
      .bind (ih formats.2) fun _ => .pure _
    split
    next input =>
      exact .bind (respects_partitionInput context (formats.1 input) candidates) others
    next => exact .bind (.pure false) others

include vacuous in
theorem respects_dataPartitioner_within
    (formats : ∀ plan, admitted plan → ∀ tree ∈ plan.tree.subtrees, isPartitionable tree = true →
      ∀ format slice, Respects relation (Plan.setPartitionFormat tree.id format slice))
    (partitions : ∀ plan, admitted plan → ∀ partitioner,
      Respects relation (Plan.setDataPartitioner plan.tree.id partitioner)) :
    Respects (Across relation) (runDataPartitioner context) := by
  refine respects_readPlan vacuous fun plan here => .bind (.inspect _) fun settings => ?_
  have decided (applied : Bool) : Respects (Across relation) (do
      let partitioner : DataPartitioner := if applied then .remote else .none
      onPlan (Plan.setDataPartitioner plan.tree.id partitioner)
      dataPartitioner.report partitioner.name) :=
    .bind (respects_onPlan (partitions plan here _)) fun _ => respects_report _ _
  dsimp only
  split
  next =>
    exact .bind (respects_onPlan (respects_partitionInputs context (formats plan here) _)) decided
  next => exact .bind (.pure false) decided

theorem respects_dataPartitioner
    (formats : ∀ {id : NodeId} (format : PartitionFormat) (slice : α),
      Respects relation (Plan.setPartitionFormat id format slice))
    (partitions : ∀ {id : NodeId} (partitioner : DataPartitioner),
      Respects relation (Plan.setDataPartitioner id partitioner)) :
    Respects (Across relation) (runDataPartitioner context) :=
  respects_dataPartitioner_within context (fun _ _ other => absurd trivial other)
    (fun _ _ _ _ _ => formats) fun _ _ => partitions

end Partitions

include vacuous in
theorem respects_executionStrategy_within [Quantity α]
    (places : ∀ plan, admitted plan → ∀ placement,
      Respects relation (Plan.setPlacement plan.tree.id placement)) :
    Respects (Across relation) (runExecutionStrategy context) :=
  respects_readPlan vacuous fun plan here =>
    .bind (respects_onPlan (places plan here _)) fun _ => respects_report _ _

theorem respects_executionStrategy [Quantity α]
    (places : ∀ {id : NodeId} (placement : Placement),
      Respects relation (Plan.setPlacement id placement)) :
    Respects (Across relation) (runExecutionStrategy context) :=
  respects_executionStrategy_within context (fun _ _ other => absurd trivial other)
    fun _ _ => places

include vacuous in
theorem respects_colocation_within
    (colocates : ∀ plan, admitted plan → ∀ matrix,
      Respects relation (Plan.setColocated plan.tree.id matrix)) :
    Respects (Across relation) (runColocation context) := by
  refine respects_readPlan vacuous fun plan here => .bind (.inspect _) fun settings => ?_
  dsimp only
  split
  next => exact respects_report _ _
  next =>
    refine .bind (.inspect _) fun blockId => .bind (.inspect _) fun block => ?_
    split
    next => exact .fail _
    next =>
      refine .bind (respects_onPlan (respects_directlyIndexedAll _ _)) fun names =>
        .bind (.ofExcept _) fun best => ?_
      split
      next => exact respects_report _ _
      next =>
        exact .bind (respects_onPlan (colocates plan here _)) fun _ => respects_report _ _

theorem respects_colocation
    (colocates : ∀ {id : NodeId} (matrix : String), Respects relation (Plan.setColocated id matrix)) :
    Respects (Across relation) (runColocation context) :=
  respects_colocation_within context (fun _ _ other => absurd trivial other) fun _ _ => colocates

section Workers

/-- Workers are distributed in one tree after the other. -/
theorem respects_distributeAll_of {limit : Nat} {trees : List PlanTree}
    (single : ∀ tree ∈ trees, Respects relation (distribute limit tree)) :
    Respects relation (distributeAll limit trees) := by
  induction trees with
  | nil => exact .pure _
  | cons tree rest ih =>
    rw [List.forall_mem_cons] at single
    exact .bind single.1 fun _ => ih single.2

/-- Distributing workers is a chain of decisions. -/
theorem respects_distribute (limit : Nat) {tree : PlanTree}
    (assigns : ∀ node ∈ tree.nodes, node.kind = .parfor → ∀ workers,
      Respects relation (Plan.setWorkers node.id workers))
    (serializes : ∀ node ∈ tree.nodes, Respects relation (Plan.serialize node.id)) :
    Respects relation (distribute limit tree) := by
  induction tree using PlanTree.induction generalizing limit with
  | node root children ih =>
    have below (limit : Nat) : Respects relation (distributeAll limit children) :=
      respects_distributeAll_of fun child member => ih child member limit
        (fun node there => assigns node (PlanTree.mem_nodes_of_child member there))
        fun node there => serializes node (PlanTree.mem_nodes_of_child member there)
    rw [PlanTree.nodes_node, List.forall_mem_cons] at assigns serializes
    unfold distribute
    split
    next => exact serializes.1
    next =>
      split
      next loop =>
        exact .bind (.ofExcept _) fun iterations => .bind (assigns.1 loop _) fun _ =>
          .bind (.ofOutcome _) below
      next => exact below limit

include vacuous in
theorem respects_degreeOfParallelism_within [Quantity α]
    (assigns : ∀ plan, admitted plan → ∀ node ∈ plan.tree.nodes,
      node.id = plan.tree.id ∨ node.kind = .parfor → ∀ workers,
        Respects relation (Plan.setWorkers node.id workers))
    (serializes : ∀ plan, admitted plan → ∀ node ∈ plan.tree.nodes,
      Respects relation (Plan.serialize node.id)) :
    Respects (Across relation) (runDegreeOfParallelism context) := by
  refine respects_readPlan vacuous fun plan here => ?_
  have reported : Respects (Across relation) (do
      let final := (← Pass.plan).tree
      degreeOfParallelism.report s!"k={final.root.workers} (total {final.totalWorkers})" :
        Pass α Unit) := .bind respects_plan fun _ => respects_report _ _
  have root (workers : Nat) : Respects relation (Plan.setWorkers plan.tree.id workers) :=
    assigns plan here _ plan.tree.root_mem_nodes (.inl rfl) workers
  have below (limit : Nat) : Respects relation (distributeAll limit plan.tree.children) :=
    respects_distributeAll_of fun child member => respects_distribute limit
      (fun node there loop =>
        assigns plan here node (PlanTree.mem_nodes_of_child member there) (.inr loop))
      fun node there => serializes plan here node (PlanTree.mem_nodes_of_child member there)
  dsimp only
  split
  next =>
    exact .bind (respects_onPlan (root _)) fun _ => .bind (.ofOutcome _) fun _ =>
      .bind (respects_onPlan (below _)) fun _ => reported
  next =>
    exact .bind (respects_onPlan (root _)) fun _ => .bind (respects_onPlan (below _)) fun _ =>
      reported

theorem respects_degreeOfParallelism [Quantity α]
    (assigns : ∀ {id : NodeId} (workers : Nat), Respects relation (Plan.setWorkers id workers)) :
    Respects (Across relation) (runDegreeOfParallelism context) :=
  respects_degreeOfParallelism_within context (fun _ _ other => absurd trivial other)
    (fun _ _ _ _ _ => assigns) fun _ _ _ _ => Plan.respects_serialize assigns

end Workers

theorem respects_assignTaskPartitioner {node : PlanNode}
    {kind : PartitionerKind} (cut : Respects relation (Plan.setTaskPartitioner node.id kind)) :
    Respects (Across relation) (assignTaskPartitioner node kind : Pass α Unit) := by
  have decided : Respects (Across relation) (do
      onPlan (Plan.setTaskPartitioner node.id kind)
      taskPartitioner.report (kind.name ++ " (" ++ node.id.render ++ ")") : Pass α Unit) :=
    .bind (respects_onPlan cut) fun _ => respects_report _ _
  unfold assignTaskPartitioner
  split
  next => exact .bind (respects_say _ _) fun _ => decided
  next => exact decided

include vacuous in
theorem respects_taskPartitioner_within
    (cuts : ∀ plan, admitted plan → ∀ kind,
      Respects relation (Plan.setTaskPartitioner plan.tree.id kind))
    (cutsBelow : context.nested = true → ∀ plan, admitted plan → ∀ inner rest,
      plan.tree.children = inner :: rest → ∀ kind,
        Respects relation (Plan.setTaskPartitioner inner.id kind)) :
    Respects (Across relation) (runTaskPartitioner context) := by
  refine respects_readPlan vacuous fun plan here => ?_
  dsimp only
  split
  next nested =>
    refine .bind (respects_assignTaskPartitioner (cuts plan here .static)) fun _ => ?_
    split
    next inner rest children =>
      exact respects_assignTaskPartitioner (cutsBelow nested plan here inner rest children .factoring)
    next => exact .pure _
  next => exact respects_assignTaskPartitioner (cuts plan here .factoring)

theorem respects_taskPartitioner
    (cuts : ∀ {id : NodeId} (kind : PartitionerKind),
      Respects relation (Plan.setTaskPartitioner id kind)) :
    Respects (Across relation) (runTaskPartitioner context) :=
  respects_taskPartitioner_within context (fun _ _ other => absurd trivial other)
    (fun _ _ => cuts) fun _ _ _ _ _ _ => cuts

section Merges

theorem respects_mergeResults {tree : PlanTree}
    (merges : ∀ merge, Respects relation (Plan.setResultMerge tree.id merge)) :
    Respects (Across relation) (mergeResults context tree) :=
  .bind (.inspect _) fun _ => .bind (respects_onPlan (respects_writesRemotely _ _)) fun _ =>
    .bind (respects_onPlan (merges _)) fun _ => respects_report _ _

theorem respects_mergeAllResultsBelow_of {trees : List PlanTree}
    (single : ∀ tree ∈ trees, Respects (Across relation) (mergeAllResults context tree)) :
    Respects (Across relation) (mergeAllResultsBelow context trees) := by
  induction trees with
  | nil => exact .pure _
  | cons tree rest ih =>
    rw [List.forall_mem_cons] at single
    exact .bind single.1 fun _ => ih single.2

theorem respects_mergeAllResults {tree : PlanTree}
    (merges : ∀ node ∈ tree.nodes, node.kind = .parfor → ∀ merge,
      Respects relation (Plan.setResultMerge node.id merge)) :
    Respects (Across relation) (mergeAllResults context tree) := by
  induction tree using PlanTree.induction with
  | node root children ih =>
    have below : Respects (Across relation) (mergeAllResultsBelow context children) :=
      respects_mergeAllResultsBelow_of context fun child member => ih child member
        fun node there => merges node (PlanTree.mem_nodes_of_child member there)
    rw [PlanTree.nodes_node, List.forall_mem_cons] at merges
    unfold mergeAllResults
    split
    next loop =>
      have root : ∀ merge,
          Respects relation (Plan.setResultMerge (PlanTree.node root children).id merge) :=
        merges.1 loop
      exact .bind (respects_mergeResults context root) fun _ => below
    next => exact below

include vacuous in
theorem respects_resultMerge_within
    (merges : ∀ plan, admitted plan → ∀ node ∈ plan.tree.nodes,
      node.id = plan.tree.id ∨ node.kind = .parfor → ∀ merge,
        Respects relation (Plan.setResultMerge node.id merge)) :
    Respects (Across relation) (runResultMerge context) := by
  refine respects_readPlan vacuous fun plan here => ?_
  have root : ∀ merge, Respects relation (Plan.setResultMerge plan.tree.id merge) :=
    merges plan here _ plan.tree.root_mem_nodes (.inl rfl)
  have below : Respects (Across relation) (mergeAllResultsBelow context plan.tree.children) :=
    respects_mergeAllResultsBelow_of context fun child member =>
      respects_mergeAllResults context fun node there loop =>
        merges plan here node (PlanTree.mem_nodes_of_child member there) (.inr loop)
  exact .bind (respects_mergeResults context root) fun _ => below

theorem respects_resultMerge
    (merges : ∀ {id : NodeId} (merge : ResultMerge),
      Respects relation (Plan.setResultMerge id merge)) :
    Respects (Across relation) (runResultMerge context) :=
  respects_resultMerge_within context (fun _ _ other => absurd trivial other)
    fun _ _ _ _ _ => merges

end Merges

include vacuous in
theorem respects_recompileBudget_within [Quantity α]
    (budgets : ∀ plan, admitted plan → ∀ budget,
      Respects relation (Plan.setRecompileBudget plan.tree.id budget)) :
    Respects (Across relation) (runRecompileBudget context) := by
  refine respects_readPlan vacuous fun plan here => ?_
  dsimp only
  split
  next =>
    exact .bind (.ofOutcome _) fun _ => .bind (respects_onPlan (budgets plan here _)) fun _ =>
      .bind (.pure _) fun _ => respects_report _ _
  next => exact .bind (.pure _) fun _ => respects_report _ _

theorem respects_recompileBudget [Quantity α]
    (budgets : ∀ {id : NodeId} (budget : α), Respects relation (Plan.setRecompileBudget id budget)) :
    Respects (Across relation) (runRecompileBudget context) :=
  respects_recompileBudget_within context (fun _ _ other => absurd trivial other) fun _ _ => budgets

end PlanningRule

end ParallelLoop
