/-
# How a loop is executed, decided once

The sixth, seventh and eighth rule decide from what is decided before: whether the loop is
split, which matrices its operators write and where, and how many workers it has. None of
this changes later on, and loops that are demoted show in none of it. So each of these
rules, applied again, decides the same for every loop that is still there.

The seventh rule walks through a tree. It is the same as deciding about one loop of the tree
after the other, and no two of these decisions meet when loops have blocks of their own.
-/

import ParallelLoop.Proofs.Optimizer.Placing
import ParallelLoop.Proofs.Plan.Ownership

namespace ParallelLoop

open Change (Respects SameView)

variable {α β γ : Type}

namespace PlanTree

/-- The parallel loops of a tree, each with everything below it. -/
def loops (tree : PlanTree) : List PlanTree :=
  tree.subtrees.filter fun tree => decide (tree.root.kind = .parfor)

theorem mem_loops {tree loop : PlanTree} :
    loop ∈ tree.loops ↔ loop ∈ tree.subtrees ∧ loop.root.kind = .parfor := by
  simp [loops]

theorem loops_node (root : PlanNode) (children : List PlanTree) :
    (node root children).loops =
      if root.kind = .parfor then node root children :: children.flatMap loops
      else children.flatMap loops := by
  unfold loops
  rw [subtrees_node, subtreesAll_eq_flatMap, List.filter_cons, List.filter_flatMap]
  simp only [decide_eq_true_eq]
  rfl

theorem nodup_loops {tree : PlanTree} (distinct : tree.ids.Nodup) :
    (tree.loops.map PlanTree.id).Nodup := by
  rw [ids_eq_map_subtrees] at distinct
  exact distinct.sublist (List.filter_sublist.map _)

end PlanTree

theorem Plan.isLoop_of_mem_loops {plan : Plan α} {loop : PlanTree} (there : loop ∈ plan.tree.loops) :
    plan.IsLoop loop.id := by
  obtain ⟨member, parallel⟩ := PlanTree.mem_loops.mp there
  exact ⟨loop.root, List.mem_map_of_mem member, rfl, parallel⟩

/-- The loops that remain were there before, with the same operators. -/
theorem Plan.KeepsLoops.exists_loop {aspect : Aspect α β γ} {before after : Plan α}
    (kept : before.KeepsLoops aspect after) (distinct : before.tree.ids.Nodup) {loop : PlanTree}
    (there : loop ∈ after.tree.loops) :
    ∃ twin ∈ before.tree.loops, loop.id = twin.id ∧ loop.operators = twin.operators := by
  have member := (PlanTree.mem_loops.mp there).1
  have bare := PlanTree.subtrees_of_bare kept.bare_eq ▸ List.mem_map_of_mem member
  obtain ⟨twin, inside, twin_eq⟩ := List.mem_map.mp bare
  have id_eq : loop.id = twin.id := (PlanTree.id_of_bare twin_eq).symm
  refine ⟨twin, PlanTree.mem_loops.mpr ⟨inside, ?_⟩, id_eq,
    (PlanTree.operators_of_bare twin_eq).symm⟩
  obtain ⟨node, listed, same, alsoParallel⟩ :=
    kept.isLoop (isLoop_of_mem_loops there)
  have root_eq := PlanTree.eq_of_id_eq distinct (List.mem_map_of_mem inside) listed
    (id_eq.symm.trans same.symm)
  rw [root_eq]
  exact alsoParallel

/-- How the results of a loop are put together, and which they are. -/
abbrev Aspect.merging : Aspect α (Option String) (ResultMerge × List String) :=
  ⟨fun node => node.param? .resultMerge,
    fun settings => (settings.resultMerge, settings.resultVars)⟩

namespace PlanningRule

open Plan (settings_eq_ok_iff)

/-! ## The sixth rule -/

section Tasks

variable {context : PassContext α} {plan before after : Plan α}

/-- The iterations of the loop with this id are cut in this way. -/
def IsCut (plan : Plan α) (id : NodeId) (kind : PartitionerKind) : Prop :=
  plan.decided .taskPartitioner id = (some (some kind.name), some kind)

/-- The iterations are cut as the sixth rule cuts them. -/
structure TasksSettled (context : PassContext α) (plan : Plan α) : Prop where
  outer : IsCut plan plan.tree.id (if context.nested then .static else .factoring)
  inner : context.nested = true → ∀ id, plan.tree.headId? = some id → IsCut plan id .factoring

theorem of_assignTaskPartitioner {node : PlanNode} {kind : PartitionerKind}
    (leads : (assignTaskPartitioner node kind).Leads plan () after) :
    (Plan.setTaskPartitioner node.id kind).result plan = (.ok (), after) := by
  have decided {plan : Plan α} (leads : Pass.Leads (do
      Pass.onPlan (Plan.setTaskPartitioner node.id kind)
      taskPartitioner.report (kind.name ++ " (" ++ node.id.render ++ ")")) plan () after) :
      (Plan.setTaskPartitioner node.id kind).result plan = (.ok (), after) := by
    obtain ⟨_, mid, set, reported⟩ := Pass.Leads.of_onPlan_bind leads
    obtain rfl := reported.of_report
    exact set
  unfold assignTaskPartitioner at leads
  split at leads
  next => exact decided (Pass.Leads.of_say_bind leads)
  next => exact decided leads

theorem does_assignTaskPartitioner {node : PlanNode} {kind : PartitionerKind}
    (distinct : plan.tree.ids.Nodup) (cut : IsCut plan node.id kind) :
    (assignTaskPartitioner node kind).Does plan () plan := by
  have decided : Pass.Does (do
      Pass.onPlan (Plan.setTaskPartitioner node.id kind)
      taskPartitioner.report (kind.name ++ " (" ++ node.id.render ++ ")")) plan () plan :=
    .bind (.onPlan (Plan.setTaskPartitioner_eq_self distinct cut)) (.say plan _ _)
  unfold assignTaskPartitioner
  split
  next => exact .bind (.say plan _ _) decided
  next => exact decided

/-- Cutting the iterations of a loop keeps the ids of nodes. -/
theorem ids_setTaskPartitioner {id : NodeId} {kind : PartitionerKind}
    (set : (Plan.setTaskPartitioner id kind).result plan = (.ok (), after)) :
    after.tree.id = plan.tree.id ∧ after.tree.headId? = plan.tree.headId? := by
  have layout : after.layout = plan.layout :=
    (Plan.ignores_layout.given.setTaskPartitioner PlanNode.given_setParam kind).eq set
  have heads := congrArg (fun layout => layout.1.headId?) layout
  unfold Plan.layout at heads
  rw [PlanTree.headId?_mapNodes fun _ => by rfl, PlanTree.headId?_mapNodes fun _ => by rfl] at heads
  exact ⟨Plan.id_of_layout layout, heads⟩

/-- The sixth rule cuts the loop, and after the outer loop of a split the node below it, if there is
one. -/
theorem of_runTaskPartitioner (leads : (runTaskPartitioner context).Leads plan () after) :
    context.nested = true ∧ (∃ mid,
        (Plan.setTaskPartitioner plan.tree.id .static).result plan = (.ok (), mid) ∧
          (plan.tree.children = [] ∧ after = mid ∨
            ∃ inner ∈ plan.tree.children, plan.tree.headId? = some inner.id ∧
              (Plan.setTaskPartitioner inner.id .factoring).result mid = (.ok (), after))) ∨
      context.nested = false ∧
        (Plan.setTaskPartitioner plan.tree.id .factoring).result plan = (.ok (), after) := by
  have chain := Pass.Leads.of_plan_bind leads
  dsimp only at chain
  split at chain
  next nested =>
    obtain ⟨_, mid, first, rest⟩ := Pass.Leads.of_bind chain
    refine .inl ⟨nested, mid, of_assignTaskPartitioner first, ?_⟩
    split at rest
    next inner others children =>
      refine .inr ⟨inner, children ▸ List.mem_cons_self .., ?_, of_assignTaskPartitioner rest⟩
      rw [PlanTree.headId?, children]
      rfl
    next leaf => exact .inl ⟨leaf, rest.of_pure.2⟩
  next whole => exact .inr ⟨Bool.not_eq_true _ ▸ whole, of_assignTaskPartitioner chain⟩

theorem of_taskPartitioner (formed : plan.IsFormed) (owns : plan.OwnsBlocks)
    (parallel : plan.tree.root.kind = .parfor)
    (leads : (runTaskPartitioner context).Leads plan () after) : TasksSettled context after := by
  rcases of_runTaskPartitioner leads with ⟨nested, mid, outer, below⟩ | ⟨whole, set⟩
  · have static : IsCut mid plan.tree.id .static := Plan.decided_setTaskPartitioner outer
    have ids := ids_setTaskPartitioner outer
    rcases below with ⟨leaf, rfl⟩ | ⟨inner, there, head_eq, set⟩
    · refine ⟨?_, fun _ id head => ?_⟩
      · rw [if_pos nested, ids.1]
        exact static
      · rw [ids.2, PlanTree.headId?, leaf] at head
        cases head
    · have alsoIds := ids_setTaskPartitioner set
      have layout : mid.layout = plan.layout :=
        (Plan.ignores_layout.given.setTaskPartitioner PlanNode.given_setParam .static).eq outer
      have stillLoop : mid.IsLoop plan.tree.id :=
        Plan.isLoop_of_layout layout.symm (Plan.isLoop_root parallel)
      -- The inner loop is another node, so the outer one stays as it is.
      have different : plan.tree.id ≠ inner.id :=
        (PlanTree.id_ne_of_child formed.numbered.distinct there inner.root_mem_nodes).symm
      have keeps : Plan.KeepsNode fun node => node.setParam .taskPartitioner
          PartitionerKind.factoring.name := ⟨fun _ => rfl, fun _ => rfl⟩
      refine ⟨?_, fun _ id head => ?_⟩
      · rw [if_pos nested, alsoIds.1, ids.1, IsCut,
          Plan.decided_of_ne (formed.of_layout layout).numbered.distinct (owns.of_layout layout)
            stillLoop keeps different set]
        exact static
      · rw [alsoIds.2, ids.2, head_eq] at head
        obtain rfl := Option.some.inj head
        exact Plan.decided_setTaskPartitioner set
  · have single : ¬ context.nested = true := by rw [whole]; exact Bool.false_ne_true
    refine ⟨?_, fun nested => absurd nested single⟩
    rw [if_neg single, (ids_setTaskPartitioner set).1]
    exact Plan.decided_setTaskPartitioner set

theorem does_taskPartitioner (distinct : plan.tree.ids.Nodup) (settled : TasksSettled context plan) :
    (runTaskPartitioner context).Does plan () plan := by
  have outer := settled.outer
  refine .bind (.readPlan plan) ?_
  dsimp only
  split
  next nested =>
    rw [if_pos nested] at outer
    refine .bind (does_assignTaskPartitioner distinct outer) ?_
    split
    next inner others children =>
      refine does_assignTaskPartitioner distinct (settled.inner nested inner.id ?_)
      rw [PlanTree.headId?, children]
      rfl
    next => exact .pure plan ()
  next whole =>
    rw [if_neg whole] at outer
    exact does_assignTaskPartitioner distinct outer

/-- Loops that stay are cut as before. -/
theorem TasksSettled.of_keeps (settled : TasksSettled context before)
    (kept : before.KeepsLoops .taskPartitioner after) (parallel : after.tree.root.kind = .parfor)
    (inner : context.nested = true → ∀ id, after.tree.headId? = some id → after.IsLoop id) :
    TasksSettled context after where
  outer := by
    rw [IsCut, kept.decided_eq (Plan.isLoop_root parallel), kept.id_eq]
    exact settled.outer
  inner nested id head := by
    rw [IsCut, kept.decided_eq (inner nested id head)]
    exact settled.inner nested id (PlanTree.headId?_of_bare kept.bare_eq ▸ head)

end Tasks

/-! ## The seventh rule -/

/-- Trees that are no operators write nothing. -/
theorem writesRemotely_filter (resultVars : List String) (trees : List PlanTree) :
    writesRemotely resultVars (trees.filter PlanTree.isLeafOperator) =
      (writesRemotely resultVars trees : Change (Plan α) Bool) := by
  induction trees with
  | nil => rfl
  | cons tree rest ih =>
    by_cases leaf : tree.isLeafOperator = true
    · rw [List.filter_cons_of_pos leaf, writesRemotely, writesRemotely, ih]
    · rw [List.filter_cons_of_neg leaf, ih, writesRemotely, if_neg fun operator =>
        leaf (PlanTree.isLeafOperator_of_isOperator operator.1)]

/-- Plans that read the same write alike. -/
theorem writesRemotely_of_same {before after : Plan α} {resultVars : List String}
    {trees : List PlanTree} {remote : Bool} (same : ∀ id, after.readHop id = before.readHop id)
    (done : (writesRemotely resultVars trees).result before = (.ok remote, before)) :
    (writesRemotely resultVars trees).result after = (.ok remote, after) := by
  induction trees with
  | nil =>
    cases done
    rfl
  | cons tree rest ih =>
    unfold writesRemotely at done ⊢
    split at done
    next operator =>
      rw [if_pos operator]
      obtain ⟨hop, read, chosen⟩ := Plan.of_readHop_bind done
      rw [Plan.result_readHop_bind (same _ ▸ read)]
      split at chosen
      next writes =>
        cases chosen
        rw [if_pos writes]
        rfl
      next elsewhere =>
        rw [if_neg elsewhere]
        exact ih chosen
    next other =>
      rw [if_neg other]
      exact ih done

section Merges

variable {context : PassContext α} {plan before after : Plan α} {loop : PlanTree}

/-- How the results of a loop are put together. -/
def mergeFor (context : PassContext α) (resultVars : List String) (remote : Bool) : ResultMerge :=
  if remote && !(context.settings.copyCellFiles && allEmptyCells context.vars resultVars) then
    .remote
  else .localAutomatic

/-- The results of a loop are put together as the seventh rule decides. -/
structure MergeSettled (context : PassContext α) (plan : Plan α) (loop : PlanTree)
    (resultVars : List String) (remote : Bool) : Prop where
  resultVars_eq : (plan.settings? loop.id).map ParallelSettings.resultVars = some resultVars
  writes : (writesRemotely resultVars loop.operators).result plan = (.ok remote, plan)
  decided : plan.decided .resultMerge loop.id =
    (some (some (mergeFor context resultVars remote).name),
      some (mergeFor context resultVars remote))

/-- What the seventh rule does about one loop. -/
theorem of_mergeResults (leads : (mergeResults context loop).Leads plan () after) :
    ∃ settings remote, plan.settings? loop.id = some settings ∧
      (writesRemotely settings.resultVars loop.operators).result plan = (.ok remote, plan) ∧
      (Plan.setResultMerge loop.id (mergeFor context settings.resultVars remote)).result plan =
        (.ok (), after) := by
  obtain ⟨settings, found, asked⟩ := Pass.Leads.of_inspect_bind (fun plan => plan.settings _) leads
  obtain ⟨remote, mid, writes, chosen⟩ := Pass.Leads.of_onPlan_bind asked
  obtain rfl : mid = plan :=
    (respects_writesRemotely _ _ : Respects (SameView id) _).of_result writes
  obtain ⟨_, _, set, reported⟩ := Pass.Leads.of_onPlan_bind chosen
  obtain rfl := reported.of_report
  rw [← writesRemotely_filter] at writes
  exact ⟨settings, remote, settings_eq_ok_iff.mp found, writes, set⟩

theorem mergeSettled_of_leads (formed : plan.IsFormed)
    (leads : (mergeResults context loop).Leads plan () after) :
    ∃ resultVars remote, MergeSettled context after loop resultVars remote := by
  obtain ⟨settings, remote, found, writes, set⟩ := of_mergeResults leads
  have keeps : Respects (Plan.Keeps .matrices) (Plan.setResultMerge (α := α) loop.id
      (mergeFor context settings.resultVars remote)) :=
    Plan.keeps_setResultMerge (fun _ => rfl) fun _ => rfl
  have blind : Change.Preserves (Plan.decided .matrices) (Plan.setResultMerge (α := α) loop.id
      (mergeFor context settings.resultVars remote)) :=
    Plan.preserves_decided ⟨fun _ => rfl, fun _ => rfl⟩ (fun _ => rfl) fun _ => rfl
  refine ⟨settings.resultVars, remote, ?_, ?_, Plan.decided_setResultMerge set⟩
  · have shown := congrArg (fun shown => (shown loop.id).2.map Prod.fst) (blind.of_result set)
    simp only [Plan.decided, Option.map_map, Function.comp_def] at shown
    rw [shown, found]
    rfl
  · exact writesRemotely_of_same (keeps.of_result set formed).sameOperators.readHop_eq writes

theorem does_mergeResults {resultVars : List String} {remote : Bool}
    (distinct : plan.tree.ids.Nodup) (settled : MergeSettled context plan loop resultVars remote) :
    (mergeResults context loop).Does plan () plan := by
  obtain ⟨settings, read, rfl⟩ := Option.map_eq_some_iff.mp settled.resultVars_eq
  have writes := settled.writes
  rw [PlanTree.operators, writesRemotely_filter] at writes
  have same : (Plan.setResultMerge loop.id (mergeFor context settings.resultVars remote)).result
      plan = (.ok (), plan) := Plan.setResultMerge_eq_self distinct settled.decided
  exact .bind (.inspect (fun plan : Plan α => plan.settings _) (settings_eq_ok_iff.mpr read))
    (.bind (.onPlan writes) (.bind (.onPlan same) (.say plan _ _)))

end Merges

section AllMerges

variable {context : PassContext α} {plan before after : Plan α} {loop : PlanTree}

/-- What is settled for a loop is settled for one with the same operators, as long as the decision
stays. -/
theorem MergeSettled.of_same {twin : PlanTree} {resultVars : List String} {remote : Bool}
    (settled : MergeSettled context before twin resultVars remote)
    (same : ∀ id, after.readHop id = before.readHop id)
    (decided : after.decided .merging loop.id = before.decided .merging twin.id)
    (operators : loop.operators = twin.operators) :
    MergeSettled context after loop resultVars remote where
  resultVars_eq := by
    have shown := congrArg (fun shown => shown.2.map Prod.snd) decided
    simp only [Plan.decided, Option.map_map, Function.comp_def] at shown
    exact shown.trans settled.resultVars_eq
  writes := by
    rw [operators]
    exact writesRemotely_of_same same settled.writes
  decided := by
    have shown := congrArg (Prod.map id (Option.map Prod.fst)) decided
    simp only [Plan.decided, Prod.map_apply, id_eq, Option.map_map, Function.comp_def] at shown
    exact shown.trans settled.decided

/-- Decides how the results of one loop after the other are put together. -/
def mergeEach (context : PassContext α) : List PlanTree → Pass α Unit
  | [] => pure ()
  | loop :: rest => do
    mergeResults context loop
    mergeEach context rest

theorem mergeEach_append (first second : List PlanTree) :
    mergeEach context (first ++ second) =
      (do mergeEach context first; mergeEach context second) := by
  induction first with
  | nil => rw [List.nil_append, mergeEach, pure_bind]
  | cons loop rest ih => rw [List.cons_append, mergeEach, mergeEach, ih, bind_assoc]

theorem mergeAllResultsBelow_eq {trees : List PlanTree}
    (single : ∀ tree ∈ trees, mergeAllResults context tree = mergeEach context tree.loops) :
    mergeAllResultsBelow context trees = mergeEach context (trees.flatMap PlanTree.loops) := by
  induction trees with
  | nil => rfl
  | cons tree rest ih =>
    rw [List.forall_mem_cons] at single
    rw [mergeAllResultsBelow, single.1, ih single.2, List.flatMap_cons, mergeEach_append]

/-- Walking through a tree is going along its loops. -/
theorem mergeAllResults_eq (tree : PlanTree) :
    mergeAllResults context tree = mergeEach context tree.loops := by
  induction tree using PlanTree.induction with
  | node root children ih =>
    rw [mergeAllResults, PlanTree.loops_node, mergeAllResultsBelow_eq ih]
    split
    next => rw [mergeEach]
    next => rfl

/-- A loop is the first one in itself. -/
theorem mergeEach_loops {tree : PlanTree} (parallel : tree.root.kind = .parfor) :
    mergeEach context tree.loops = (do
      mergeResults context tree
      mergeAllResultsBelow context tree.children) := by
  rw [← mergeAllResults_eq]
  cases tree with
  | node root children =>
    rw [mergeAllResults]
    exact if_pos parallel

theorem respects_mergeEach {relation : Plan α → Plan α → Prop} [IsPreorder (Plan α) relation]
    (merges : ∀ {id : NodeId} (merge : ResultMerge),
      Respects relation (Plan.setResultMerge id merge)) (loops : List PlanTree) :
    Respects (Pass.Across relation) (mergeEach context loops) := by
  induction loops with
  | nil => exact .pure _
  | cons loop rest ih => exact .bind (respects_mergeResults context merges) fun _ => ih

/-- Deciding about other loops leaves what is decided about a loop. -/
theorem decided_mergeEach {loops : List PlanTree} {id : NodeId} (distinct : plan.tree.ids.Nodup)
    (owns : plan.OwnsBlocks) (isLoop : plan.IsLoop id) (apart : id ∉ loops.map PlanTree.id)
    (leads : (mergeEach context loops).Leads plan () after) :
    after.decided .merging id = plan.decided .merging id := by
  induction loops generalizing plan with
  | nil =>
    obtain ⟨-, rfl⟩ := leads.of_pure
    rfl
  | cons loop rest ih =>
    rw [List.map_cons, List.mem_cons, not_or] at apart
    obtain ⟨_, mid, first, others⟩ := Pass.Leads.of_bind leads
    obtain ⟨settings, remote, -, -, set⟩ := of_mergeResults first
    have keeps : Plan.KeepsNode fun node =>
        node.setParam .resultMerge (mergeFor context settings.resultVars remote).name :=
      ⟨fun _ => rfl, fun _ => rfl⟩
    have layout : mid.layout = plan.layout :=
      (Plan.ignores_layout.given.setResultMerge PlanNode.given_setParam _).eq set
    -- Neither the others nor the first of them is the loop in question.
    rw [ih (Plan.nodup_of_layout distinct layout) (owns.of_layout layout)
      (Plan.isLoop_of_layout layout.symm isLoop) apart.2 others]
    exact Plan.decided_of_ne distinct owns isLoop keeps apart.1 set

/-- Which matrices are read does not depend on how results are put together. -/
theorem keeps_matrices_setResultMerge {id : NodeId} (merge : ResultMerge) :
    Respects (Plan.Keeps .matrices) (Plan.setResultMerge (α := α) id merge) :=
  Plan.keeps_setResultMerge (fun _ => rfl) fun _ => rfl

/-- The results of the loops are put together as the seventh rule decides. -/
def MergesSettled (context : PassContext α) (plan : Plan α) (loops : List PlanTree) : Prop :=
  ∀ loop ∈ loops, ∃ resultVars remote, MergeSettled context plan loop resultVars remote

theorem of_mergeEach {loops : List PlanTree} (formed : plan.IsFormed) (owns : plan.OwnsBlocks)
    (parallel : ∀ loop ∈ loops, plan.IsLoop loop.id) (once : (loops.map PlanTree.id).Nodup)
    (leads : (mergeEach context loops).Leads plan () after) :
    MergesSettled context after loops := by
  induction loops generalizing plan with
  | nil => exact List.forall_mem_nil _
  | cons loop rest ih =>
    rw [List.map_cons, List.nodup_cons] at once
    rw [List.forall_mem_cons] at parallel
    obtain ⟨_, mid, first, others⟩ := Pass.Leads.of_bind leads
    obtain ⟨resultVars, remote, settled⟩ := mergeSettled_of_leads formed first
    have layout : mid.layout = plan.layout := first.related (respects_mergeResults context
      (Plan.ignores_layout.given.setResultMerge PlanNode.given_setParam))
    have stillFormed := formed.of_layout layout
    have stillOwns := owns.of_layout layout
    have stillLoop {id : NodeId} (loop : plan.IsLoop id) : mid.IsLoop id :=
      Plan.isLoop_of_layout layout.symm loop
    have kept := others.related (respects_mergeEach keeps_matrices_setResultMerge rest) stillFormed
    -- What was decided about the first loop is still decided after the others.
    refine List.forall_mem_cons.mpr ⟨⟨resultVars, remote, ?_⟩,
      ih stillFormed stillOwns (fun loop there => stillLoop (parallel.2 loop there)) once.2 others⟩
    exact settled.of_same kept.sameOperators.readHop_eq (decided_mergeEach
      stillFormed.numbered.distinct stillOwns (stillLoop parallel.1) once.1 others) rfl

theorem does_mergeEach {loops : List PlanTree} (distinct : plan.tree.ids.Nodup)
    (settled : MergesSettled context plan loops) :
    (mergeEach context loops).Does plan () plan := by
  induction loops with
  | nil => exact .pure plan ()
  | cons loop rest ih =>
    obtain ⟨⟨resultVars, remote, first⟩, others⟩ := List.forall_mem_cons.mp settled
    exact .bind (does_mergeResults distinct first) (ih others)

/-- What is settled for the loops is settled for those that remain. -/
theorem MergesSettled.of_keeps (settled : MergesSettled context before before.tree.loops)
    (distinct : before.tree.ids.Nodup) (kept : before.KeepsLoops .merging after) :
    MergesSettled context after after.tree.loops := by
  intro loop there
  obtain ⟨twin, inside, id_eq, operators⟩ := kept.exists_loop distinct there
  obtain ⟨resultVars, remote, first⟩ := settled twin inside
  refine ⟨resultVars, remote, first.of_same kept.sameOperators.readHop_eq ?_ operators⟩
  rw [kept.decided_eq (Plan.isLoop_of_mem_loops there), id_eq]

theorem of_resultMerge (formed : plan.IsFormed) (owns : plan.OwnsBlocks)
    (parallel : plan.tree.root.kind = .parfor)
    (leads : (runResultMerge context).Leads plan () after) :
    MergesSettled context after after.tree.loops := by
  have merged := Pass.Leads.of_plan_bind leads
  dsimp only at merged
  rw [← mergeEach_loops parallel] at merged
  have distinct := formed.numbered.distinct
  have settled := of_mergeEach formed owns (fun _ => Plan.isLoop_of_mem_loops)
    (PlanTree.nodup_loops distinct) merged
  have kept := merged.related (respects_mergeEach keeps_matrices_setResultMerge _) formed
  -- The loops afterwards are the same ones, with other records.
  intro loop there
  obtain ⟨twin, inside, id_eq, operators⟩ := kept.exists_loop distinct there
  obtain ⟨resultVars, remote, first⟩ := settled twin inside
  exact ⟨resultVars, remote, first.of_same (fun _ => rfl) (by rw [id_eq]) operators⟩

theorem does_resultMerge (distinct : plan.tree.ids.Nodup) (parallel : plan.tree.root.kind = .parfor)
    (settled : MergesSettled context plan plan.tree.loops) :
    (runResultMerge context).Does plan () plan := by
  refine .bind (.readPlan plan) ?_
  dsimp only
  rw [← mergeEach_loops parallel]
  exact does_mergeEach distinct settled

end AllMerges

/-! ## The eighth rule -/

section Budget

variable [Quantity α] {context : PassContext α} {plan before after : Plan α}

/-- A worker of a local loop has its share of the local memory. -/
def BudgetSettled (context : PassContext α) (plan : Plan α) : Prop :=
  plan.tree.root.placement = .inProcess →
    ∃ workers, Word.count? plan.tree.totalWorkers = some workers ∧
      plan.decided .recompileBudget plan.tree.id =
        (some (), some (some (context.localMemory / Quantity.ofNat (max workers 1))))

/-- The eighth rule does nothing to a loop that runs elsewhere. -/
theorem of_runRecompileBudget (leads : (runRecompileBudget context).Leads plan () after) :
    plan.tree.root.placement = .inProcess ∧
        (∃ workers, Word.count? plan.tree.totalWorkers = some workers ∧
          (Plan.setRecompileBudget plan.tree.id
            (context.localMemory / Quantity.ofNat (max workers 1))).result plan = (.ok (), after)) ∨
      plan.tree.root.placement ≠ .inProcess ∧ after = plan := by
  have chain := Pass.Leads.of_plan_bind leads
  dsimp only at chain
  split at chain
  next here =>
    obtain ⟨workers, counted, shared⟩ := Pass.Leads.of_ofOutcome_bind chain
    obtain ⟨_, mid, set, rest⟩ := Pass.Leads.of_onPlan_bind shared
    obtain rfl := (Pass.Leads.of_pure_bind rest).of_report
    refine .inl ⟨here, workers, ?_, set⟩
    cases found : Word.count? plan.tree.totalWorkers with
    | none => simp [found, orOverflow] at counted
    | some count => simpa [found] using counted
  next elsewhere => exact .inr ⟨elsewhere, (Pass.Leads.of_pure_bind chain).of_report⟩

theorem of_recompileBudget (leads : (runRecompileBudget context).Leads plan () after) :
    BudgetSettled context after := by
  rcases of_runRecompileBudget leads with ⟨-, workers, counted, set⟩ | ⟨elsewhere, rfl⟩
  · have tree_eq : after.tree = plan.tree :=
      (Plan.preserves_tree_updateSettings _ _).of_result set
    intro _
    rw [tree_eq]
    exact ⟨workers, counted, Plan.decided_setRecompileBudget set⟩
  · exact fun here => absurd here elsewhere

theorem does_recompileBudget (settled : BudgetSettled context plan) :
    (runRecompileBudget context).Does plan () plan := by
  refine .bind (.readPlan plan) ?_
  dsimp only
  split
  next here =>
    obtain ⟨workers, counted, decided⟩ := settled here
    have known : orOverflow (Word.count? plan.tree.totalWorkers) = .ok workers := by
      rw [counted, Outcome.orOverflow_some]
    exact .bind (.ofOutcome known plan) (.bind (.onPlan (Plan.setRecompileBudget_eq_self decided))
      (.bind (.pure plan _) (.say plan _ _)))
  next => exact .bind (.pure plan _) (.say plan _ _)

/-- The budget depends on the workers of the loop and on where it runs. -/
theorem BudgetSettled.of_keeps (settled : BudgetSettled context before)
    (kept : before.KeepsLoops .recompileBudget after) (parallel : after.tree.root.kind = .parfor)
    (placement : after.tree.root.placement = before.tree.root.placement)
    (total : after.tree.totalWorkers = before.tree.totalWorkers) : BudgetSettled context after := by
  intro here
  obtain ⟨workers, counted, decided⟩ := settled (placement ▸ here)
  refine ⟨workers, by rw [total, counted], ?_⟩
  rw [kept.decided_eq (Plan.isLoop_root parallel), kept.id_eq, decided]

end Budget

end PlanningRule

/-! ## Aspects that stay -/

namespace Optimizer.Stages

open PlanningRule

variable [Quantity α] {optimizer : Optimizer α} {vars : Variables} {plan final : Plan α}
  {summary : PassSummary α} (stages : Stages optimizer vars plan final summary)
  {aspect : Aspect α β γ}

include stages

theorem decided_serial
    (blindRecord : ∀ (node : PlanNode) workers,
      aspect.record { node with workers } = aspect.record node)
    (blindSettings : ∀ (settings : ParallelSettings α) workers,
      aspect.setting { settings with workers } = aspect.setting settings) :
    stages.serial.decided aspect = plan.decided aspect :=
  (Plan.preserves_decided_serialize blindRecord blindSettings).eq stages.serialized

theorem decided_placed
    (blindRecord : ∀ (node : PlanNode) placement,
      aspect.record { node with placement } = aspect.record node)
    (blindSettings : ∀ (settings : ParallelSettings α) mode,
      aspect.setting { settings with mode } = aspect.setting settings) :
    stages.placed.decided aspect = stages.partitioned.decided aspect :=
  stages.executionStrategy.related (respects_executionStrategy _ fun _ =>
    Plan.preserves_decided_setPlacement (fun node => blindRecord node _)
      fun settings => blindSettings settings _)

theorem decided_colocated
    (blindSettings : ∀ (settings : ParallelSettings α) colocated,
      aspect.setting { settings with colocated } = aspect.setting settings) :
    stages.colocated.decided aspect = stages.placed.decided aspect :=
  stages.colocation.related (respects_colocation _ fun _ =>
    Plan.preserves_decided_updateSettings fun settings => blindSettings settings _)

theorem decided_distributed
    (blindRecord : ∀ (node : PlanNode) workers,
      aspect.record { node with workers } = aspect.record node)
    (blindSettings : ∀ (settings : ParallelSettings α) workers,
      aspect.setting { settings with workers } = aspect.setting settings) :
    stages.distributed.decided aspect = stages.split.decided aspect :=
  stages.degreeOfParallelism.related (respects_degreeOfParallelism _
    (Plan.preserves_decided_setWorkers blindRecord blindSettings))

theorem decided_tasked
    (blindRecord : ∀ (node : PlanNode) text,
      aspect.record (node.setParam .taskPartitioner text) = aspect.record node)
    (blindSettings : ∀ (settings : ParallelSettings α) taskPartitioner,
      aspect.setting { settings with taskPartitioner } = aspect.setting settings) :
    stages.tasked.decided aspect = stages.distributed.decided aspect :=
  stages.taskPartitioner.related (respects_taskPartitioner _ fun _ =>
    Plan.preserves_decided ⟨fun _ => rfl, fun _ => rfl⟩ (fun node => blindRecord node _)
      fun settings => blindSettings settings _)

theorem decided_merged
    (blindRecord : ∀ (node : PlanNode) text,
      aspect.record (node.setParam .resultMerge text) = aspect.record node)
    (blindSettings : ∀ (settings : ParallelSettings α) resultMerge,
      aspect.setting { settings with resultMerge } = aspect.setting settings) :
    stages.merged.decided aspect = stages.tasked.decided aspect :=
  stages.resultMerge.related (respects_resultMerge _ fun _ =>
    Plan.preserves_decided ⟨fun _ => rfl, fun _ => rfl⟩ (fun node => blindRecord node _)
      fun settings => blindSettings settings _)

theorem decided_budgeted
    (blindSettings : ∀ (settings : ParallelSettings α) recompileBudget,
      aspect.setting { settings with recompileBudget } = aspect.setting settings) :
    stages.budgeted.decided aspect = stages.merged.decided aspect :=
  stages.recompileBudget.related (respects_recompileBudget _ fun _ =>
    Plan.preserves_decided_updateSettings fun settings => blindSettings settings _)

end Optimizer.Stages

end ParallelLoop
