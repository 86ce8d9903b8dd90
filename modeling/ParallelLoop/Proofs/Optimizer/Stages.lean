/-
# The stages of a pass

A pass that succeeds goes through a fixed chain of plans: the one it was given, the one
that was made serial, and one after each rule. `Optimizer.Stages` names them, together
with the contexts in which the rules were applied, so that what is said about a pass
is put together from what is said about its rules. The log plays no part in it.
-/

import ParallelLoop.Proofs.Optimizer.Rules
import ParallelLoop.Proofs.Plan.Alignment

namespace ParallelLoop

open Change (Respects SameView)

variable {α β γ : Type}

namespace Pass

/-- A step of a pass leads from one plan to another with this value, for some log. -/
def Leads (step : Pass α β) (plan : Plan α) (value : β) (after : Plan α) : Prop :=
  ∃ log logAfter, step.result { plan, log } = (.ok value, { plan := after, log := logAfter })

namespace Leads

variable {plan after : Plan α} {value : β} {result : γ}

theorem of_bind {first : Pass α β} {next : β → Pass α γ}
    (leads : (first >>= next).Leads plan result after) :
    ∃ value mid, first.Leads plan value mid ∧ (next value).Leads mid result after := by
  obtain ⟨log, logAfter, done⟩ := leads
  obtain ⟨value, mid, step, rest⟩ := Change.of_bind done
  exact ⟨value, mid.plan, ⟨log, mid.log, step⟩, mid.log, logAfter, rest⟩

theorem of_onPlan {change : Change (Plan α) β} (leads : (onPlan change).Leads plan value after) :
    change.result plan = (.ok value, after) := by
  obtain ⟨log, logAfter, done⟩ := leads
  exact onPlan_ok done

theorem of_onPlan_bind {change : Change (Plan α) β} {next : β → Pass α γ}
    (leads : (onPlan change >>= next).Leads plan result after) :
    ∃ value mid, change.result plan = (.ok value, mid) ∧ (next value).Leads mid result after := by
  obtain ⟨value, mid, step, rest⟩ := of_bind leads
  exact ⟨value, mid, of_onPlan step, rest⟩

theorem of_plan_bind {next : Plan α → Pass α γ}
    (leads : (Pass.plan >>= next).Leads plan result after) :
    (next plan).Leads plan result after := by
  obtain ⟨log, logAfter, done⟩ := leads
  rw [Change.result_bind (result_plan _)] at done
  exact ⟨log, logAfter, done⟩

theorem of_say_bind {level : LogLevel} {text : String} {next : Unit → Pass α γ}
    (leads : (say level text >>= next).Leads plan result after) :
    (next ()).Leads plan result after := by
  obtain ⟨log, logAfter, done⟩ := leads
  rw [say, Change.result_bind (Change.result_modify _ _)] at done
  exact ⟨_, logAfter, done⟩

theorem of_ofOutcome_bind {outcome : Except Failure β} {next : β → Pass α γ}
    (leads : Leads (Change.ofOutcome outcome >>= next) plan result after) :
    ∃ value, outcome = .ok value ∧ (next value).Leads plan result after := by
  obtain ⟨log, logAfter, done⟩ := leads
  obtain ⟨value, found, rest⟩ := Change.of_ofOutcome_bind done
  exact ⟨value, found, log, logAfter, rest⟩

theorem of_ofExcept_bind {outcome : Except Error β} {next : β → Pass α γ}
    (leads : Leads (Change.ofExcept outcome >>= next) plan result after) :
    ∃ value, outcome = .ok value ∧ (next value).Leads plan result after := by
  obtain ⟨log, logAfter, done⟩ := leads
  obtain ⟨value, found, rest⟩ := Change.of_ofExcept_bind done
  exact ⟨value, found, log, logAfter, rest⟩

theorem of_inspect_bind (look : Plan α → Except Error β) {next : β → Pass α γ}
    (leads : Leads (Change.inspect (fun state => look state.plan) >>= next) plan result after) :
    ∃ value, look plan = .ok value ∧ (next value).Leads plan result after := by
  obtain ⟨log, logAfter, done⟩ := leads
  obtain ⟨value, found, rest⟩ := Change.of_inspect_bind done
  exact ⟨value, found, log, logAfter, rest⟩

theorem of_pure {other : β} (leads : Leads (pure value) plan other after) :
    other = value ∧ after = plan := by
  obtain ⟨log, logAfter, done⟩ := leads
  cases done
  exact ⟨rfl, rfl⟩

theorem of_pure_bind {next : β → Pass α γ} (leads : Leads (pure value >>= next) plan result after) :
    Leads (next value) plan result after := by
  rwa [pure_bind] at leads

theorem not_fail {cause : Error} : ¬ Leads (Change.fail cause : Pass α β) plan value after := by
  rintro ⟨log, logAfter, done⟩
  rw [Change.result_fail] at done
  cases done

/-- A step relates the plans before and after it as it respects. -/
theorem related {relation : Plan α → Plan α → Prop} {step : Pass α β}
    (leads : step.Leads plan value after) (kept : Respects (Across relation) step) :
    relation plan after := by
  obtain ⟨log, logAfter, done⟩ := leads
  exact kept.of_result done

end Leads

theorem Leads.of_report {rule : PlanningRule} {text : String} {plan after : Plan α}
    (leads : (rule.report text).Leads plan () after) : after = plan :=
  leads.related (PlanningRule.respects_report _ _ : Respects (Across (SameView id)) _)

/-- A step of a pass gives this value and leaves this plan, whatever the log. -/
def Does (step : Pass α β) (plan : Plan α) (value : β) (after : Plan α) : Prop :=
  ∀ log, ∃ logAfter, step.result { plan, log } = (.ok value, { plan := after, log := logAfter })

namespace Does

variable {plan mid after : Plan α} {value : β} {result : γ}

theorem bind {first : Pass α β} {next : β → Pass α γ} (step : first.Does plan value mid)
    (rest : (next value).Does mid result after) : (first >>= next).Does plan result after := by
  intro log
  obtain ⟨logMid, done⟩ := step log
  obtain ⟨logAfter, finished⟩ := rest logMid
  exact ⟨logAfter, by rw [Change.result_bind done, finished]⟩

theorem pure (plan : Plan α) (value : β) : Does (pure value) plan value plan := fun log =>
  ⟨log, rfl⟩

theorem readPlan (plan : Plan α) : Pass.plan.Does plan plan plan := fun log => ⟨log, rfl⟩

theorem say (plan : Plan α) (level : LogLevel) (text : String) :
    (Pass.say level text).Does plan () plan := fun _ => ⟨_, rfl⟩

theorem onPlan {change : Change (Plan α) β} (done : change.result plan = (.ok value, after)) :
    (Pass.onPlan change).Does plan value after := fun log =>
  ⟨log, by rw [result_onPlan, done]⟩

theorem ofOutcome {outcome : Except Failure β} (found : outcome = .ok value) (plan : Plan α) :
    Does (Change.ofOutcome outcome) plan value plan := fun log =>
  ⟨log, by rw [Change.result_ofOutcome, found]⟩

theorem ofExcept {outcome : Except Error β} (found : outcome = .ok value) (plan : Plan α) :
    Does (Change.ofExcept outcome) plan value plan := fun log =>
  ⟨log, by rw [Change.result_ofExcept, found]; rfl⟩

theorem inspect (look : Plan α → Except Error β) (found : look plan = .ok value) :
    Does (Change.inspect fun state => look state.plan) plan value plan := fun log =>
  ⟨log, by rw [Change.result_inspect, found]; rfl⟩

end Does

end Pass

namespace PassContext

variable [Quantity α] {settings : OptimizerSettings α} {vars : Variables}
  {infrastructure : Infrastructure} {plan : Plan α}

/-- The context of a tree whose loop has this trip count. -/
def ofTree (settings : OptimizerSettings α) (vars : Variables) (infrastructure : Infrastructure)
    (tree : PlanTree) (iterations : Nat) (nested : Bool) : PassContext α where
  settings := settings
  vars := vars
  iterations := iterations
  problemSize := max tree.maxProblemSize iterations
  localParallelism := infrastructure.localParallelism
  localLimit := scale settings.workerFactor infrastructure.localParallelism
  mixedLimit := scale settings.mixedWorkerFactor infrastructure.localParallelism
  remoteNodes := infrastructure.remoteNodes
  remoteParallelism := infrastructure.remoteParallelism
  remoteLimit := scale settings.workerFactor infrastructure.remoteParallelism
  localMemory := settings.memoryShare * Quantity.ofNat infrastructure.localMemory
  remoteMemory := settings.memoryShare * Quantity.ofNat infrastructure.remoteMemory
  footprint := Quantity.zero
  nested := nested

/-- A context that was found. A loop that was split has the trip count from before the split, and any
other one that of its node. -/
theorem of_ofPlan {context : PassContext α}
    (done : ofPlan settings vars infrastructure plan = .ok context) :
    ∃ split iterations, plan.splitTripCount plan.tree.id settings.nestedVar = .ok split ∧
      (split = some iterations ∨ split = none ∧ plan.tree.root.tripCount = .ok iterations) ∧
      context = ofTree settings vars infrastructure plan.tree iterations split.isSome := by
  obtain ⟨split, split_eq, counted⟩ := Outcome.of_bind done
  cases split with
  | some count =>
    cases counted
    exact ⟨some count, count, split_eq, .inl rfl, rfl⟩
  | none =>
    obtain ⟨iterations, found, returned⟩ := Outcome.of_bind counted
    cases returned
    exact ⟨none, iterations, split_eq, .inr ⟨rfl, Outcome.of_orFailure found⟩, rfl⟩

end PassContext

namespace Optimizer

open Pass PlanningRule

variable {optimizer : Optimizer α} {vars : Variables} {plan after final : Plan α}
  {summary : PassSummary α}

theorem of_estimate {asked : Nat} {footprint : α}
    (leads : (optimizer.estimate asked).Leads plan footprint after) :
    optimizer.estimator.memory asked plan = .ok footprint ∧ after = plan := by
  obtain ⟨log, logAfter, done⟩ := leads
  unfold estimate at done
  rw [Change.result_bind (result_plan _), Change.result_ofExcept, Prod.mk.injEq] at done
  exact ⟨Outcome.of_orFailure done.1, (congrArg PassState.plan done.2).symm⟩

variable [Quantity α]

/-- The rules after the one that may split the loop. -/
def laterRules (context : PassContext α) : Pass α (PassContext α × Nat) := do
  announce .degreeOfParallelism
  runDegreeOfParallelism context
  announce .taskPartitioner
  runTaskPartitioner context
  announce .resultMerge
  runResultMerge context
  announce .recompileBudget
  runRecompileBudget context
  announce .unnecessaryLoops
  let removed ← runUnnecessaryLoops
  return (context, removed)

theorem applyRules_eq (optimizer : Optimizer α) (context : PassContext α) :
    optimizer.applyRules context = (do
      announce .dataPartitioner
      runDataPartitioner context
      let context ← optimizer.reestimate context
      announce .executionStrategy
      runExecutionStrategy context
      announce .colocation
      runColocation context
      announce .nestedParallelism
      let context ← runNestedParallelism context
      laterRules context) := rfl

/-- The plans and the contexts of a pass that succeeded. -/
structure Stages (optimizer : Optimizer α) (vars : Variables) (plan final : Plan α)
    (summary : PassSummary α) where
  infrastructure : Infrastructure
  /-- The context before anything was estimated. -/
  context : PassContext α
  /-- The context from the fourth rule on. -/
  last : PassContext α
  initialFootprint : α
  footprint : α
  removed : Nat
  serial : Plan α
  partitioned : Plan α
  placed : Plan α
  colocated : Plan α
  split : Plan α
  distributed : Plan α
  tasked : Plan α
  merged : Plan α
  budgeted : Plan α
  parallel : plan.tree.root.kind = .parfor
  resolved : optimizer.probe.resolve = .ok infrastructure
  ofPlan : PassContext.ofPlan optimizer.settings vars infrastructure plan = .ok context
  serialized : (Plan.serialize plan.tree.root.id).result plan = (.ok (), serial)
  estimated : optimizer.estimator.memory 0 serial = .ok initialFootprint
  dataPartitioner : (runDataPartitioner { context with footprint := initialFootprint }).Leads
    serial () partitioned
  reestimated : optimizer.estimator.memory 1 partitioned = .ok footprint
  executionStrategy : (runExecutionStrategy { context with footprint }).Leads partitioned () placed
  colocation : (runColocation { context with footprint }).Leads placed () colocated
  nestedParallelism : (runNestedParallelism { context with footprint }).Leads colocated last split
  degreeOfParallelism : (runDegreeOfParallelism last).Leads split () distributed
  taskPartitioner : (runTaskPartitioner last).Leads distributed () tasked
  resultMerge : (runResultMerge last).Leads tasked () merged
  recompileBudget : (runRecompileBudget last).Leads merged () budgeted
  unnecessaryLoops : runUnnecessaryLoops.Leads budgeted removed final
  summarized : (summarize last initialFootprint removed).Leads final summary final

theorem of_prepare {context : PassContext α}
    (leads : (optimizer.prepare vars).Leads plan context after) :
    ∃ infrastructure blank footprint, plan.tree.root.kind = .parfor ∧
      optimizer.probe.resolve = .ok infrastructure ∧
      PassContext.ofPlan optimizer.settings vars infrastructure plan = .ok blank ∧
      (Plan.serialize plan.tree.root.id).result plan = (.ok (), after) ∧
      optimizer.estimator.memory 0 after = .ok footprint ∧ context = { blank with footprint } := by
  have chain := Leads.of_plan_bind leads
  dsimp only at chain
  split at chain
  next =>
    obtain ⟨_, _, stopped, -⟩ := Leads.of_bind chain
    exact absurd stopped Leads.not_fail
  next parallel =>
    obtain ⟨infrastructure, resolved, probed⟩ := Leads.of_ofExcept_bind (Leads.of_say_bind chain)
    obtain ⟨blank, ofPlan, known⟩ := Leads.of_ofOutcome_bind (Leads.of_plan_bind probed)
    obtain ⟨_, serial, serialized, ready⟩ := Leads.of_onPlan_bind (Leads.of_say_bind known)
    obtain ⟨footprint, _, asked, done⟩ := Leads.of_bind ready
    obtain ⟨memory, rfl⟩ := of_estimate asked
    have returned := Leads.of_say_bind done
    obtain ⟨context_eq, rfl⟩ := Leads.of_pure returned
    exact ⟨infrastructure, blank, footprint, not_not.mp parallel, resolved, ofPlan, serialized,
      memory, context_eq⟩

theorem of_reestimate {context result : PassContext α}
    (leads : (optimizer.reestimate context).Leads plan result after) :
    ∃ footprint, optimizer.estimator.memory 1 plan = .ok footprint ∧
      result = { context with footprint } ∧ after = plan := by
  obtain ⟨footprint, _, asked, done⟩ := Leads.of_bind leads
  obtain ⟨memory, rfl⟩ := of_estimate asked
  have returned := Leads.of_say_bind done
  obtain ⟨result_eq, rfl⟩ := Leads.of_pure returned
  exact ⟨footprint, memory, result_eq, rfl⟩

omit [Quantity α] in
theorem respects_decisions {relation : Plan α → Plan α → Prop} [IsPreorder (Plan α) relation]
    (nodes : List PlanNode) : Respects relation (decisions nodes) := by
  induction nodes with
  | nil => exact .pure _
  | cons node rest ih =>
    unfold decisions
    split
    next => exact .bind (.inspect _) fun _ => .bind ih fun _ => .pure _
    next => exact ih

omit [Quantity α] in
/-- Summing up changes nothing. -/
theorem respects_summarize {relation : Plan α → Plan α → Prop} [IsPreorder (Plan α) relation]
    (context : PassContext α) (footprint : α) (removed : Nat) :
    Respects (Across relation) (summarize context footprint removed) :=
  .bind respects_plan fun _ => .bind (.inspect _) fun _ =>
    .bind (respects_onPlan (respects_decisions _)) fun _ => .pure _

/-- A pass that succeeds goes through all stages. -/
theorem exists_stages (done : (optimizer.optimize vars plan).1 = .ok summary) :
    Nonempty (Stages optimizer vars plan (optimizer.optimize vars plan).2.plan summary) := by
  have leads : (optimizer.pass vars).Leads plan summary (optimizer.optimize vars plan).2.plan :=
    ⟨[], (optimizer.optimize vars plan).2.log, Prod.ext done rfl⟩
  obtain ⟨context, serial, prepared, optimized⟩ := Leads.of_bind leads
  obtain ⟨infrastructure, blank, initialFootprint, parallel, resolved, ofPlan, serialized,
    estimated, rfl⟩ := of_prepare prepared
  obtain ⟨⟨last, removed⟩, final, applied, finished⟩ := Leads.of_bind optimized
  obtain ⟨_, _, dataPartitioner, rest⟩ := Leads.of_bind (Leads.of_say_bind applied)
  obtain ⟨_, partitioned, asked, placing⟩ := Leads.of_bind rest
  obtain ⟨footprint, reestimated, rfl, rfl⟩ := of_reestimate asked
  obtain ⟨_, placed, executionStrategy, colocating⟩ := Leads.of_bind (Leads.of_say_bind placing)
  obtain ⟨_, colocated, colocation, nesting⟩ := Leads.of_bind (Leads.of_say_bind colocating)
  obtain ⟨nested, split, nestedParallelism, distributing⟩ :=
    Leads.of_bind (Leads.of_say_bind nesting)
  obtain ⟨_, distributed, degreeOfParallelism, cutting⟩ :=
    Leads.of_bind (Leads.of_say_bind distributing)
  obtain ⟨_, tasked, taskPartitioner, merging⟩ := Leads.of_bind (Leads.of_say_bind cutting)
  obtain ⟨_, merged, resultMerge, budgeting⟩ := Leads.of_bind (Leads.of_say_bind merging)
  obtain ⟨_, budgeted, recompileBudget, demoting⟩ := Leads.of_bind (Leads.of_say_bind budgeting)
  obtain ⟨count, demoted, unnecessaryLoops, done⟩ := Leads.of_bind (Leads.of_say_bind demoting)
  obtain ⟨pair_eq, rfl⟩ := Leads.of_pure done
  obtain ⟨rfl, rfl⟩ := Prod.mk.inj pair_eq
  obtain ⟨found, same, summarized, logged⟩ := Leads.of_bind finished
  have returned := Leads.of_say_bind (Leads.of_plan_bind logged)
  obtain ⟨rfl, rfl⟩ := Leads.of_pure returned
  -- Summing up is the last step, so the plan before it is the one that is left.
  have unchanged : (optimizer.optimize vars plan).2.plan = final :=
    summarized.related (respects_summarize _ _ _ : Respects (Across (SameView id)) _)
  rw [unchanged] at summarized ⊢
  exact ⟨{
    infrastructure, context := blank, last, initialFootprint, footprint
    removed, serial, partitioned, placed, colocated, split, distributed, tasked, merged
    budgeted, parallel, resolved, ofPlan, serialized, estimated, dataPartitioner, reestimated
    executionStrategy, colocation, nestedParallelism, degreeOfParallelism, taskPartitioner
    resultMerge, recompileBudget, unnecessaryLoops, summarized }⟩

/-! ## What a pass keeps -/

/-- The fourth rule splits the loop or does nothing. -/
theorem of_nestedParallelism {context last : PassContext α}
    (leads : (runNestedParallelism context).Leads plan last after) :
    last = context ∧ after = plan ∨
      last = { context with nested := true } ∧ shouldSplit context plan.tree = true ∧
        ∃ inner, (Plan.splitLoop plan.tree.id (divideUp context.iterations context.remoteNodes)
          context.settings.nestedVar).result plan = (.ok inner, after) := by
  have chain := Leads.of_plan_bind leads
  dsimp only at chain
  split at chain
  next pays =>
    obtain ⟨inner, _, divided, rest⟩ := Leads.of_onPlan_bind chain
    have returned := Leads.of_say_bind (Leads.of_pure_bind rest)
    obtain ⟨rfl, rfl⟩ := Leads.of_pure returned
    exact .inr ⟨rfl, pays, inner, divided⟩
  next =>
    have returned := Leads.of_say_bind (Leads.of_pure_bind chain)
    exact .inl (Leads.of_pure returned)

omit [Quantity α] in
/-- A summary tells what the context, the loop and its settings say. -/
theorem of_summarize {context : PassContext α} {initial : α} {removed : Nat}
    (leads : (summarize context initial removed).Leads plan summary after) :
    ∃ settings decided, plan.settings plan.tree.id = .ok settings ∧ summary =
      { iterations := context.iterations
        problemSize := context.problemSize
        initialFootprint := initial
        footprint := context.footprint
        placement := plan.tree.root.placement
        dataPartitioner := settings.dataPartitioner
        colocated := settings.colocated
        nested := context.nested
        decisions := decided
        removed := removed
        evaluated := 1 } := by
  obtain ⟨settings, found, asked⟩ :=
    Leads.of_inspect_bind (fun plan => plan.settings _) (Leads.of_plan_bind leads)
  obtain ⟨decided, _, -, returned⟩ := Leads.of_onPlan_bind asked
  exact ⟨settings, decided, found, returned.of_pure.1⟩

namespace Stages

variable (stages : Stages optimizer vars plan final summary)

include stages

/-- Partitioning inputs leaves a view alone that ignores decisions. -/
theorem view_partitioned {view : Plan α → γ} (ignores : Plan.Ignores PlanNode.given view) :
    view stages.partitioned = view plan := by
  rw [← ignores.serialize.eq stages.serialized]
  exact stages.dataPartitioner.related
    (respects_dataPartitioner _ ignores.setPartitionFormat
      (ignores.setDataPartitioner PlanNode.given_setParam))

/-- Up to the split such a view shows the plan that was given. -/
theorem view_colocated {view : Plan α → γ} (ignores : Plan.Ignores PlanNode.given view) :
    view stages.colocated = view plan :=
  calc view stages.colocated
      = view stages.placed :=
      stages.colocation.related (respects_colocation _ ignores.setColocated)
    _ = view stages.partitioned :=
      stages.executionStrategy.related (respects_executionStrategy _ ignores.setPlacement)
    _ = view plan := stages.view_partitioned ignores

/-- The sixth, seventh and eighth rule leave a view alone that does not show texts. -/
theorem view_written {erase : PlanNode → PlanNode} {view : Plan α → γ}
    (ignores : Plan.Ignores erase view)
    (texts : ∀ node {parameter} text, parameter ≠ .numIterations →
      erase (PlanNode.setParam node parameter text) = erase node) :
    view stages.budgeted = view stages.distributed :=
  calc view stages.budgeted
      = view stages.merged :=
      stages.recompileBudget.related (respects_recompileBudget _ ignores.setRecompileBudget)
    _ = view stages.tasked :=
      stages.resultMerge.related (respects_resultMerge _ (ignores.setResultMerge texts))
    _ = view stages.distributed :=
      stages.taskPartitioner.related
        (respects_taskPartitioner _ (ignores.setTaskPartitioner texts))

/-- From the split on it stays until loops are demoted. -/
theorem view_budgeted {view : Plan α → γ} (ignores : Plan.Ignores PlanNode.given view) :
    view stages.budgeted = view stages.split :=
  calc view stages.budgeted
      = view stages.distributed := stages.view_written ignores PlanNode.given_setParam
    _ = view stages.split :=
      stages.degreeOfParallelism.related (respects_degreeOfParallelism _ ignores.setWorkers)

theorem layout_serial : stages.serial.layout = plan.layout :=
  Plan.ignores_layout.given.serialize.eq stages.serialized

theorem layout_partitioned : stages.partitioned.layout = plan.layout :=
  stages.view_partitioned Plan.ignores_layout.given

theorem layout_colocated : stages.colocated.layout = plan.layout :=
  stages.view_colocated Plan.ignores_layout.given

theorem layout_distributed : stages.distributed.layout = stages.split.layout :=
  stages.degreeOfParallelism.related
    (respects_degreeOfParallelism _ Plan.ignores_layout.given.setWorkers)

theorem layout_tasked : stages.tasked.layout = stages.split.layout :=
  (stages.taskPartitioner.related (respects_taskPartitioner _
    (Plan.ignores_layout.given.setTaskPartitioner PlanNode.given_setParam))).trans
      stages.layout_distributed

theorem layout_merged : stages.merged.layout = stages.split.layout :=
  (stages.resultMerge.related (respects_resultMerge _
    (Plan.ignores_layout.given.setResultMerge PlanNode.given_setParam))).trans
      stages.layout_tasked

/-- The budget for compiling stands in the settings alone. -/
theorem tree_budgeted : stages.budgeted.tree = stages.merged.tree :=
  stages.recompileBudget.related
    (respects_recompileBudget _ fun _ => Plan.preserves_tree_updateSettings _ _)

theorem layout_budgeted : stages.budgeted.layout = stages.split.layout :=
  stages.view_budgeted Plan.ignores_layout.given

/-- Once the workers are distributed, nothing is chosen until loops are demoted. -/
theorem choices_budgeted : stages.budgeted.choices = stages.distributed.choices :=
  stages.view_written Plan.ignores_choices fun _ _ _ _ => rfl

/-- The plan whose workers are distributed has the layout of the plan that was given, or of that
plan with its only loop split. -/
theorem layout_cases (distinct : plan.tree.ids.Nodup) :
    stages.split.layout = plan.layout ∨
      stages.colocated.tree.hasNestedParallelism = false ∧
        ∃ root outer inner children top,
          Plan.Split stages.colocated stages.split root outer inner children top := by
  rcases of_nestedParallelism stages.nestedParallelism with
    ⟨-, same⟩ | ⟨-, pays, inner, divided⟩
  · rw [same]
    exact .inl stages.layout_colocated
  · have stillDistinct := Plan.nodup_of_layout distinct stages.layout_colocated
    unfold shouldSplit at pays
    simp only [Bool.and_eq_true, Bool.not_eq_true'] at pays
    exact .inr ⟨pays.1.2, Plan.exists_split stillDistinct divided⟩

theorem isNumbered_colocated (numbered : plan.tree.IsNumbered) :
    stages.colocated.tree.IsNumbered :=
  Plan.isNumbered_of_layout numbered stages.layout_colocated

/-- The nodes stay numbered, whether the loop is split or not. -/
theorem isNumbered_split (numbered : plan.tree.IsNumbered) : stages.split.tree.IsNumbered := by
  rcases stages.layout_cases numbered.distinct with
    same | ⟨-, root, outer, inner, children, top, split⟩
  · exact Plan.isNumbered_of_layout numbered same
  · exact split.isNumbered (stages.isNumbered_colocated numbered)

/-- The rules from the fourth one on know the new estimate, and whether the loop is split. -/
theorem exists_last_eq : ∃ nested,
    stages.last = { stages.context with footprint := stages.footprint, nested } := by
  rcases of_nestedParallelism stages.nestedParallelism with ⟨same, -⟩ | ⟨same, -⟩
  · exact ⟨stages.context.nested, same⟩
  · exact ⟨true, same⟩

/-- The summary tells what the context said before and after the new estimate. -/
theorem summary_eq : summary.iterations = stages.context.iterations ∧
    summary.footprint = stages.footprint ∧ summary.nested = stages.last.nested := by
  obtain ⟨_, _, -, summed⟩ := of_summarize stages.summarized
  obtain ⟨_, last_eq⟩ := stages.exists_last_eq
  have iterations : summary.iterations = stages.last.iterations := (congrArg _ summed :)
  have footprint : summary.footprint = stages.last.footprint := (congrArg _ summed :)
  refine ⟨?_, ?_, congrArg PassSummary.nested summed⟩
  · rw [iterations, last_eq]
  · rw [footprint, last_eq]

theorem last_eq : stages.last =
    { stages.context with footprint := summary.footprint, nested := summary.nested } := by
  obtain ⟨-, footprint, nested⟩ := stages.summary_eq
  obtain ⟨_, last_eq⟩ := stages.exists_last_eq
  rw [footprint, nested, last_eq]

end Stages

/-! ## Machines to optimize for, and a loop -/

/-- An optimizer for a machine with this many workers, memory for as many footprints, and no
cluster. -/
def ofMachine (workers : Nat) : Optimizer Rat where
  settings :=
    { sizeThreshold := 100
      nestedSizeFactor := 10
      workerFactor := 1
      mixedWorkerFactor := 2
      memoryShare := 1
      nestedParallelism := false
      copyCellFiles := true
      blockSize := 1000
      nestedVar := "__pixi" }
  probe := (Infrastructure.localOnly workers workers).probe
  estimator := .scripted [some 1]

/-- An optimizer for a machine with one worker and a cluster with so many nodes, which run so many
tasks at once. It splits loops, and asks the memory model. -/
def ofCluster (nodes tasks : Nat) : Optimizer Rat where
  settings := { (ofMachine 1).settings with sizeThreshold := 1, nestedParallelism := true }
  probe := Infrastructure.probe
    { localParallelism := 1
      localMemory := 100
      remoteNodes := nodes
      remoteParallelism := tasks
      remoteMemory := 100 }
  estimator := .hops 1

/-- A loop from three to nine in steps of two, around one block. -/
def oneLoop : Plan Rat where
  tree :=
    .node { id := ⟨0⟩, kind := .parfor, placement := .inProcess, block := some ⟨0⟩
            parameters := { numIterations := some "4" } } []
  program :=
    { blocks := #[
        .parallel { var := "i", first := .const 3, last := .const 9, step := 2 } .undecided [⟨1⟩],
        { kind := .generic, bounds := none, children := [], settings := none }]
      hops := #[] }

end Optimizer

end ParallelLoop
