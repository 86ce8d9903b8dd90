/-
# Rules that succeed

Each rule looks up what it needs and then decides. For a plan that is backed every lookup
finds something, so every rule succeeds; and since each rule leaves the plan backed, so do
the rules after it. Three of them need more. The fourth rule needs the step over a chunk to
be a signed word, and leaves a loop behind its first child when it splits; the sixth rule
relies on that loop; and the eighth rule counts the workers in a machine word.
-/

import ParallelLoop.Proofs.Optimizer.Backing
import ParallelLoop.Proofs.Optimizer.Repetition
import ParallelLoop.Proofs.Optimizer.WorkerBudget

namespace ParallelLoop

open Change (Respects)

variable {α β γ : Type}

namespace Pass

/-- A step of a pass does not stop when it starts with this plan, whatever the log. -/
def Succeeds (step : Pass α β) (plan : Plan α) : Prop := ∀ log, Change.Succeeds step { plan, log }

namespace Succeeds

variable {plan mid : Plan α} {value : β} {first : Pass α β} {next : β → Pass α γ}

/-- Each step of a chain has to succeed where the one before it may lead. -/
theorem bind (start : first.Succeeds plan)
    (rest : ∀ value mid, first.Leads plan value mid → (next value).Succeeds mid) :
    (first >>= next).Succeeds plan := fun log =>
  .bind (start log) fun value after step => rest value after.plan ⟨log, after.log, step⟩ after.log

/-- What comes after a step that is known has to succeed where the step leads. -/
theorem go_on (step : first.Does plan value mid) (rest : (next value).Succeeds mid) :
    (first >>= next).Succeeds plan := fun log => by
  obtain ⟨logMid, done⟩ := step log
  exact .go_on done (rest logMid)

theorem of_does (step : first.Does plan value mid) : first.Succeeds plan := fun log => by
  obtain ⟨logAfter, done⟩ := step log
  exact ⟨value, _, done⟩

theorem pure (plan : Plan α) (value : β) : Succeeds (pure value) plan := of_does (.pure plan value)

theorem say (plan : Plan α) (level : LogLevel) (text : String) :
    (Pass.say level text).Succeeds plan := of_does (.say plan level text)

theorem onPlan_bind {change : Change (Plan α) β} (start : change.Succeeds plan)
    (rest : ∀ value mid, change.result plan = (.ok value, mid) → (next value).Succeeds mid) :
    (onPlan change >>= next).Succeeds plan := by
  obtain ⟨value, mid, done⟩ := start
  exact go_on (.onPlan done) (rest value mid done)

end Succeeds

/-- A step of a pass succeeds with this plan, whatever the log, and what it gives and the plan it
leads to meet a condition. -/
def Establishes (step : Pass α β) (plan : Plan α) (condition : β → Plan α → Prop) : Prop :=
  ∀ log, ∃ value after, Change.result step { plan, log } = (.ok value, after) ∧
    condition value after.plan

namespace Establishes

variable {plan mid : Plan α} {value : β} {first : Pass α β} {next : β → Pass α γ}
  {condition : γ → Plan α → Prop}

theorem bind (start : first.Succeeds plan)
    (rest : ∀ value mid, first.Leads plan value mid → (next value).Establishes mid condition) :
    (first >>= next).Establishes plan condition := fun log => by
  obtain ⟨value, after, step⟩ := start log
  obtain ⟨result, final, done, holds⟩ := rest value after.plan ⟨log, after.log, step⟩ after.log
  exact ⟨result, final, by rw [Change.result_bind step, done], holds⟩

theorem go_on (step : first.Does plan value mid) (rest : (next value).Establishes mid condition) :
    (first >>= next).Establishes plan condition := fun log => by
  obtain ⟨logMid, done⟩ := step log
  obtain ⟨result, final, finished, holds⟩ := rest logMid
  exact ⟨result, final, by rw [Change.result_bind done, finished], holds⟩

theorem pure {result : γ} (holds : condition result plan) :
    Establishes (pure result) plan condition := fun log => ⟨result, { plan, log }, rfl, holds⟩

/-- What comes after a step has to succeed wherever its condition is met. -/
theorem succeeds_bind {last : γ → Pass α β} {start : Pass α γ}
    (establishes : start.Establishes plan condition)
    (rest : ∀ value mid, condition value mid → (last value).Succeeds mid) :
    (start >>= last).Succeeds plan := fun log => by
  obtain ⟨value, after, step, holds⟩ := establishes log
  exact .go_on step (rest value after.plan holds after.log)

end Establishes

end Pass

namespace PlanningRule

open Plan Pass

variable {context : PassContext α} {vars : Variables} {plan base after : Plan α} {id : NodeId}

section Inputs

variable [Quantity α] {candidates : List (String × PartitionFormat)}

/-! ## The first rule -/

omit [Quantity α] in
/-- A matrix for which slices are found is one of the candidates. -/
theorem exists_candidate {name : String} {format : PartitionFormat}
    (found : sliceFormat? candidates name = some format) :
    ∃ candidate ∈ candidates, candidate.1 = name := by
  obtain ⟨before, rest, split, -⟩ := List.lookup_eq_some_iff.mp found
  have there : (name, format) ∈ (candidates.filter fun candidate => candidate.2 != .none).reverse :=
    split ▸ List.mem_append_right _ (List.mem_cons_self ..)
  exact ⟨_, (List.mem_filter.mp (List.mem_reverse.mp there)).1, rfl⟩

/-- For every input it is known whether a slice fits. -/
theorem exists_slice (backed : plan.IsBacked context.vars)
    (live : context.vars.Holds candidates) (input : id ∈ plan.tree.inputs) :
    ∃ choice, sliceOf context candidates plan id = .ok choice := by
  obtain ⟨tree, listed, rfl⟩ := List.mem_map.mp input
  obtain ⟨member, partitionable⟩ := List.mem_filter.mp listed
  rw [PlanTree.isPartitionable_eq, PlanNode.isInput] at partitionable
  simp only [Bool.and_eq_true, beq_iff_eq] at partitionable
  obtain ⟨-, ⟨operator, indexing⟩, -⟩ := partitionable
  obtain ⟨hop, read, answers⟩ := backed.operators _ (List.mem_map_of_mem member) operator
  obtain ⟨name, name_eq⟩ := Option.isSome_iff_exists.mp (answers.matrix indexing)
  have read : plan.readHop tree.id = .ok hop := read
  rw [sliceOf, read, Outcome.ok_bind, sliceFor, name_eq]
  dsimp only
  -- A format that is found is one of the candidates, whose matrix is live.
  cases format_eq : sliceFormat? candidates name with
  | none => exact ⟨none, rfl⟩
  | some format =>
    obtain ⟨candidate, there, rfl⟩ := exists_candidate format_eq
    obtain ⟨matrix, matrix_eq⟩ := Option.isSome_iff_exists.mp (live candidate there)
    rw [matrix_eq]
    exact ⟨_, rfl⟩

/-- An operator for which it is known whether a slice fits can be partitioned. -/
theorem succeeds_partitionInput {choice : Option (PartitionFormat × α)}
    (found : sliceOf context candidates plan id = .ok choice) :
    (partitionInput context candidates id).Succeeds plan := by
  refine .congr (result_partitionInput found) ?_
  obtain ⟨hop, read, -⟩ := Outcome.of_bind found
  cases choice with
  | none => exact .pure _ _
  | some slice => exact .bind (succeeds_setPartitionFormat read _ _) fun _ _ _ => .pure _ _

/-- It stays known for the others. -/
theorem sliceOf_partitionInput {other : NodeId} {choice : Option (PartitionFormat × α)}
    {applied : Bool}
    (done : (partitionInput context candidates id).result plan = (.ok applied, after))
    (found : sliceOf context candidates plan other = .ok choice) :
    sliceOf context candidates after other = .ok choice := by
  obtain ⟨own, -, read⟩ := of_partitionInput done
  cases own with
  | none =>
    cases read
    exact found
  | some slice =>
    obtain ⟨_, mid, set, returned⟩ := Change.of_bind read
    cases returned
    exact sliceOf_setPartitionFormat set found

theorem succeeds_partitionEach {ids : List NodeId}
    (known : ∀ id ∈ ids, ∃ choice, sliceOf context candidates plan id = .ok choice) :
    (partitionEach context candidates ids).Succeeds plan := by
  induction ids generalizing plan with
  | nil => exact .pure _ _
  | cons id rest ih =>
    rw [List.forall_mem_cons] at known
    obtain ⟨⟨choice, found⟩, others⟩ := known
    refine .bind (succeeds_partitionInput found) fun applied mid done => .bind (ih ?_) fun _ _ _ =>
      .pure _ _
    intro other there
    obtain ⟨choice, found⟩ := others other there
    exact ⟨choice, sliceOf_partitionInput done found⟩

/-- An operator gets slices of a matrix that is live. -/
theorem backed_partitionInput {applied : Bool} (backed : plan.IsBacked context.vars)
    (done : (partitionInput context candidates id).result plan = (.ok applied, after)) :
    after.IsBacked context.vars := by
  obtain ⟨choice, found, read⟩ := of_partitionInput done
  cases choice with
  | none =>
    cases read
    exact backed
  | some slice =>
    obtain ⟨_, mid, set, returned⟩ := Change.of_bind read
    cases returned
    obtain ⟨hop, held, chosen⟩ := Outcome.of_bind found
    refine backed.setPartitionFormat held (fun name name_eq => ?_) set
    rw [sliceFor, name_eq] at chosen
    dsimp only at chosen
    split at chosen
    next => cases chosen
    next =>
      split at chosen
      next => cases chosen
      next matrix_eq => rw [matrix_eq]; rfl

theorem backed_partitionEach {ids : List NodeId} {applied : Bool}
    (backed : plan.IsBacked context.vars)
    (done : (partitionEach context candidates ids).result plan = (.ok applied, after)) :
    after.IsBacked context.vars := by
  induction ids generalizing plan applied with
  | nil =>
    cases done
    exact backed
  | cons id rest ih =>
    obtain ⟨_, mid, own, others⟩ := Change.of_bind done
    obtain ⟨_, final, below, returned⟩ := Change.of_bind others
    cases returned
    exact ih (backed_partitionInput backed own) below

omit [Quantity α] in
/-- What the first rule does once it is known whether any input is partitioned. -/
theorem succeeds_partitioner (backed : plan.IsBacked vars) (loop : plan.IsLoop id)
    (partitioner : DataPartitioner) :
    Pass.Succeeds (do
      Pass.onPlan (Plan.setDataPartitioner id partitioner)
      dataPartitioner.report partitioner.name : Pass α Unit) plan :=
  .onPlan_bind (backed.succeeds_decision loop _ _) fun _ _ _ => .say _ _ _

theorem succeeds_dataPartitioner (backed : plan.IsBacked context.vars)
    (parallel : plan.tree.root.kind = .parfor) :
    (runDataPartitioner context).Succeeds plan := by
  have loop := isLoop_root parallel
  obtain ⟨settings, read, live⟩ := (backed.loops _ loop).settings
  refine .go_on (.readPlan plan) (.go_on (.inspect (fun plan : Plan α => plan.settings _)
    (settings_eq_ok_iff.mpr read)) ?_)
  dsimp only
  split
  next =>
    rw [partitionInputs_eq]
    refine .onPlan_bind (succeeds_partitionEach fun id input => exists_slice backed live input)
      fun applied mid done => ?_
    -- Slices are written into the records of operators, and the loop is a loop still.
    have layout : mid.layout = plan.layout := by
      refine Change.Preserves.eq ?_ done
      exact respects_partitionEach (fun _ _ => ignores_layout.given.setPartitionFormat _ _) _
    exact succeeds_partitioner (backed_partitionEach backed done)
      (isLoop_of_layout layout.symm loop) _
  next => exact .go_on (.pure plan false) (succeeds_partitioner backed loop _)

theorem backed_dataPartitioner (backed : plan.IsBacked context.vars)
    (leads : (runDataPartitioner context).Leads plan () after) : after.IsBacked context.vars := by
  obtain ⟨settings, read, rest⟩ :=
    Leads.of_inspect_bind (fun plan => plan.settings _) (Leads.of_plan_bind leads)
  have decided {mid : Plan α} {partitioner : DataPartitioner} (still : mid.IsBacked context.vars)
      (chosen : Pass.Leads (do
        Pass.onPlan (Plan.setDataPartitioner plan.tree.id partitioner)
        dataPartitioner.report partitioner.name : Pass α Unit) mid () after) :
      after.IsBacked context.vars := by
    obtain ⟨_, final, set, reported⟩ := Leads.of_onPlan_bind chosen
    obtain rfl := reported.of_report
    exact ((staysBacked_setDataPartitioner partitioner).of_result set still).1
  dsimp only at rest
  split at rest
  next =>
    obtain ⟨applied, mid, partitioned, chosen⟩ := Leads.of_onPlan_bind rest
    rw [partitionInputs_eq] at partitioned
    exact decided (backed_partitionEach backed partitioned) chosen
  next => exact decided backed (Leads.of_pure_bind rest)

end Inputs

/-! ## The second, the third and the fourth rule -/

theorem succeeds_executionStrategy [Quantity α] (backed : plan.IsBacked vars)
    (parallel : plan.tree.root.kind = .parfor) : (runExecutionStrategy context).Succeeds plan :=
  .go_on (.readPlan plan) (.onPlan_bind (backed.succeeds_setPlacement parallel _) fun _ _ _ =>
    .say _ _ _)

/-- The slices of an operator are read from a live matrix. -/
theorem exists_directlyIndexed (backed : plan.IsBacked vars) {tree : PlanTree}
    (member : tree ∈ plan.tree.subtrees) (var : String) :
    ∃ matrix, (directlyIndexed var tree).result plan = (.ok matrix, plan) ∧
      ∀ name, matrix = some name → (vars.get? name).isSome = true := by
  unfold directlyIndexed
  split
  next operator =>
    split
    next => exact ⟨none, rfl, nofun⟩
    next operand operand_eq =>
      simp only [isOperator, Bool.and_eq_true, beq_iff_eq] at operator
      obtain ⟨hop, read, answers⟩ :=
        backed.operators _ (List.mem_map_of_mem member) operator.1.2
      have read : plan.readHop tree.id = .ok hop := read
      rw [result_readHop_bind read]
      refine ⟨_, rfl, fun name name_eq => ?_⟩
      obtain ⟨format, format_eq, -⟩ := Option.bind_eq_some_iff.mp operand_eq
      obtain ⟨text, text_eq, -⟩ := Option.bind_eq_some_iff.mp format_eq
      split at name_eq
      next => exact answers.live (Option.isSome_of_eq_some text_eq) name name_eq
      next => cases name_eq
  next => exact ⟨none, rfl, nofun⟩

theorem exists_directlyIndexedAll (backed : plan.IsBacked vars) {trees : List PlanTree}
    (members : ∀ tree ∈ trees, tree ∈ plan.tree.subtrees) (var : String) :
    ∃ names, (directlyIndexedAll var trees).result plan = (.ok names, plan) ∧
      ∀ name ∈ names, (vars.get? name).isSome = true := by
  induction trees with
  | nil => exact ⟨[], rfl, nofun⟩
  | cons tree rest ih =>
    rw [List.forall_mem_cons] at members
    obtain ⟨matrix, done, live⟩ := exists_directlyIndexed backed members.1 var
    obtain ⟨names, others, alsoLive⟩ := ih members.2
    refine ⟨matrix.toList ++ names, ?_, fun name there => ?_⟩
    · rw [directlyIndexedAll, Change.result_bind done, Change.result_bind others]
      rfl
    · rcases List.mem_append.mp there with own | other
      · exact live name (Option.mem_toList.mp own)
      · exact alsoLive name other

/-- Among live matrices there is a heaviest one, or there is none at all. -/
theorem exists_heaviest {names : List String}
    (live : ∀ name ∈ names, (vars.get? name).isSome = true) (best : Option (String × Nat)) :
    ∃ chosen, heaviest vars best names = .ok chosen := by
  induction names generalizing best with
  | nil => exact ⟨best, rfl⟩
  | cons name rest ih =>
    rw [List.forall_mem_cons] at live
    obtain ⟨matrix, matrix_eq⟩ := Option.isSome_iff_exists.mp live.1
    rw [heaviest, matrix_eq]
    exact ih live.2 _

theorem succeeds_colocation (backed : plan.IsBacked context.vars)
    (parallel : plan.tree.root.kind = .parfor) (whole : context.nested = false) :
    (runColocation context).Succeeds plan := by
  have loop := isLoop_root parallel
  obtain ⟨-, ⟨settings, read, -⟩, ⟨bounds, known⟩⟩ := backed.loops _ loop
  obtain ⟨block, block_eq, bounds_eq⟩ := Option.bind_eq_some_iff.mp known
  obtain ⟨blockId, bound, held⟩ := block?_eq_some_iff.mp block_eq
  have indexing : indexingLoop context plan.tree = plan.tree.id := by
    rw [indexingLoop, whole, if_neg Bool.false_ne_true]
  refine .go_on (.readPlan plan) (.go_on (.inspect (fun plan : Plan α => plan.settings _)
    (settings_eq_ok_iff.mpr read)) ?_)
  dsimp only
  split
  next => exact .say _ _ _
  next =>
    rw [indexing]
    refine .go_on (.inspect (fun plan : Plan α => plan.blockOf _) bound)
      (.go_on (.inspect (fun plan : Plan α => plan.program.block blockId) held) ?_)
    rw [bounds_eq]
    -- The matrices that are read with the loop are live, so each of them can be weighed.
    obtain ⟨names, done, live⟩ := exists_directlyIndexedAll backed (fun _ there => there) bounds.var
    have sorted : ∀ name ∈ names.mergeSort fun a b => decide (a ≤ b),
        (context.vars.get? name).isSome = true :=
      fun name there => live name (List.mem_mergeSort.mp there)
    obtain ⟨chosen, chosen_eq⟩ := exists_heaviest sorted none
    refine .go_on (.onPlan done) (.go_on (.ofExcept chosen_eq plan) ?_)
    cases chosen with
    | none => exact .say _ _ _
    | some matrix =>
      exact .onPlan_bind (backed.succeeds_updateSettings loop _) fun _ _ _ => .say _ _ _

/-- The step over the chunks that a loop would be split into is a signed word. -/
def SplitFits (context : PassContext α) (plan : Plan α) : Prop :=
  ∀ bounds, plan.bounds? plan.tree.id = some bounds → 0 < bounds.step ∧
    Word.InSigned (divideUp context.iterations context.remoteNodes * bounds.step)

/-- When a loop is to be split, the cluster has nodes, no more than there are iterations. -/
theorem of_shouldSplit [Quantity α] {tree : PlanTree} (pays : shouldSplit context tree = true) :
    1 ≤ context.remoteNodes ∧ context.remoteNodes ≤ context.iterations ∧
      tree.hasNestedParallelism = false := by
  unfold shouldSplit at pays
  simp only [Bool.and_eq_true, decide_eq_true_iff, Bool.not_eq_true'] at pays
  obtain ⟨⟨⟨⟨-, nodes⟩, enough⟩, flat⟩, -⟩ := pays
  exact ⟨nodes, enough, flat⟩

theorem succeeds_nestedParallelism [Quantity α] (backed : plan.IsBacked vars)
    (parallel : plan.tree.root.kind = .parfor)
    (fits : 0 < context.remoteNodes → SplitFits context plan) :
    (runNestedParallelism context).Succeeds plan := by
  refine .go_on (.readPlan plan) ?_
  dsimp only
  split
  next pays =>
    obtain ⟨nodes, enough, -⟩ := of_shouldSplit pays
    obtain ⟨bounds, known⟩ := (backed.loops _ (isLoop_root parallel)).bounds
    obtain ⟨forward, word⟩ := fits nodes bounds known
    have chunk := max_eq_left (one_le_divideUp nodes enough)
    exact .onPlan_bind (backed.succeeds_splitLoop parallel known forward (chunk.symm ▸ word) _)
      fun _ _ _ => .go_on (.pure _ _) (.go_on (.say _ _ _) (.pure _ _))
  next => exact .go_on (.pure plan context) (.go_on (.say _ _ _) (.pure _ _))

/-! ## The fifth rule -/

/-- The node is in the plan, and was counted if it is a loop. -/
def Counts (plan : Plan α) (node : PlanNode) : Prop :=
  plan.Covers node ∧ (node.kind = .parfor → ∃ count, node.tripCount = .ok count)

theorem Counts.of_layout {node : PlanNode} (counts : Counts plan node)
    (same : after.layout = plan.layout) : Counts after node :=
  ⟨counts.1.of_layout same, counts.2⟩

theorem counts_of_mem (backed : plan.IsBacked vars) {node : PlanNode}
    (there : node ∈ plan.tree.nodes) : Counts plan node := by
  refine ⟨covers_of_mem there, fun loop => ?_⟩
  obtain ⟨twin, count, found, counted⟩ := (backed.loops _ ⟨node, there, rfl, loop⟩).counted
  rw [PlanTree.node?_eq_some backed.formed.numbered.distinct there] at found
  obtain rfl := Option.some.inj found
  exact ⟨count, counted⟩

theorem staysBacked_distribute (limit : Nat) (tree : PlanTree) :
    Respects (StaysBacked vars) (distribute (α := α) limit tree) :=
  respects_distribute limit (fun _ _ _ => staysBacked_setWorkers) fun _ _ => staysBacked_serialize

/-- Trees in which workers can be distributed one by one can be given them together. -/
theorem succeeds_distributeAll_of {limit : Nat} {trees : List PlanTree}
    (single : ∀ tree ∈ trees, ∀ plan : Plan α, plan.IsBacked vars →
      (∀ node ∈ tree.nodes, Counts plan node) → (distribute limit tree).Succeeds plan)
    (backed : plan.IsBacked vars) (counts : ∀ node ∈ trees.flatMap PlanTree.nodes, Counts plan node) :
    (distributeAll limit trees).Succeeds plan := by
  induction trees generalizing plan with
  | nil => exact .pure _ _
  | cons tree rest ih =>
    rw [List.forall_mem_cons] at single
    rw [List.flatMap_cons, List.forall_mem_append] at counts
    refine .bind (single.1 plan backed counts.1) fun _ mid done => ?_
    obtain ⟨still, layout⟩ := (staysBacked_distribute limit tree).of_result done backed
    exact ih single.2 still fun node there => (counts.2 node there).of_layout layout

/-- Workers can be distributed in a tree whose loops were counted: a loop takes no more than there
are, so a share is left for each of its workers. -/
theorem succeeds_distribute (limit : Nat) (tree : PlanTree) (plan : Plan α)
    (backed : plan.IsBacked vars) (counts : ∀ node ∈ tree.nodes, Counts plan node) :
    (distribute limit tree).Succeeds plan := by
  induction tree using PlanTree.induction generalizing limit plan with
  | node root children ih =>
    rw [PlanTree.nodes_node, List.forall_mem_cons] at counts
    have below (share : Nat) {mid : Plan α} (still : mid.IsBacked vars)
        (layout : mid.layout = plan.layout) : (distributeAll share children).Succeeds mid :=
      succeeds_distributeAll_of (fun child there => ih child there share) still
        fun node inside => (counts.2 node inside).of_layout layout
    unfold distribute
    split
    next => exact backed.succeeds_serialize counts.1.1
    next some =>
      split
      next loop =>
        obtain ⟨iterations, counted⟩ := counts.1.2 loop
        refine .ofExcept_bind counted
          (.bind (backed.succeeds_decision (counts.1.1.isLoop loop) _ _) fun _ mid set => ?_)
        obtain ⟨still, layout⟩ := (staysBacked_setWorkers _).of_result set backed
        -- The loop has at least one worker and at most as many as there are, so a share is left.
        have share := remainingShare_eq (one_le_workersFor iterations limit)
          (workersFor_le iterations (Nat.le_of_lt (Nat.not_le.mp some)))
        exact .ofOutcome_bind share (below _ still layout)
      next => exact below limit backed rfl

theorem succeeds_degreeOfParallelism [Quantity α] (backed : plan.IsBacked vars)
    (parallel : plan.tree.root.kind = .parfor) :
    (runDegreeOfParallelism context).Succeeds plan := by
  have assigned (workers : Nat) : (Plan.setWorkers plan.tree.id workers).Succeeds plan :=
    backed.succeeds_decision (isLoop_root parallel) _ _
  have below {workers : Nat} {mid : Plan α} (share : Nat)
      (set : (Plan.setWorkers plan.tree.id workers).result plan = (.ok (), mid)) :
      (distributeAll share plan.tree.children).Succeeds mid := by
    obtain ⟨still, layout⟩ := (staysBacked_setWorkers workers).of_result set backed
    refine succeeds_distributeAll_of (fun tree _ => succeeds_distribute share tree) still ?_
    intro node there
    obtain ⟨child, member, inside⟩ := List.mem_flatMap.mp there
    exact (counts_of_mem backed (PlanTree.mem_nodes_of_child member inside)).of_layout layout
  have reported (mid : Plan α) : Pass.Succeeds (do
      let final := (← Pass.plan).tree
      degreeOfParallelism.report s!"k={final.root.workers} (total {final.totalWorkers})" :
        Pass α Unit) mid := .go_on (.readPlan mid) (.say _ _ _)
  refine .go_on (.readPlan plan) ?_
  dsimp only
  split
  next =>
    refine .onPlan_bind (assigned _) fun _ mid set => ?_
    have share := remainingShare_eq (one_le_workersFor context.iterations _)
      (workersFor_le context.iterations (one_le_localBudget context plan.tree))
    exact .go_on (.ofOutcome share mid) (.onPlan_bind (below _ set) fun _ final _ => reported final)
  next =>
    exact .onPlan_bind (assigned _) fun _ mid set =>
      .onPlan_bind (below _ set) fun _ final _ => reported final

/-! ## The sixth, the seventh and the eighth rule -/

theorem succeeds_assignTaskPartitioner (backed : plan.IsBacked vars) {node : PlanNode}
    (loop : plan.IsLoop node.id) (kind : PartitionerKind) :
    (assignTaskPartitioner node kind).Succeeds plan := by
  have decided : Pass.Succeeds (do
      onPlan (Plan.setTaskPartitioner node.id kind)
      taskPartitioner.report (kind.name ++ " (" ++ node.id.render ++ ")") : Pass α Unit) plan :=
    .onPlan_bind (backed.succeeds_decision loop _ _) fun _ _ _ => .say _ _ _
  unfold assignTaskPartitioner
  split
  next => exact .go_on (.say _ _ _) decided
  next => exact decided

theorem succeeds_taskPartitioner (backed : plan.IsBacked vars)
    (parallel : plan.tree.root.kind = .parfor)
    (inner : context.nested = true → ∀ id, plan.tree.headId? = some id → plan.IsLoop id) :
    (runTaskPartitioner context).Succeeds plan := by
  have loop := isLoop_root parallel
  refine .go_on (.readPlan plan) ?_
  dsimp only
  split
  next nested =>
    refine .bind (succeeds_assignTaskPartitioner backed loop _) fun _ mid leads => ?_
    have stays : StaysBacked vars plan mid :=
      leads.related (respects_assignTaskPartitioner (staysBacked_setTaskPartitioner _))
    obtain ⟨still, layout⟩ := stays backed
    split
    next tree rest children =>
      have head : plan.tree.headId? = some tree.id := by rw [PlanTree.headId?, children]; rfl
      exact succeeds_assignTaskPartitioner still
        (isLoop_of_layout layout.symm (inner nested _ head)) _
    next => exact .pure _ _
  next => exact succeeds_assignTaskPartitioner backed loop _

/-- Whether operators write remotely can be told of trees that are in the plan. -/
theorem exists_writesRemotely (backed : plan.IsBacked vars) (resultVars : List String)
    {trees : List PlanTree} (covers : ∀ tree ∈ trees, plan.Covers tree.root) :
    ∃ writes, (writesRemotely resultVars trees).result plan = (.ok writes, plan) := by
  induction trees with
  | nil => exact ⟨false, rfl⟩
  | cons tree rest ih =>
    rw [List.forall_mem_cons] at covers
    unfold writesRemotely
    split
    next writer =>
      simp only [isOperator, Bool.and_eq_true, beq_iff_eq] at writer
      obtain ⟨hop, read⟩ := backed.exists_readHop covers.1 writer.1.1.2
      have read : plan.readHop tree.id = .ok hop := read
      rw [result_readHop_bind read]
      split
      next => exact ⟨true, rfl⟩
      next => exact ih covers.2
    next => exact ih covers.2

theorem succeeds_mergeResults (backed : plan.IsBacked vars) {tree : PlanTree}
    (loop : plan.IsLoop tree.id) (covers : ∀ node ∈ tree.nodes, plan.Covers node) :
    (mergeResults context tree).Succeeds plan := by
  obtain ⟨settings, read, -⟩ := (backed.loops _ loop).settings
  obtain ⟨writes, done⟩ := exists_writesRemotely backed settings.resultVars
    fun subtree member => covers subtree.root (List.mem_map_of_mem member)
  exact .go_on (.inspect (fun plan : Plan α => plan.settings _) (settings_eq_ok_iff.mpr read))
    (.go_on (.onPlan done) (.onPlan_bind (backed.succeeds_decision loop _ _) fun _ _ _ =>
      .say _ _ _))

theorem staysBacked_mergeResults (tree : PlanTree) :
    Respects (Across (StaysBacked vars)) (mergeResults context tree) :=
  respects_mergeResults context staysBacked_setResultMerge

theorem staysBacked_mergeAllResults (tree : PlanTree) :
    Respects (Across (StaysBacked vars)) (mergeAllResults context tree) :=
  respects_mergeAllResults context fun _ _ _ => staysBacked_setResultMerge

/-- Trees in which results can be put together one by one can be gone through together. -/
theorem succeeds_mergeAllResultsBelow_of {trees : List PlanTree}
    (single : ∀ tree ∈ trees, ∀ plan : Plan α, plan.IsBacked vars →
      (∀ node ∈ tree.nodes, plan.Covers node) → (mergeAllResults context tree).Succeeds plan)
    (backed : plan.IsBacked vars) (covers : ∀ node ∈ trees.flatMap PlanTree.nodes, plan.Covers node) :
    (mergeAllResultsBelow context trees).Succeeds plan := by
  induction trees generalizing plan with
  | nil => exact .pure _ _
  | cons tree rest ih =>
    rw [List.forall_mem_cons] at single
    rw [List.flatMap_cons, List.forall_mem_append] at covers
    refine .bind (single.1 plan backed covers.1) fun _ mid leads => ?_
    obtain ⟨still, layout⟩ := leads.related (staysBacked_mergeAllResults tree) backed
    exact ih single.2 still fun node there => (covers.2 node there).of_layout layout

theorem succeeds_mergeAllResults (tree : PlanTree) (plan : Plan α) (backed : plan.IsBacked vars)
    (covers : ∀ node ∈ tree.nodes, plan.Covers node) :
    (mergeAllResults context tree).Succeeds plan := by
  induction tree using PlanTree.induction generalizing plan with
  | node root children ih =>
    have own := covers
    rw [PlanTree.nodes_node, List.forall_mem_cons] at covers
    have below {mid : Plan α} (still : mid.IsBacked vars) (layout : mid.layout = plan.layout) :
        (mergeAllResultsBelow context children).Succeeds mid :=
      succeeds_mergeAllResultsBelow_of ih still fun node inside =>
        (covers.2 node inside).of_layout layout
    unfold mergeAllResults
    split
    next loop =>
      refine .bind (succeeds_mergeResults backed (covers.1.isLoop loop) own) fun _ mid leads => ?_
      obtain ⟨still, layout⟩ := leads.related (staysBacked_mergeResults _) backed
      exact below still layout
    next => exact below backed rfl

theorem succeeds_resultMerge (backed : plan.IsBacked vars)
    (parallel : plan.tree.root.kind = .parfor) : (runResultMerge context).Succeeds plan := by
  have loop := isLoop_root parallel
  refine .go_on (.readPlan plan) (.bind (succeeds_mergeResults backed loop fun node there =>
    covers_of_mem there) fun _ mid leads => ?_)
  obtain ⟨still, layout⟩ := leads.related (staysBacked_mergeResults _) backed
  refine succeeds_mergeAllResultsBelow_of (fun tree _ => succeeds_mergeAllResults tree) still ?_
  intro node there
  obtain ⟨child, member, inside⟩ := List.mem_flatMap.mp there
  exact (covers_of_mem (PlanTree.mem_nodes_of_child member inside)).of_layout layout

theorem succeeds_recompileBudget [Quantity α] (backed : plan.IsBacked vars)
    (parallel : plan.tree.root.kind = .parfor) (counted : plan.tree.totalWorkers ≤ Word.maxCount) :
    (runRecompileBudget context).Succeeds plan := by
  have word : orOverflow (Word.count? plan.tree.totalWorkers) = .ok plan.tree.totalWorkers := by
    rw [Word.count?_eq_some_iff.mpr ⟨counted, rfl⟩, Outcome.orOverflow_some]
  refine .go_on (.readPlan plan) ?_
  dsimp only
  split
  next =>
    exact .go_on (.ofOutcome word plan)
      (.onPlan_bind (backed.succeeds_updateSettings (isLoop_root parallel) _) fun _ _ _ =>
        .go_on (.pure _ _) (.say _ _ _))
  next => exact .go_on (.pure plan _) (.say _ _ _)

/-! ## The ninth rule -/

/-- A loop stays one when another loop is demoted. -/
theorem isLoop_demote {other : NodeId} (distinct : plan.tree.ids.Nodup) (different : other ≠ id)
    (loop : plan.IsLoop other) (done : (demote id).result plan = (.ok (), after)) :
    after.IsLoop other := by
  obtain ⟨_, _, _, -, -, -, tree_eq, -⟩ := of_demote done
  obtain ⟨node, there, rfl, parallel⟩ := loop
  refine ⟨node, ?_, rfl, parallel⟩
  rw [tree_eq, PlanTree.update_eq_mapNodes distinct, PlanTree.nodes_mapNodes, List.mem_map]
  exact ⟨node, there, if_neg different⟩

theorem succeeds_demoteEach {ids : List NodeId} (backed : plan.IsBacked vars) (once : ids.Nodup)
    (loops : ∀ id ∈ ids, plan.IsLoop id) : (demoteEach ids).Succeeds plan := by
  induction ids generalizing plan with
  | nil => exact .pure _ _
  | cons id rest ih =>
    rw [List.forall_mem_cons] at loops
    obtain ⟨apart, others⟩ := List.nodup_cons.mp once
    refine .bind (backed.succeeds_demote loops.1) fun _ mid done => ?_
    refine ih ((keeps_demote backed.formed done).isBacked backed) others fun other there => ?_
    have different : other ≠ id := by
      rintro rfl
      exact apart there
    exact isLoop_demote backed.formed.numbered.distinct different (loops.2 other there) done

theorem succeeds_unnecessaryLoops (backed : plan.IsBacked vars) :
    (runUnnecessaryLoops : Pass α Nat).Succeeds plan := by
  have distinct := backed.formed.numbered.distinct
  have demoted : (demoteSerial plan.tree : Change (Plan α) Nat).Succeeds plan := by
    rw [demoteSerial_eq, demoteSerialAll_eq]
    refine .bind (succeeds_demoteEach backed (nodup_nestedSerialLoops distinct) ?_) fun _ _ _ =>
      .pure _ _
    intro id there
    obtain ⟨node, inside, rfl⟩ :=
      List.mem_map.mp ((nestedSerialLoops_sublist plan.tree).subset there)
    exact ⟨node, inside, rfl, (isSerialLoop_of_mem distinct inside there).1⟩
  exact .go_on (.readPlan plan) (.onPlan_bind demoted fun _ _ _ =>
    .go_on (.say _ _ _) (.pure _ _))

/-- The loop stays backed, and stays a loop, when those in it are demoted. -/
theorem backed_unnecessaryLoops {removed : Nat} (backed : plan.IsBacked vars)
    (leads : runUnnecessaryLoops.Leads plan removed after) :
    after.IsBacked vars ∧ after.tree.root = plan.tree.root := by
  obtain ⟨done, -⟩ := of_unnecessaryLoops leads
  have apart := root_not_mem_nestedSerialLoops backed.formed.numbered.distinct
  exact ⟨(keeps_demoteEach backed.formed done).isBacked backed, root_demoteEach apart done⟩

end PlanningRule

end ParallelLoop
