/-
# A pass over a complete plan

A plan that was built for a program, and for which everything is there that it stands for,
is optimized on every machine and every cluster, one without workers, nodes or memory
included. The only thing that can still go wrong is that a chunk of the loop is too long for
its step to be a signed word.

The pass succeeds because each rule leaves what the next one looks up. Two things are not
looked up: what the rules divide by, and the number of workers that can be active at once.
`Stages.IsSafe` says of a pass that it never divides by zero, and that it counts its workers
in machine words.
-/

import ParallelLoop.Proofs.Optimizer.Leftovers
import ParallelLoop.Proofs.Optimizer.Success

namespace ParallelLoop

open Change (Respects)

variable {α : Type}

/-! ## Estimates -/

namespace Plan

variable [Quantity α] {vars : Variables} {plan : Plan α}

omit [Quantity α] in
/-- The operators of a backed plan have a memory. -/
theorem IsBacked.exists_hopMemory (backed : plan.IsBacked vars) (remoteCost : α) {node : PlanNode}
    (there : node ∈ plan.tree.nodes) (operator : node.kind = .hop) :
    ∃ memory, plan.program.hopMemory remoteCost node = .ok memory := by
  by_cases distributed : node.placement = .remote
  · exact ⟨remoteCost, if_pos distributed⟩
  · obtain ⟨hop, read, answers⟩ := backed.operators node there operator
    obtain ⟨hopId, own, held⟩ := of_readHop backed.formed.numbered.distinct there read
    have inProcess : node.placement = .inProcess := by
      cases place : node.placement with
      | inProcess => rfl
      | remote => exact absurd place distributed
    obtain ⟨memory, memory_eq⟩ := Option.isSome_iff_exists.mp (answers.memory inProcess)
    have known : (plan.program.hop hopId).toOption.bind Hop.memory = some memory := by
      rw [held]
      exact memory_eq
    refine ⟨memory, ?_⟩
    rw [Program.hopMemory, if_neg distributed, own]
    dsimp only
    rw [known]

/-- Trees whose memory is known one by one have a largest one. -/
theorem exists_memoryAll {program : Program α} {remoteCost : α} {trees : List PlanTree}
    (single : ∀ tree ∈ trees, ∃ memory, program.memory remoteCost tree = .ok memory)
    (largest : α) : ∃ memory, program.memoryAll remoteCost largest trees = .ok memory := by
  induction trees generalizing largest with
  | nil => exact ⟨largest, rfl⟩
  | cons tree rest ih =>
    rw [List.forall_mem_cons] at single
    obtain ⟨memory, memory_eq⟩ := single.1
    rw [Program.memoryAll, memory_eq]
    exact ih single.2 _

/-- The memory of a backed plan can be estimated. -/
theorem IsBacked.exists_memory (backed : plan.IsBacked vars) (remoteCost : α) :
    ∃ memory, plan.program.memory remoteCost plan.tree = .ok memory := by
  -- The induction is on a tree of which it is only known that its nodes are the plan's.
  suffices below : ∀ tree : PlanTree, (∀ node ∈ tree.nodes, node ∈ plan.tree.nodes) →
      ∃ memory, plan.program.memory remoteCost tree = .ok memory from
    below plan.tree fun _ there => there
  intro tree inside
  induction tree using PlanTree.induction with
  | node root children ih =>
    have below (child : PlanTree) (there : child ∈ children) :=
      ih child there fun node deeper => inside node (PlanTree.mem_nodes_of_child there deeper)
    unfold Program.memory
    split
    next leaf =>
      exact backed.exists_hopMemory remoteCost (inside root (PlanTree.root_mem_nodes _)) leaf.1
    next =>
      obtain ⟨largest, largest_eq⟩ := exists_memoryAll below Quantity.zero
      rw [largest_eq]
      exact ⟨_, rfl⟩

end Plan

/-! ## Counted workers -/

/-- The numbers that limit workers are machine words. The cluster of a split loop has no more nodes
than the loop has iterations. -/
structure PassContext.IsWordSized (context : PassContext α) : Prop where
  iterations : context.iterations ≤ Word.maxCount
  localLimit : context.localLimit ≤ Word.maxCount
  mixedLimit : context.mixedLimit ≤ Word.maxCount
  remoteLimit : context.remoteLimit ≤ Word.maxCount
  nodes : context.nested = true → context.remoteNodes ≤ context.iterations

namespace PassContext

theorem IsWordSized.withFootprint {context : PassContext α} (sized : context.IsWordSized)
    (footprint : α) : { context with footprint }.IsWordSized :=
  ⟨sized.iterations, sized.localLimit, sized.mixedLimit, sized.remoteLimit, sized.nodes⟩

theorem isWordSized_ofTree [Quantity α] [Quantity.IsWordSized α] {iterations : Nat}
    (settings : OptimizerSettings α) (vars : Variables) (infrastructure : Infrastructure)
    (tree : PlanTree) (counted : iterations ≤ Word.maxCount) :
    (ofTree settings vars infrastructure tree iterations false).IsWordSized where
  iterations := counted
  localLimit := Quantity.IsWordSized.ceil_le _
  mixedLimit := Quantity.IsWordSized.ceil_le _
  remoteLimit := Quantity.IsWordSized.ceil_le _
  nodes := nofun

end PassContext

/-- No more workers can be active at once in a part of a tree than in the tree. -/
theorem PlanTree.totalWorkers_le_of_mem_subtrees {tree subtree : PlanTree}
    (member : subtree ∈ tree.subtrees) : subtree.totalWorkers ≤ tree.totalWorkers := by
  induction tree using PlanTree.induction with
  | node root children ih =>
    rcases mem_subtrees_node.mp member with rfl | ⟨child, there, below⟩
    · exact Nat.le_refl _
    · have most := totalWorkers_le_totalWorkersAll there
      exact (ih child there below).trans
        (most.trans (Nat.le_mul_of_pos_left _ root.one_le_fanOut))

namespace PlanningRule

variable {context : PassContext α} {tree : PlanTree}

theorem remoteWorkers_le (sized : context.IsWordSized) : remoteWorkers context ≤ Word.maxCount := by
  have word : 1 ≤ Word.maxCount := by decide
  unfold remoteWorkers
  split
  next nested => exact Nat.max_le.mpr ⟨(sized.nodes nested).trans sized.iterations, word⟩
  next =>
    exact Nat.max_le.mpr ⟨(Nat.min_le_left ..).trans sized.iterations, word⟩

/-- Workers within the budget are counted in a machine word. -/
theorem WithinBudget.totalWorkers_le [Quantity α] (within : WithinBudget context tree)
    (sized : context.IsWordSized) : tree.totalWorkers ≤ Word.maxCount := by
  have word : 1 ≤ Word.maxCount := by decide
  cases place : tree.root.placement with
  | inProcess =>
    refine (within.inProcess place).trans (Nat.max_le.mpr ⟨(Nat.min_le_left ..).trans ?_, word⟩)
    split
    · exact sized.localLimit
    · exact sized.mixedLimit
  | remote =>
    exact (within.remote place).2.1.trans
      (Nat.max_le.mpr ⟨remoteWorkers_le sized, sized.remoteLimit⟩)

/-- Every loop that got a share of the workers has one. -/
theorem one_le_workers_of_isShared {limit : Nat} {tree : PlanTree} (shared : tree.IsShared limit) :
    ∀ node ∈ tree.nodes, node.kind = .parfor → 1 ≤ node.workers := by
  induction shared with
  | spent _ serial => exact fun node there loop => Nat.le_of_eq (serial node there loop).symm
  | loop _ _ _ own _ ih =>
    intro node there loop
    rw [PlanTree.nodes_node, List.mem_cons, List.mem_flatMap] at there
    rcases there with rfl | ⟨child, member, inside⟩
    · exact own ▸ one_le_workersFor _ _
    · exact ih child member node inside loop
  | other _ sequential _ ih =>
    intro node there loop
    rw [PlanTree.nodes_node, List.mem_cons, List.mem_flatMap] at there
    rcases there with rfl | ⟨child, member, inside⟩
    · exact absurd loop sequential
    · exact ih child member node inside loop

/-- Every loop has a worker once the workers are shared out. -/
theorem SharesBudget.one_le_workers [Quantity α] (shares : SharesBudget context tree) :
    ∀ node ∈ tree.nodes, node.kind = .parfor → 1 ≤ node.workers := by
  have parts : 1 ≤ tree.root.workers ∧ ∃ share, ∀ child ∈ tree.children, child.IsShared share := by
    cases place : tree.root.placement with
    | inProcess =>
      obtain ⟨own, below⟩ := shares.inProcess place
      exact ⟨own ▸ one_le_workersFor _ _, _, below⟩
    | remote =>
      obtain ⟨own, below⟩ := shares.remote place
      exact ⟨own ▸ one_le_remoteWorkers context, _, below⟩
  obtain ⟨own, share, below⟩ := parts
  intro node there loop
  cases tree with
  | node root children =>
    rw [PlanTree.nodes_node, List.mem_cons, List.mem_flatMap] at there
    rcases there with rfl | ⟨child, member, inside⟩
    · exact own
    · exact one_le_workers_of_isShared (below child member) node inside loop

/-! ## From rule to rule -/

open Plan Pass

variable {last : PassContext α} {plan after : Plan α}

/-- No rule has split the loop yet, and it can be split. -/
structure IsWhole (context : PassContext α) (plan : Plan α) : Prop where
  backed : plan.IsBacked context.vars
  parallel : plan.tree.root.kind = .parfor
  fits : 0 < context.remoteNodes → SplitFits context plan

/-- The fourth rule has split the loop or left it as it is. -/
structure IsUnderway (context : PassContext α) (plan : Plan α) : Prop where
  backed : plan.IsBacked context.vars
  parallel : plan.tree.root.kind = .parfor
  inner : context.nested = true → ∀ id, plan.tree.headId? = some id → plan.IsLoop id

theorem IsWhole.withFootprint (whole : IsWhole context plan) (footprint : α) :
    IsWhole { context with footprint } plan := ⟨whole.backed, whole.parallel, whole.fits⟩

theorem ignores_layout_bounds :
    Ignores PlanNode.given fun plan : Plan α => (plan.layout, plan.bounds?) :=
  ignores_layout.given.prod ignores_bounds

/-- A loop stays whole as long as its plan stays backed and keeps its layout and its bounds. -/
theorem IsWhole.of_same (whole : IsWhole context plan) (backed : after.IsBacked context.vars)
    (same : (after.layout, after.bounds?) = (plan.layout, plan.bounds?)) :
    IsWhole context after := by
  obtain ⟨layout, bounds⟩ := Prod.mk.inj same
  refine ⟨backed, (root_kind_of_layout layout).trans whole.parallel, fun nodes => ?_⟩
  unfold SplitFits
  rw [bounds, id_of_layout layout]
  exact whole.fits nodes

theorem IsUnderway.of_stays (underway : IsUnderway context plan)
    (stays : StaysBacked context.vars plan after) : IsUnderway context after := by
  obtain ⟨backed, layout⟩ := stays underway.backed
  refine ⟨backed, (root_kind_of_layout layout).trans underway.parallel, fun nested id head => ?_⟩
  have keeps : ∀ node : PlanNode, node.undecided.id = node.id := fun _ => rfl
  have heads := congrArg PlanTree.headId? (undecided_of_layout layout)
  rw [PlanTree.headId?_mapNodes keeps, PlanTree.headId?_mapNodes keeps] at heads
  exact isLoop_of_layout layout.symm (underway.inner nested id (heads ▸ head))

/-- A loop is split only when it has an iteration for every node of the cluster. -/
theorem isWordSized_of_nestedParallelism [Quantity α] (sized : context.IsWordSized)
    (leads : (runNestedParallelism context).Leads plan last after) : last.IsWordSized := by
  rcases Optimizer.of_nestedParallelism leads with ⟨rfl, -⟩ | ⟨rfl, pays, -⟩
  · exact sized
  · exact { sized with nodes := fun _ => (of_shouldSplit pays).2.1 }

/-- A split leaves a loop below the one that is split. -/
theorem IsWhole.isUnderway [Quantity α] (whole : IsWhole context plan)
    (unsplit : context.nested = false) (sized : context.IsWordSized)
    (leads : (runNestedParallelism context).Leads plan last after) : IsUnderway last after := by
  rcases Optimizer.of_nestedParallelism leads with ⟨rfl, rfl⟩ | ⟨rfl, pays, inner, divided⟩
  · exact ⟨whole.backed, whole.parallel, fun nested => by simp [unsplit] at nested⟩
  · obtain ⟨nodes, -, flat⟩ := of_shouldSplit pays
    have numbered := whole.backed.formed.numbered
    obtain ⟨division⟩ := exists_division numbered divided
    obtain ⟨_, _, _, _, _, split⟩ := exists_split numbered.distinct divided
    have chunk : max (divideUp context.iterations context.remoteNodes) 1 ≤ Word.maxCount :=
      Nat.max_le.mpr ⟨(divideUp_le nodes).trans sized.iterations, by decide⟩
    have backed := whole.backed.division division (split.isFormed whole.backed.formed)
      whole.parallel flat (Nat.le_max_right ..) chunk
    refine ⟨backed, division.root_kind_eq.trans whole.parallel, fun _ id head => ?_⟩
    rw [division.headId?_eq] at head
    exact Option.some.inj head ▸ division.isLoop_inner

end PlanningRule

/-! ## The pass -/

namespace Optimizer

open Plan Pass PlanningRule

variable [Quantity α] {optimizer : Optimizer α} {vars : Variables} {plan after final : Plan α}
  {context : PassContext α} {summary : PassSummary α} {infrastructure : Infrastructure}
  {remoteCost : α}

theorem succeeds_prepare (hops : optimizer.estimator = .hops remoteCost)
    (backed : plan.IsBacked vars) (parallel : plan.tree.root.kind = .parfor)
    (resolved : optimizer.probe.resolve = .ok infrastructure)
    (known : PassContext.ofPlan optimizer.settings vars infrastructure plan = .ok context) :
    (optimizer.prepare vars).Succeeds plan := by
  refine .go_on (.readPlan plan) ?_
  dsimp only
  rw [if_neg (not_not.mpr parallel)]
  refine .go_on (.say _ _ _) (.go_on (.ofExcept resolved plan)
    (.go_on (.readPlan plan) (.go_on (.ofOutcome known plan) (.go_on (.say _ _ _) ?_))))
  have serialized := backed.succeeds_serialize (covers_of_mem plan.tree.root_mem_nodes)
  refine .onPlan_bind serialized fun _ mid done => ?_
  have still := (staysBacked_serialize.of_result done backed).1
  obtain ⟨footprint, memory⟩ := still.exists_memory remoteCost
  have estimated : optimizer.estimator.memory 0 mid = .ok footprint := by rw [hops, ← memory]; rfl
  exact .go_on (does_estimate estimated) (.go_on (.say _ _ _) (.pure _ _))

omit [Quantity α] in
theorem succeeds_decisions {nodes : List PlanNode} (backed : plan.IsBacked vars)
    (covers : ∀ node ∈ nodes, plan.Covers node) :
    (decisions nodes : Change (Plan α) (List LoopDecision)).Succeeds plan := by
  induction nodes with
  | nil => exact .pure _ _
  | cons node rest ih =>
    rw [List.forall_mem_cons] at covers
    unfold decisions
    split
    next loop =>
      obtain ⟨settings, read, -⟩ := (backed.loops _ (covers.1.isLoop loop)).settings
      refine .inspect_bind (settings_eq_ok_iff.mpr read) (.bind (ih covers.2) fun _ _ _ => .pure _ _)
    next => exact ih covers.2

omit [Quantity α] in
theorem succeeds_summarize {initial : α} {removed : Nat} (backed : plan.IsBacked vars)
    (parallel : plan.tree.root.kind = .parfor) :
    (summarize context initial removed).Succeeds plan := by
  obtain ⟨settings, read, -⟩ := (backed.loops _ (isLoop_root parallel)).settings
  exact .go_on (.readPlan plan) (.go_on (.inspect (fun plan : Plan α => plan.settings _)
    (settings_eq_ok_iff.mpr read)) (.onPlan_bind
      (succeeds_decisions backed fun node there => covers_of_mem there) fun _ _ _ => .pure _ _))

/-- A parallel loop that can still be summed up. -/
def IsOver (vars : Variables) (plan : Plan α) : Prop :=
  plan.IsBacked vars ∧ plan.tree.root.kind = .parfor

/-- The rules from the fifth one on succeed. -/
theorem establishes_laterRules (underway : IsUnderway context plan) (sized : context.IsWordSized) :
    (laterRules context).Establishes plan fun _ final => IsOver context.vars final := by
  refine .go_on (.say _ _ _) (.bind
    (succeeds_degreeOfParallelism underway.backed underway.parallel) fun _ distributed fifth => ?_)
  have shares := sharesBudget_degreeOfParallelism underway.backed.formed.numbered.distinct fifth
  replace underway := underway.of_stays
    (fifth.related (respects_degreeOfParallelism _ staysBacked_setWorkers))
  refine .go_on (.say _ _ _) (.bind
    (succeeds_taskPartitioner underway.backed underway.parallel underway.inner)
    fun _ tasked sixth => ?_)
  replace underway := underway.of_stays
    (sixth.related (respects_taskPartitioner _ staysBacked_setTaskPartitioner))
  refine .go_on (.say _ _ _) (.bind
    (succeeds_resultMerge underway.backed underway.parallel) fun _ merged seventh => ?_)
  replace underway := underway.of_stays
    (seventh.related (respects_resultMerge _ staysBacked_setResultMerge))
  -- Neither of the two rules chose anything, so the workers are still those that were counted.
  have choices : merged.choices = distributed.choices :=
    (seventh.related (respects_resultMerge _
      (ignores_choices.setResultMerge fun _ _ _ _ => rfl))).trans
        (sixth.related (respects_taskPartitioner _
          (ignores_choices.setTaskPartitioner fun _ _ _ _ => rfl)))
  have counted := (shares.withinBudget.of_choices choices).totalWorkers_le sized
  refine .go_on (.say _ _ _) (.bind
    (succeeds_recompileBudget underway.backed underway.parallel counted) fun _ budgeted eighth => ?_)
  replace underway := underway.of_stays
    (eighth.related (respects_recompileBudget _ staysBacked_setRecompileBudget))
  refine .go_on (.say _ _ _) (.bind (succeeds_unnecessaryLoops underway.backed)
    fun _ final ninth => .pure ?_)
  obtain ⟨backed, root⟩ := backed_unnecessaryLoops underway.backed ninth
  exact ⟨backed, root ▸ underway.parallel⟩

/-- The rules succeed. -/
theorem establishes_applyRules (hops : optimizer.estimator = .hops remoteCost)
    (whole : IsWhole context plan) (unsplit : context.nested = false)
    (sized : context.IsWordSized) :
    (optimizer.applyRules context).Establishes plan fun _ final => IsOver context.vars final := by
  -- Each rule is shown to succeed and to leave a plan of which the same can be said again.
  rw [applyRules_eq]
  refine .go_on (.say _ _ _) (.bind (succeeds_dataPartitioner whole.backed whole.parallel)
    fun _ partitioned first => ?_)
  replace whole := whole.of_same (backed_dataPartitioner whole.backed first)
    (first.related (respects_dataPartitioner _ ignores_layout_bounds.setPartitionFormat
      (ignores_layout_bounds.setDataPartitioner PlanNode.given_setParam)))
  obtain ⟨footprint, memory⟩ := whole.backed.exists_memory remoteCost
  have estimated : optimizer.estimator.memory 1 partitioned = .ok footprint := by
    rw [hops, ← memory]
    rfl
  refine .go_on (.bind (does_estimate estimated) (.bind (.say _ _ _) (.pure _ _))) ?_
  replace whole := whole.withFootprint footprint
  refine .go_on (.say _ _ _) (.bind (succeeds_executionStrategy whole.backed whole.parallel)
    fun _ placed second => ?_)
  have placing : partitioned.KeepsLoops .lookups placed :=
    keeps_executionStrategy whole.backed.formed whole.parallel (fun _ _ => rfl) (fun _ _ => rfl)
      second
  replace whole := whole.of_same (placing.isBacked whole.backed)
    (second.related (respects_executionStrategy _ ignores_layout_bounds.setPlacement))
  refine .go_on (.say _ _ _) (.bind (succeeds_colocation whole.backed whole.parallel unsplit)
    fun _ colocated third => ?_)
  have colocating := third.related (respects_colocation _ staysBacked_setColocated) whole.backed
  replace whole := whole.of_same colocating.1
    (third.related (respects_colocation _ ignores_layout_bounds.setColocated))
  refine .go_on (.say _ _ _) (.bind
    (succeeds_nestedParallelism whole.backed whole.parallel whole.fits) fun last split fourth => ?_)
  replace sized := sized.withFootprint footprint
  have same : last.vars = context.vars := by
    rcases of_nestedParallelism fourth with ⟨rfl, -⟩ | ⟨rfl, -, -⟩ <;> rfl
  exact same ▸ establishes_laterRules (whole.isUnderway unsplit sized fourth)
    (isWordSized_of_nestedParallelism sized fourth)

/-! ## Every divisor and every count -/

/-- A pass divides by numbers that are not zero, and every number of workers that it adds up is a
machine word. -/
structure Stages.IsSafe (stages : Stages optimizer vars plan final summary) : Prop where
  /-- The rule that splits the loop divides by the nodes of the cluster. -/
  nodes : stages.last.nested = true → 0 < stages.last.remoteNodes
  /-- The rule that distributes workers divides by those of the loops. -/
  workers : ∀ node ∈ stages.distributed.tree.nodes, node.kind = .parfor → 1 ≤ node.workers
  /-- It writes down how many there are. -/
  reported : ∀ tree ∈ stages.distributed.tree.subtrees, tree.totalWorkers ≤ Word.maxCount
  /-- Memory for compiling is divided among them. -/
  budgeted : ∀ tree ∈ stages.merged.tree.subtrees, tree.totalWorkers ≤ Word.maxCount

theorem Stages.isSafe [Quantity.IsWordSized α]
    (stages : Stages optimizer vars plan final summary) (numbered : plan.tree.IsNumbered)
    (whole : plan.splitTripCount plan.tree.id optimizer.settings.nestedVar = .ok none) :
    stages.IsSafe := by
  obtain ⟨split, iterations, split_eq, counted, context_eq⟩ := PassContext.of_ofPlan stages.ofPlan
  obtain rfl := Except.ok.inj (whole.symm.trans split_eq)
  obtain ⟨-, counted⟩ := counted.resolve_left nofun
  have sized : stages.last.IsWordSized := by
    refine isWordSized_of_nestedParallelism (PassContext.IsWordSized.withFootprint ?_ _)
      stages.nestedParallelism
    rw [context_eq]
    exact PassContext.isWordSized_ofTree _ _ _ _ (PlanNode.le_maxCount_of_tripCount counted)
  have shares := sharesBudget_degreeOfParallelism (stages.isNumbered_split numbered).distinct
    stages.degreeOfParallelism
  -- The sixth to the eighth rule only write down what was chosen when workers were distributed.
  have choices : stages.merged.choices = stages.distributed.choices := by
    rw [Plan.choices, ← stages.tree_budgeted]
    exact stages.choices_budgeted
  refine ⟨fun nested => ?_, shares.one_le_workers, fun tree member => ?_, fun tree member => ?_⟩
  · rcases of_nestedParallelism stages.nestedParallelism with ⟨last_eq, -⟩ | ⟨last_eq, pays, -⟩
    · rw [last_eq, context_eq] at nested
      cases nested
    · rw [last_eq]
      exact (of_shouldSplit pays).1
  · exact (PlanTree.totalWorkers_le_of_mem_subtrees member).trans
      (shares.withinBudget.totalWorkers_le sized)
  · exact (PlanTree.totalWorkers_le_of_mem_subtrees member).trans
      ((shares.withinBudget.of_choices choices).totalWorkers_le sized)

/-! ## The whole pass -/

/-- A pass over a loop that is not split yet succeeds. -/
theorem succeeds_pass [Quantity.IsWordSized α] {count : Nat}
    (hops : optimizer.estimator = .hops remoteCost)
    (resolved : optimizer.probe.resolve = .ok infrastructure)
    (unsplit : plan.splitTripCount plan.tree.id optimizer.settings.nestedVar = .ok none)
    (counted : plan.tree.root.tripCount = .ok count)
    (whole : IsWhole
      (.ofTree optimizer.settings vars infrastructure plan.tree count false) plan) :
    (optimizer.pass vars).Succeeds plan := by
  have known : PassContext.ofPlan optimizer.settings vars infrastructure plan =
      .ok (.ofTree optimizer.settings vars infrastructure plan.tree count false) :=
    PassContext.ofPlan_of_whole unsplit counted
  refine .bind (succeeds_prepare hops whole.backed whole.parallel resolved known)
    fun context serial prepared => ?_
  obtain ⟨_, blank, footprint, -, probed, found, serialized, -, rfl⟩ := of_prepare prepared
  obtain rfl := Except.ok.inj (resolved.symm.trans probed)
  obtain rfl := Except.ok.inj (known.symm.trans found)
  have sized := PassContext.isWordSized_ofTree optimizer.settings vars infrastructure plan.tree
    (PlanNode.le_maxCount_of_tripCount counted)
  replace whole := whole.of_same (staysBacked_serialize.of_result serialized whole.backed).1
    (ignores_layout_bounds.serialize.eq serialized)
  refine (establishes_applyRules hops (whole.withFootprint footprint) rfl
    (sized.withFootprint footprint)).succeeds_bind fun found final ended => ?_
  exact .bind (succeeds_summarize ended.1 ended.2) fun _ mid _ =>
    .go_on (.readPlan mid) (.go_on (.say _ _ _) (.pure _ _))

/-- A plan that was built for a program, and for which everything is there that it stands for, is
optimized, whatever the machine, the cluster and the settings are, as long as the step over a chunk
fits if the loop is split. On the way nothing is divided by zero, and all workers are counted. -/
theorem optimize_succeeds [Quantity.IsWordSized α] (built : plan.IsBuilt)
    (complete : plan.IsComplete vars) (resolved : optimizer.probe.resolve = .ok infrastructure)
    (hops : optimizer.estimator = .hops remoteCost)
    (fits : 0 < infrastructure.remoteNodes → plan.FitsSplit infrastructure.remoteNodes) :
    ∃ summary, (optimizer.optimize vars plan).1 = .ok summary ∧
      ∃ stages : Stages optimizer vars plan (optimizer.optimize vars plan).2.plan summary,
        stages.IsSafe := by
  have parallel := built.root_kind
  have unsplit := complete.splitTripCount_eq_none parallel optimizer.settings.nestedVar
  obtain ⟨bounds, first, last, known, first_eq, last_eq⟩ :=
    complete.bounds _ plan.tree.root_mem_nodes parallel
  obtain ⟨count, iterations, counted⟩ :=
    built.exists_count plan.tree.root_mem_nodes parallel known first_eq last_eq
  -- A complete plan has all that the rules look up, and splitting it does not overflow.
  have whole : IsWhole (.ofTree optimizer.settings vars infrastructure plan.tree count false) plan := by
    refine ⟨built.isBacked complete, parallel, fun nodes own own_eq => ⟨?_, ?_⟩⟩
    · obtain rfl := Option.some.inj (known.symm.trans own_eq)
      exact step_pos_of_iterationCount iterations
    · exact fits nodes own count own_eq counted
  obtain ⟨summary, after, done⟩ := succeeds_pass hops resolved unsplit counted whole []
  have succeeded : (optimizer.optimize vars plan).1 = .ok summary := congrArg Prod.fst done
  obtain ⟨stages⟩ := exists_stages succeeded
  exact ⟨summary, succeeded, stages, stages.isSafe built.isFormed.numbered unsplit⟩

theorem isBuilt_rowLoop : rowLoop.IsBuilt := by
  have first : Plan.ofLoop rowLoop.program ⟨0⟩ =
      .ok { rowLoop with tree := .node rowLoop.tree.root [] } := rfl
  have second : (Plan.addHopNode ⟨0⟩ ⟨0⟩ .remote).result
      { rowLoop with tree := .node rowLoop.tree.root [] } = (.ok ⟨1⟩, rowLoop) := rfl
  exact .addHopNode (.ofLoop first) second

theorem isComplete_rowLoop : rowLoop.IsComplete rowVars := by
  have loops : ∀ node ∈ rowLoop.tree.nodes, node.kind = .parfor → node.id = ⟨0⟩ := by decide
  have operators : ∀ node ∈ rowLoop.tree.nodes, node.kind = .hop → node.id = ⟨1⟩ := by decide
  refine ⟨fun node there loop => ?_, fun node there loop => ?_, fun node there operator => ?_⟩
  · rw [loops node there loop]
    exact ⟨_, 1, 10, rfl, rfl, rfl⟩
  · rw [loops node there loop]
    refine ⟨_, rfl, ?_⟩
    unfold Variables.Holds
    decide
  · rw [operators node there operator]
    exact ⟨_, rfl, fun _ => rfl, fun _ => rfl⟩

/-- On a cluster of two nodes, the loop over the rows of a matrix is split. -/
theorem optimize_succeeds_rowLoop :
    rowLoop.IsBuilt ∧ rowLoop.IsComplete rowVars ∧ rowLoop.FitsSplit 2 ∧
      ∃ summary, ((ofCluster 2 4).optimize rowVars rowLoop).1 = .ok summary ∧
        summary.nested = true ∧
        ∃ stages : Stages (ofCluster 2 4) rowVars rowLoop
          ((ofCluster 2 4).optimize rowVars rowLoop).2.plan summary, stages.IsSafe := by
  have fits : rowLoop.FitsSplit 2 := by
    intro bounds count known counted
    cases known
    cases counted
    decide
  obtain ⟨summary, succeeded, safe⟩ :=
    optimize_succeeds isBuilt_rowLoop isComplete_rowLoop
      (show (ofCluster 2 4).probe.resolve = .ok _ from rfl) rfl fun _ => fits
  refine ⟨isBuilt_rowLoop, isComplete_rowLoop, fits, summary, succeeded, ?_, safe⟩
  have split : ((ofCluster 2 4).optimize rowVars rowLoop).1.toOption.map PassSummary.nested =
      some true := by decide +kernel
  rw [succeeded] at split
  exact Option.some.inj split

/-- A machine without workers and memory, and a cluster without nodes, will do. -/
example :
    let nothing : Infrastructure :=
      { localParallelism := 0
        localMemory := 0
        remoteNodes := 0
        remoteParallelism := 0
        remoteMemory := 0 }
    (({ ofCluster 0 0 with probe := nothing.probe }).optimize rowVars rowLoop).1.toOption.map
      PassSummary.placement = some .inProcess := by
  decide +kernel

end Optimizer

end ParallelLoop
