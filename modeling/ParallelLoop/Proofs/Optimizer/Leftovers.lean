/-
# What earlier passes leave behind

A plan may be optimized again and again, each time for another machine. Every pass decides anew
where the loop runs and how its inputs are partitioned. But the matrix that tasks are placed next
to, the budget for compiling the body again and the formats of operators are only ever added: a
pass that does not add them leaves those of the passes before it. So each of them fits the last
pass if and only if that pass can add it itself, or no pass before did.

What is left is therefore known from the summaries of the passes. `Accumulates` says so; one pass
keeps it, and so do all.
-/

import ParallelLoop.Proofs.Optimizer.Demotion
import ParallelLoop.Proofs.Optimizer.Executing
import ParallelLoop.Proofs.Plan.Division

namespace ParallelLoop

open Change (Preserves)

variable {α β γ : Type}

/-! ## Operators that read partitions -/

namespace PlanNode

/-- The node is an operator that reads partitions of its input. -/
def ReadsPartition (node : PlanNode) : Prop :=
  node.kind = .hop ∧ (node.param? .dataPartitionFormat).isSome = true

instance (node : PlanNode) : Decidable node.ReadsPartition := instDecidableAnd

theorem readsPartition_sliced {node : PlanNode} (operator : node.kind = .hop)
    (format : PartitionFormat) : (node.sliced format).ReadsPartition :=
  ⟨operator, by rw [sliced, param?_setParam, if_pos rfl]; rfl⟩

end PlanNode

/-- Whether an operator reads partitions. -/
abbrev Aspect.format : Aspect α (NodeKind × Option String) Unit :=
  ⟨fun node => (node.kind, node.param? .dataPartitionFormat), fun _ => ()⟩

namespace Plan

variable {plan after : Plan α}

/-- An operator of the plan reads partitions of its input. -/
def CarriesFormat (plan : Plan α) : Prop := ∃ node ∈ plan.tree.nodes, node.ReadsPartition

theorem carriesFormat_iff (distinct : plan.tree.ids.Nodup) :
    plan.CarriesFormat ↔ ∃ id text, (plan.decided .format id).1 = some (.hop, some text) := by
  constructor
  · rintro ⟨node, there, operator, format⟩
    obtain ⟨text, text_eq⟩ := Option.isSome_iff_exists.mp format
    refine ⟨node.id, text, ?_⟩
    rw [decided, PlanTree.node?_eq_some distinct there]
    exact congrArg some (Prod.ext operator text_eq)
  · rintro ⟨id, text, shown⟩
    obtain ⟨node, found, same⟩ := Option.map_eq_some_iff.mp shown
    obtain ⟨operator, text_eq⟩ := Prod.mk.inj same
    obtain ⟨subtree, there, rfl⟩ := Option.map_eq_some_iff.mp found
    refine ⟨subtree.root, List.mem_map_of_mem (List.mem_of_find?_eq_some there), operator, ?_⟩
    rw [text_eq]
    rfl

theorem carriesFormat_of_decided (distinct : plan.tree.ids.Nodup)
    (layout : after.layout = plan.layout) (same : after.decided .format = plan.decided .format) :
    after.CarriesFormat ↔ plan.CarriesFormat := by
  rw [carriesFormat_iff distinct, ← same, carriesFormat_iff (nodup_of_layout distinct layout)]

/-- Nothing was decided about the loop, and no operator reads partitions. -/
structure IsFresh (plan : Plan α) : Prop where
  settings : ∃ resultVars candidates, plan.settings plan.tree.id =
    .ok { ParallelSettings.undecided with resultVars, candidates }
  formats : ¬ plan.CarriesFormat

/-- A split adds no operator. -/
theorem carriesFormat_splitLoop (numbered : plan.tree.IsNumbered) {id inner : NodeId} {chunk : Nat}
    {var : String} (done : (splitLoop id chunk var).result plan = (.ok inner, after)) :
    after.CarriesFormat ↔ plan.CarriesFormat := by
  obtain ⟨-, count, mem_iff⟩ := nodes_splitLoop numbered done
  have outer (node : PlanNode) : (if node.id = id then outerNode count (max chunk 1) node
      else node).ReadsPartition ↔ node.ReadsPartition := by
    split <;> rfl
  constructor
  · rintro ⟨node, there, reads⟩
    rcases (mem_iff node).mp there with rfl | ⟨twin, inside, rfl⟩
    · exact nomatch reads.1
    · exact ⟨twin, inside, (outer twin).mp reads⟩
  · rintro ⟨node, there, reads⟩
    exact ⟨_, (mem_iff _).mpr (.inr ⟨node, there, rfl⟩), (outer node).mpr reads⟩

/-- The settings of the loop hold a choice. -/
def Holds (choice : ParallelSettings α → Option β) (plan : Plan α) : Prop :=
  ∃ chosen, (plan.settings? plan.tree.id).map choice = some (some chosen)

theorem holds_iff {choice : ParallelSettings α → Option β} {settings : ParallelSettings α}
    (read : plan.settings plan.tree.id = .ok settings) :
    plan.Holds choice ↔ (choice settings).isSome = true := by
  rw [Holds, settings_eq_ok_iff.mp read, Option.map_some, Option.isSome_iff_exists]
  simp only [Option.some.injEq]

theorem holds_of_decided {record : PlanNode → γ} {choice : ParallelSettings α → Option β}
    (same : after.decided ⟨record, choice⟩ after.tree.id =
      plan.decided ⟨record, choice⟩ plan.tree.id) : after.Holds choice ↔ plan.Holds choice := by
  have settings : (after.settings? after.tree.id).map choice =
      (plan.settings? plan.tree.id).map choice := congrArg Prod.snd same
  rw [Holds, Holds, settings]

end Plan

namespace PlanningRule

variable [Quantity α] {context : PassContext α} {plan after : Plan α}

omit [Quantity α] in
/-- An input that gets a slice reads a partition. -/
theorem carriesFormat_of_setPartitionFormat {format : PartitionFormat} {slice : α} {id : NodeId}
    (distinct : plan.tree.ids.Nodup) (input : id ∈ plan.tree.inputs)
    (done : (Plan.setPartitionFormat id format slice).result plan = (.ok (), after)) :
    after.CarriesFormat := by
  obtain ⟨subtree, listed, rfl⟩ := List.mem_map.mp input
  obtain ⟨there, partitionable⟩ := List.mem_filter.mp listed
  have leaf := PlanTree.isLeafOperator_of_isPartitionable partitionable
  have operator : subtree.root.kind = .hop := beq_iff_eq.mp (Bool.and_eq_true_iff.mp leaf).2
  obtain ⟨_, _, -, -, tree_eq, -⟩ := of_setPartitionFormat done
  refine ⟨subtree.root.sliced format, ?_, PlanNode.readsPartition_sliced operator format⟩
  rw [tree_eq, PlanTree.update_eq_mapNodes distinct, PlanTree.nodes_mapNodes]
  exact List.mem_map.mpr ⟨subtree.root, List.mem_map_of_mem there, if_pos rfl⟩

/-- Partitioning inputs leaves formats alone, unless some are added. -/
theorem carriesFormat_partitionEach {candidates : List (String × PartitionFormat)}
    {ids : List NodeId} {applied : Bool} (distinct : plan.tree.ids.Nodup)
    (inputs : ∀ id ∈ ids, id ∈ plan.tree.inputs)
    (done : (partitionEach context candidates ids).result plan = (.ok applied, after)) :
    after.CarriesFormat ↔ applied = true ∨ plan.CarriesFormat := by
  induction ids generalizing plan applied with
  | nil =>
    cases done
    exact (or_iff_right nofun).symm
  | cons id rest ih =>
    obtain ⟨first, mid, step, others⟩ := Change.of_bind done
    obtain ⟨later, last, steps, returned⟩ := Change.of_bind others
    cases returned
    rw [List.forall_mem_cons] at inputs
    obtain ⟨choice, slice_eq, read⟩ := of_partitionInput step
    obtain ⟨slicing, rfl, -⟩ := of_readSlice distinct inputs.1 slice_eq read
    rw [ih slicing.distinct (fun other there => slicing.inputs_eq ▸ inputs.2 other there) steps,
      Bool.or_eq_true]
    -- With a slice the plan carries a format from here on; without one nothing is set.
    cases choice with
    | none =>
      cases read
      simp
    | some slice =>
      obtain ⟨_, _, set, returned⟩ := Change.of_bind read
      cases returned
      have carries := carriesFormat_of_setPartitionFormat distinct inputs.1 set
      simp [carries]

/-- The first rule decides that inputs are partitioned if and only if it adds formats. -/
theorem carriesFormat_dataPartitioner (distinct : plan.tree.ids.Nodup)
    (leads : (runDataPartitioner context).Leads plan () after) : after.CarriesFormat ↔
      (after.settings? plan.tree.id).map ParallelSettings.dataPartitioner = some .remote ∨
        plan.CarriesFormat := by
  obtain ⟨settings, applied, mid, -, chosen, set⟩ := of_runDataPartitioner leads
  have decided : (after.settings? plan.tree.id).map ParallelSettings.dataPartitioner =
      some (partitionerFor applied) := congrArg Prod.snd (Plan.decided_setDataPartitioner set)
  have applied_iff : some (partitionerFor applied) = some .remote ↔ applied = true := by
    cases applied <;> decide
  have blind : Preserves (Plan.decided .format)
      (Plan.setDataPartitioner (α := α) plan.tree.id (partitionerFor applied)) :=
    Plan.preserves_decided ⟨fun _ => rfl, fun _ => rfl⟩ (fun _ => rfl) fun _ => rfl
  have layout : after.layout = mid.layout :=
    (Plan.ignores_layout.given.setDataPartitioner PlanNode.given_setParam _).eq set
  rw [decided, applied_iff]
  rcases chosen with ⟨-, partitioned⟩ | ⟨-, rfl, rfl⟩
  · have slicing := (of_partitionEach distinct (fun _ there => there) partitioned).1
    rw [Plan.carriesFormat_of_decided slicing.distinct layout (blind.eq set),
      carriesFormat_partitionEach distinct (fun _ there => there) partitioned]
  · rw [Plan.carriesFormat_of_decided distinct layout (blind.eq set)]
    exact (or_iff_right nofun).symm

omit [Quantity α] in
/-- A loop is no operator, whether it is demoted or not. -/
theorem carriesFormat_demoteEach {ids : List NodeId} (distinct : plan.tree.ids.Nodup)
    (once : ids.Nodup)
    (loops : ∀ node ∈ plan.tree.nodes, node.id ∈ ids → node.kind = .parfor)
    (done : (demoteEach ids).result plan = (.ok (), after)) :
    after.CarriesFormat ↔ plan.CarriesFormat := by
  obtain ⟨blocks, tree_eq⟩ := tree_demoteEach distinct once done
  -- Only operators read partitions, and none of them is demoted.
  have same (node : PlanNode) (there : node ∈ plan.tree.nodes) :
      (if node.id ∈ ids then node.demoted (blocks node.id) else node).ReadsPartition ↔
        node.ReadsPartition := by
    split
    next listed =>
      have loop := loops node there listed
      exact iff_of_false nofun fun reads => nomatch loop.symm.trans reads.1
    next => rfl
  rw [Plan.CarriesFormat, tree_eq, PlanTree.nodes_mapNodes]
  constructor
  · rintro ⟨_, there, reads⟩
    obtain ⟨node, inside, rfl⟩ := List.mem_map.mp there
    exact ⟨node, inside, (same node inside).mp reads⟩
  · rintro ⟨node, there, reads⟩
    exact ⟨_, List.mem_map_of_mem there, (same node there).mpr reads⟩

end PlanningRule

/-! ## One pass -/

/-- The tasks are placed next to partitions that they read. -/
def PassSummary.IsColocated (summary : PassSummary α) : Prop :=
  summary.placement = .remote ∧ summary.dataPartitioner = .remote ∧
    summary.colocated.isSome = true

/-- What passes add to settings and never take away. -/
abbrev Aspect.additions : Aspect α Unit (Option String × Option α) :=
  ⟨fun _ => (), fun settings => (settings.colocated, settings.recompileBudget)⟩

/-- What tells whether that fits. -/
abbrev Aspect.circumstances : Aspect α Placement DataPartitioner :=
  ⟨PlanNode.placement, ParallelSettings.dataPartitioner⟩

/-- All of this together. -/
abbrev Aspect.traces : Aspect α (Placement × NodeKind × Option String)
    (DataPartitioner × Option String × Option α) :=
  ⟨fun node => (node.placement, node.kind, node.param? .dataPartitionFormat),
    fun settings => (settings.dataPartitioner, settings.colocated, settings.recompileBudget)⟩

namespace Optimizer

open PlanningRule

variable [Quantity α] {optimizer : Optimizer α} {vars : Variables} {plan final : Plan α}
  {summary : PassSummary α}

namespace Stages

variable (stages : Stages optimizer vars plan final summary)

include stages

theorem tree_colocated : stages.colocated.tree = stages.placed.tree :=
  stages.colocation.related (respects_colocation _ fun _ => Plan.preserves_tree_updateSettings _ _)

theorem id_placed : stages.placed.tree.id = plan.tree.id := by
  rw [← stages.tree_colocated, Plan.id_of_layout stages.layout_colocated]

/-- The first two rules add nothing to the settings of the loop. -/
theorem additions_placed : stages.placed.decided .additions stages.placed.tree.id =
    plan.decided .additions plan.tree.id := by
  have placed : stages.placed.decided .additions = plan.decided .additions :=
    calc stages.placed.decided .additions
        = stages.partitioned.decided .additions :=
          stages.decided_placed (fun _ _ => rfl) fun _ _ => rfl
      _ = stages.serial.decided .additions :=
          stages.dataPartitioner.related (respects_dataPartitioner _
            (fun _ _ => Plan.preserves_decided_setPartitionFormat fun _ => rfl) fun _ =>
              Plan.preserves_decided ⟨fun _ => rfl, fun _ => rfl⟩ (fun _ => rfl) fun _ => rfl)
      _ = plan.decided .additions := stages.decided_serial (fun _ _ => rfl) fun _ _ => rfl
  rw [placed, stages.id_placed]

/-- From the split on nothing of this changes until the budget is set. -/
theorem traces_merged : stages.merged.decided .traces = stages.split.decided .traces :=
  calc stages.merged.decided .traces
      = stages.tasked.decided .traces := stages.decided_merged (fun _ _ => rfl) fun _ _ => rfl
    _ = stages.distributed.decided .traces :=
        stages.decided_tasked (fun _ _ => rfl) fun _ _ => rfl
    _ = stages.split.decided .traces :=
        stages.decided_distributed (fun _ _ => rfl) fun _ _ => rfl

/-- Where the loop runs and how its inputs are partitioned stands in the summary. -/
theorem circumstances_final : final.decided .circumstances final.tree.id =
    (some summary.placement, some summary.dataPartitioner) := by
  obtain ⟨settings, _, found, summed⟩ := of_summarize stages.summarized
  rw [Plan.decided, PlanTree.node?_root, Plan.settings_eq_ok_iff.mp found, summed]
  rfl

variable (numbered : plan.tree.IsNumbered)

include numbered

/-- A loop that is split is remote, before and after. -/
theorem traces_split : stages.split.decided .traces stages.split.tree.id =
    stages.colocated.decided .traces stages.colocated.tree.id := by
  rcases of_nestedParallelism stages.nestedParallelism with ⟨-, same⟩ | ⟨-, pays, inner, cut⟩
  · rw [same]
  · obtain ⟨division⟩ := Plan.exists_division (stages.isNumbered_colocated numbered) cut
    simp only [shouldSplit, Bool.and_eq_true, beq_iff_eq] at pays
    have remote : division.root.placement = .remote := division.root_eq ▸ pays.1.1.1.1.2
    refine division.decided_outer (fun _ => ?_) fun _ => rfl
    exact Prod.ext remote.symm rfl

/-- From the third rule to the eighth nothing of this changes for the loop. -/
theorem traces_unbudgeted : stages.merged.decided .traces stages.merged.tree.id =
    stages.colocated.decided .traces stages.colocated.tree.id := by
  rw [stages.traces_merged, Plan.id_of_layout stages.layout_merged, stages.traces_split numbered]

theorem distinct_split : stages.split.tree.ids.Nodup := (stages.isNumbered_split numbered).distinct

/-- At the end of the pass the settings say what they said before the budget was set, apart from
that. -/
theorem decided_final_merged {aspect : Aspect α β γ}
    (blind : ∀ (settings : ParallelSettings α) recompileBudget,
      aspect.setting { settings with recompileBudget } = aspect.setting settings) :
    final.decided aspect final.tree.id = stages.merged.decided aspect stages.merged.tree.id := by
  rw [stages.decided_final (stages.distinct_split numbered), stages.decided_budgeted blind,
    PlanTree.id, stages.tree_budgeted]
  rfl

theorem circumstances_merged : stages.merged.decided .circumstances stages.merged.tree.id =
    (some summary.placement, some summary.dataPartitioner) := by
  rw [← stages.decided_final_merged numbered fun _ _ => rfl, stages.circumstances_final]

theorem circumstances_placed : stages.placed.decided .circumstances stages.placed.tree.id =
    (some summary.placement, some summary.dataPartitioner) := by
  rw [← stages.decided_colocated fun _ _ => rfl, ← stages.tree_colocated,
    ← stages.circumstances_merged numbered]
  exact (Plan.decided_congr Prod.fst Prod.fst (stages.traces_unbudgeted numbered)).symm

theorem holds_colocated_final : final.Holds ParallelSettings.colocated ↔
    stages.colocated.Holds ParallelSettings.colocated := by
  apply Plan.holds_of_decided
  rw [stages.decided_final_merged numbered fun _ _ => rfl]
  exact Plan.decided_congr (fun _ => ()) (fun shown => shown.2.1)
    (stages.traces_unbudgeted numbered)

/-- A pass adds a matrix for the tasks or leaves the one from before. -/
theorem holds_colocated_iff : final.Holds ParallelSettings.colocated ↔
    summary.IsColocated ∨ plan.Holds ParallelSettings.colocated := by
  obtain ⟨settings, _, found, summed⟩ := of_summarize stages.summarized
  have told : summary.colocated = settings.colocated := (congrArg PassSummary.colocated summed :)
  have final_iff := stages.holds_colocated_final numbered
  have unchanged (same : stages.colocated = stages.placed) :
      final.Holds ParallelSettings.colocated ↔
        summary.IsColocated ∨ plan.Holds ParallelSettings.colocated := by
    rw [same, Plan.holds_of_decided
      (Plan.decided_congr (fun _ => ()) Prod.fst stages.additions_placed)] at final_iff
    -- A matrix that the summary tells is one from before.
    have from_before (tells : summary.IsColocated) : plan.Holds ParallelSettings.colocated :=
      final_iff.mp ((Plan.holds_iff found).mpr (told ▸ tells.2.2))
    rw [final_iff]
    exact (or_iff_right_of_imp from_before).symm
  obtain ⟨chosen, read, cases⟩ := of_runColocation stages.colocation
  rcases cases with
    ⟨-, same⟩ | ⟨partitioned, remote, _, _, _, -, -, -, ⟨-, same⟩ | ⟨name, _, -, set⟩⟩
  · exact unchanged same
  · exact unchanged same
  · have holds : final.Holds ParallelSettings.colocated := by
      refine final_iff.mpr ⟨name, ?_⟩
      rw [stages.tree_colocated]
      exact congrArg Prod.snd (Plan.decided_setColocated set)
    have circumstances := stages.circumstances_placed numbered
    rw [Plan.decided, PlanTree.node?_root, Plan.settings_eq_ok_iff.mp read] at circumstances
    obtain ⟨placement, partitioner⟩ := Prod.mk.inj circumstances
    refine ⟨fun _ => .inl ⟨?_, ?_, ?_⟩, fun _ => holds⟩
    · exact (Option.some.inj placement).symm.trans remote
    · exact (Option.some.inj partitioner).symm.trans partitioned
    · exact told ▸ (Plan.holds_iff found).mp holds

/-- Before the eighth rule there is a budget if there was one before the pass. -/
theorem holds_recompileBudget_merged : stages.merged.Holds ParallelSettings.recompileBudget ↔
    plan.Holds ParallelSettings.recompileBudget := by
  have placed_iff : stages.placed.Holds ParallelSettings.recompileBudget ↔
      plan.Holds ParallelSettings.recompileBudget :=
    Plan.holds_of_decided (Plan.decided_congr (fun _ => ()) Prod.snd stages.additions_placed)
  rw [← placed_iff]
  apply Plan.holds_of_decided
  rw [← stages.tree_colocated, ← stages.decided_colocated fun _ _ => rfl]
  exact Plan.decided_congr (fun _ => ()) (fun shown => shown.2.2)
    (stages.traces_unbudgeted numbered)

/-- A pass sets a budget or leaves the one from before. -/
theorem holds_recompileBudget_iff : final.Holds ParallelSettings.recompileBudget ↔
    summary.placement = .inProcess ∨ plan.Holds ParallelSettings.recompileBudget := by
  have kept : final.decided .recompileBudget final.tree.id =
      stages.budgeted.decided .recompileBudget stages.budgeted.tree.id :=
    stages.decided_final (stages.distinct_split numbered)
  have placement : stages.merged.tree.root.placement = summary.placement :=
    Plan.root_of_decided (stages.circumstances_merged numbered)
  rw [Plan.holds_of_decided kept]
  rcases of_runRecompileBudget stages.recompileBudget with ⟨here, _, -, set⟩ | ⟨elsewhere, same⟩
  · refine iff_of_true ?_ (.inl (placement ▸ here))
    rw [Plan.Holds, stages.tree_budgeted]
    exact ⟨_, congrArg Prod.snd (Plan.decided_setRecompileBudget set)⟩
  · rw [same, or_iff_right (placement ▸ elsewhere), stages.holds_recompileBudget_merged numbered]

/-- From the split on formats are left alone. -/
theorem carriesFormat_final : final.CarriesFormat ↔ stages.colocated.CarriesFormat := by
  have distinct := stages.distinct_budgeted (stages.distinct_split numbered)
  have formats : stages.merged.decided .format = stages.split.decided .format :=
    funext fun id => Plan.decided_congr Prod.snd (fun _ => ()) (congrFun stages.traces_merged id)
  calc final.CarriesFormat
      ↔ stages.budgeted.CarriesFormat :=
        carriesFormat_demoteEach distinct (nodup_nestedSerialLoops distinct)
          (fun _ there listed => (isSerialLoop_of_mem distinct there listed).1) stages.demoted
    _ ↔ stages.merged.CarriesFormat := by
        rw [Plan.CarriesFormat, stages.tree_budgeted, Plan.CarriesFormat]
    _ ↔ stages.split.CarriesFormat :=
        Plan.carriesFormat_of_decided (stages.distinct_split numbered) stages.layout_merged formats
    _ ↔ stages.colocated.CarriesFormat := by
        rcases of_nestedParallelism stages.nestedParallelism with ⟨-, same⟩ | ⟨-, -, inner, cut⟩
        · rw [same]
        · exact Plan.carriesFormat_splitLoop (stages.isNumbered_colocated numbered) cut

/-- How inputs are partitioned stays as the first rule decides it. -/
theorem dataPartitioner_partitioned :
    (stages.partitioned.settings? stages.serial.tree.id).map ParallelSettings.dataPartitioner =
      some summary.dataPartitioner := by
  have placed : stages.placed.decided .dataPartitioner =
      stages.partitioned.decided .dataPartitioner :=
    stages.decided_placed (fun _ _ => rfl) fun _ _ => rfl
  have told := congrArg Prod.snd (stages.circumstances_placed numbered)
  rw [stages.id_placed, ← Plan.id_of_layout stages.layout_serial] at told
  exact (congrArg Prod.snd (congrFun placed stages.serial.tree.id)).symm.trans told

/-- Up to the split they are added if and only if the inputs are partitioned. -/
theorem carriesFormat_colocated : stages.colocated.CarriesFormat ↔
    summary.dataPartitioner = .remote ∨ plan.CarriesFormat := by
  have distinct {other : Plan α} (same : other.layout = plan.layout) : other.tree.ids.Nodup :=
    Plan.nodup_of_layout numbered.distinct same
  have placed : stages.placed.layout = stages.partitioned.layout :=
    stages.executionStrategy.related
      (respects_executionStrategy _ Plan.ignores_layout.given.setPlacement)
  have formats : stages.placed.decided .format = stages.partitioned.decided .format :=
    stages.decided_placed (fun _ _ => rfl) fun _ _ => rfl
  calc stages.colocated.CarriesFormat
      ↔ stages.placed.CarriesFormat := by
        rw [Plan.CarriesFormat, stages.tree_colocated, Plan.CarriesFormat]
    _ ↔ stages.partitioned.CarriesFormat :=
        Plan.carriesFormat_of_decided (distinct stages.layout_partitioned) placed formats
    _ ↔ summary.dataPartitioner = .remote ∨ stages.serial.CarriesFormat := by
        rw [carriesFormat_dataPartitioner (distinct stages.layout_serial) stages.dataPartitioner,
          stages.dataPartitioner_partitioned numbered, Option.some.injEq]
    _ ↔ summary.dataPartitioner = .remote ∨ plan.CarriesFormat :=
        or_congr_right (Plan.carriesFormat_of_decided numbered.distinct stages.layout_serial
          (stages.decided_serial (fun _ _ => rfl) fun _ _ => rfl))

/-- The loop is cut by factoring unless it is split. -/
theorem isCut_factoring_iff :
    IsCut final final.tree.id .factoring ↔ summary.nested = false := by
  have kept : final.decided .taskPartitioner final.tree.id =
      stages.tasked.decided .taskPartitioner stages.distributed.tree.id := by
    rw [stages.decided_final_merged numbered fun _ _ => rfl,
      Plan.id_of_layout (stages.layout_merged.trans stages.layout_distributed.symm)]
    have same : stages.merged.decided .taskPartitioner = stages.tasked.decided .taskPartitioner :=
      stages.decided_merged (fun _ _ => rfl) fun _ _ => rfl
    exact congrFun same _
  rw [IsCut, kept, stages.summary_eq.2.2]
  rcases of_runTaskPartitioner stages.taskPartitioner with
    ⟨nested, mid, outer, below⟩ | ⟨whole, set⟩
  · -- The node of the outer loop says so, whatever is decided about the one below it.
    have static := congrArg Prod.fst (Plan.decided_setTaskPartitioner outer)
    have record : stages.tasked.tree.node? stages.distributed.tree.id =
        mid.tree.node? stages.distributed.tree.id := by
      rcases below with ⟨-, same⟩ | ⟨inner, there, -, set⟩
      · rw [same]
      · have distinct :=
          Plan.nodup_of_layout (stages.distinct_split numbered) stages.layout_distributed
        have different := PlanTree.id_ne_of_child distinct there inner.root_mem_nodes
        have keeps : Plan.KeepsNode fun node => node.setParam .taskPartitioner
            PartitionerKind.factoring.name := ⟨fun _ => rfl, fun _ => rfl⟩
        exact Plan.node?_of_ne keeps different.symm set
    refine iff_of_false (fun cut => ?_) fun whole => ?_
    · have factoring := congrArg Prod.fst cut
      rw [Plan.decided, record] at factoring
      exact absurd (static.symm.trans factoring) (by decide)
    · exact Bool.false_ne_true (whole.symm.trans nested)
  · exact iff_of_true (Plan.decided_setTaskPartitioner set) whole

end Stages

/-! ## Many passes -/

/-- Passes that succeed one after the other, each by an optimizer of its own on the plan that the
one before it has left. The summaries are theirs, the newest one first. -/
inductive Passes (start : Plan α) : List (PassSummary α) → Plan α → Prop
  | refl : Passes start [] start
  | pass {summaries : List (PassSummary α)} {plan : Plan α} {summary : PassSummary α}
      (before : Passes start summaries plan) (optimizer : Optimizer α) (vars : Variables)
      (done : (optimizer.optimize vars plan).1 = .ok summary) :
      Passes start (summary :: summaries) (optimizer.optimize vars plan).2.plan

/-- What the plan holds of things that passes only add is what these passes have added. -/
structure Accumulates (summaries : List (PassSummary α)) (plan : Plan α) : Prop where
  colocated : plan.Holds ParallelSettings.colocated ↔
    ∃ summary ∈ summaries, summary.IsColocated
  recompileBudget : plan.Holds ParallelSettings.recompileBudget ↔
    ∃ summary ∈ summaries, summary.placement = .inProcess
  formats : plan.CarriesFormat ↔ ∃ summary ∈ summaries, summary.dataPartitioner = .remote

omit [Quantity α] in
theorem accumulates_of_isFresh (fresh : plan.IsFresh) : Accumulates [] plan := by
  obtain ⟨resultVars, candidates, read⟩ := fresh.settings
  refine ⟨?_, ?_, ?_⟩
  · rw [Plan.holds_iff read]
    exact iff_of_false nofun nofun
  · rw [Plan.holds_iff read]
    exact iff_of_false nofun nofun
  · exact iff_of_false fresh.formats nofun

variable {summaries : List (PassSummary α)}

/-- One more pass adds what its summary tells. -/
theorem Accumulates.pass (accumulates : Accumulates summaries plan)
    (numbered : plan.tree.IsNumbered) (stages : Stages optimizer vars plan final summary) :
    Accumulates (summary :: summaries) final where
  colocated := by
    rw [List.exists_mem_cons_iff, ← accumulates.colocated, stages.holds_colocated_iff numbered]
  recompileBudget := by
    rw [List.exists_mem_cons_iff, ← accumulates.recompileBudget,
      stages.holds_recompileBudget_iff numbered]
  formats := by
    rw [List.exists_mem_cons_iff, ← accumulates.formats, stages.carriesFormat_final numbered,
      stages.carriesFormat_colocated numbered]

namespace Passes

variable {start : Plan α} {last : PassSummary α} {earlier : List (PassSummary α)}

theorem isNumbered (passes : Passes start summaries final) (numbered : start.tree.IsNumbered) :
    final.tree.IsNumbered := by
  induction passes with
  | refl => exact numbered
  | pass _ _ _ done ih => exact isNumbered_optimize ih done

theorem accumulates (passes : Passes start summaries final) (numbered : start.tree.IsNumbered)
    (fresh : start.IsFresh) : Accumulates summaries final := by
  induction passes with
  | refl => exact accumulates_of_isFresh fresh
  | pass before _ _ done ih =>
    obtain ⟨stages⟩ := exists_stages done
    exact ih.pass (before.isNumbered numbered) stages

/-- What is added now fits, so all fits that is there if nothing was there before. -/
theorem fits_iff {adds before fits : Prop} (own : adds → fits) :
    (adds ∨ before → fits) ↔ fits ∨ ¬ before := by tauto

/-- After passes over a plan about which nothing was decided, the matrix that tasks are placed next
to fits where the loop runs and how its inputs are partitioned exactly if the last pass can place
them so or no pass before did. The same is true of the budget for compiling and of the formats of
operators. A loop in the process is cut by factoring exactly if it is not split. -/
theorem leftovers_fit_iff (passes : Passes start (last :: earlier) final)
    (numbered : start.tree.IsNumbered) (fresh : start.IsFresh) :
    ∃ settings, final.settings final.tree.id = .ok settings ∧
      ((settings.colocated.isSome = true →
          final.tree.root.placement = .remote ∧ settings.dataPartitioner = .remote) ↔
        last.placement = .remote ∧ last.dataPartitioner = .remote ∨
          ∀ summary ∈ earlier, ¬ summary.IsColocated) ∧
      ((settings.recompileBudget.isSome = true → final.tree.root.placement = .inProcess) ↔
        last.placement = .inProcess ∨ ∀ summary ∈ earlier, summary.placement ≠ .inProcess) ∧
      ((final.CarriesFormat → settings.dataPartitioner = .remote) ↔
        last.dataPartitioner = .remote ∨ ∀ summary ∈ earlier, summary.dataPartitioner ≠ .remote) ∧
      ((final.tree.root.placement = .inProcess → IsCut final final.tree.id .factoring) ↔
        last.placement ≠ .inProcess ∨ last.nested = false) := by
  cases passes with
  | @pass _ plan _ before optimizer vars done =>
    have accumulates := before.accumulates numbered fresh
    have numberedThen := before.isNumbered numbered
    obtain ⟨stages⟩ := exists_stages done
    obtain ⟨settings, _, found, summed⟩ := of_summarize stages.summarized
    have placement : (optimizer.optimize vars plan).2.plan.tree.root.placement = last.placement :=
      (congrArg PassSummary.placement summed :).symm
    have partitioner : settings.dataPartitioner = last.dataPartitioner :=
      (congrArg PassSummary.dataPartitioner summed :).symm
    -- What the last pass did not set is there exactly if an earlier one has set it.
    refine ⟨settings, found, ?_, ?_, ?_, ?_⟩
    · rw [← Plan.holds_iff found, stages.holds_colocated_iff numberedThen, placement, partitioner,
        fits_iff fun tells => ⟨tells.1, tells.2.1⟩, accumulates.colocated]
      simp only [not_exists, not_and]
    · rw [← Plan.holds_iff found, stages.holds_recompileBudget_iff numberedThen, placement,
        fits_iff id, accumulates.recompileBudget]
      simp only [not_exists, not_and, ne_eq]
    · rw [stages.carriesFormat_final numberedThen, stages.carriesFormat_colocated numberedThen,
        partitioner, fits_iff id, accumulates.formats]
      simp only [not_exists, not_and, ne_eq]
    · rw [stages.isCut_factoring_iff numberedThen, placement, imp_iff_not_or]

end Passes

/-- A loop from one to ten that reads a matrix row by row. -/
def rowLoop : Plan Rat where
  tree :=
    .node { id := ⟨0⟩, kind := .parfor, placement := .inProcess, block := some ⟨0⟩
            parameters := { numIterations := some "10" } }
      [.node { id := ⟨1⟩, kind := .hop, placement := .remote, hop := some ⟨0⟩
               parameters := { opString := some rightIndexing } } []]
  program :=
    { blocks := #[
        .parallel { var := "i", first := .const 1, last := .const 10, step := 1 }
          { ParallelSettings.undecided with candidates := [("X", .rowWise)] } []]
      hops := #[
        { op := rightIndexing
          inputs := [⟨"X", true⟩, ⟨"i", true⟩, ⟨"i", true⟩, ⟨"1", false⟩, ⟨"5", false⟩]
          memory := some 400 }] }

/-- The matrix has ten rows of five cells. -/
def rowVars : Variables :=
  .ofList [("X", { rows := 10, columns := 5, nonzeros := 50, format := .binaryBlock })]

theorem isFresh_rowLoop : rowLoop.IsFresh where
  settings := ⟨[], [("X", .rowWise)], rfl⟩
  formats := by
    unfold Plan.CarriesFormat
    decide

/-- On the cluster the loop is split, and its tasks are placed next to the rows of the matrix. A
small machine, for which a row is too large, runs it in the process and partitions nothing. Then
there is still the matrix that tasks are placed next to, the format of the operator, and the outer
loop of the split. -/
theorem leftovers_fit_rowLoop :
    ∃ last first final settings, Passes rowLoop [last, first] final ∧
      final.settings final.tree.id = .ok settings ∧ last.placement = .inProcess ∧
      ¬ (settings.colocated.isSome = true →
        final.tree.root.placement = .remote ∧ settings.dataPartitioner = .remote) ∧
      (settings.recompileBudget.isSome = true → final.tree.root.placement = .inProcess) ∧
      ¬ (final.CarriesFormat → settings.dataPartitioner = .remote) ∧
      ¬ (final.tree.root.placement = .inProcess → IsCut final final.tree.id .factoring) := by
  obtain ⟨first, done⟩ := Outcome.exists_ok
    (show ((ofCluster 2 4).optimize rowVars rowLoop).1.toOption.isSome = true by decide +kernel)
  have placed : ((ofCluster 2 4).optimize rowVars rowLoop).1.toOption.map
      (fun summary => (summary.placement, summary.dataPartitioner, summary.colocated)) =
        some (.remote, .remote, some "X") := by decide +kernel
  rw [done] at placed
  obtain ⟨placement, inputs⟩ := Prod.mk.inj (Option.some.inj placed)
  obtain ⟨partitioned, colocated⟩ := Prod.mk.inj inputs
  -- On a single machine the loop stays in the process and keeps what the cluster left in the plan.
  obtain ⟨last, again⟩ := Outcome.exists_ok
    (show ((ofMachine 2).optimize rowVars
      ((ofCluster 2 4).optimize rowVars rowLoop).2.plan).1.toOption.isSome = true by decide +kernel)
  have moved : ((ofMachine 2).optimize rowVars
      ((ofCluster 2 4).optimize rowVars rowLoop).2.plan).1.toOption.map
        (fun summary => (summary.placement, summary.dataPartitioner, summary.nested)) =
          some (.inProcess, .none, true) := by decide +kernel
  rw [again] at moved
  obtain ⟨here, rest⟩ := Prod.mk.inj (Option.some.inj moved)
  obtain ⟨unpartitioned, nested⟩ := Prod.mk.inj rest
  have passes := (Passes.refl.pass (ofCluster 2 4) rowVars done).pass (ofMachine 2) rowVars again
  obtain ⟨settings, read, matrix, budget, formats, tasks⟩ :=
    passes.leftovers_fit_iff ⟨by decide, by decide⟩ isFresh_rowLoop
  refine ⟨last, first, _, settings, passes, read, here, ?_, budget.mpr (.inl here), ?_, ?_⟩
  · rw [matrix, here]
    simp [PassSummary.IsColocated, placement, partitioned, colocated]
  · rw [formats, unpartitioned]
    simp [partitioned]
  · rw [tasks, here, nested]
    simp

/-- The loop on a machine, and then moved to a cluster. -/
def movedLoop : Plan Rat :=
  ((ofCluster 2 2).optimize .empty ((ofMachine 2).optimize .empty oneLoop).2.plan).2.plan

/-- A budget that is set for a loop in the process stays when the loop is moved. -/
theorem not_leftovers_fit_oneLoop : oneLoop.tree.IsNumbered ∧ oneLoop.IsFresh ∧
    (∃ summaries, Passes oneLoop summaries movedLoop) ∧
    ∃ settings, movedLoop.settings movedLoop.tree.id = .ok settings ∧
      ¬ (settings.recompileBudget.isSome = true → movedLoop.tree.root.placement = .inProcess) := by
  have formats : ¬ oneLoop.CarriesFormat := by
    unfold Plan.CarriesFormat
    decide
  obtain ⟨first, done⟩ := Outcome.exists_ok
    (show ((ofMachine 2).optimize .empty oneLoop).1.toOption.isSome = true by decide +kernel)
  obtain ⟨last, again⟩ := Outcome.exists_ok
    (show ((ofCluster 2 2).optimize .empty
      ((ofMachine 2).optimize .empty oneLoop).2.plan).1.toOption.isSome = true by decide +kernel)
  obtain ⟨settings, read⟩ := Outcome.exists_ok
    (show (movedLoop.settings movedLoop.tree.id).toOption.isSome = true by decide +kernel)
  have budget : (movedLoop.settings movedLoop.tree.id).toOption.map
      (fun settings => settings.recompileBudget.isSome) = some true := by decide +kernel
  rw [read] at budget
  have passes := (Passes.refl.pass (ofMachine 2) .empty done).pass (ofCluster 2 2) .empty again
  refine ⟨⟨by decide, by decide⟩, ⟨⟨[], [], rfl⟩, formats⟩, ⟨_, passes⟩, settings, read, ?_⟩
  exact fun fits => absurd (fits (Option.some.inj budget)) (by decide +kernel)

end Optimizer

end ParallelLoop
