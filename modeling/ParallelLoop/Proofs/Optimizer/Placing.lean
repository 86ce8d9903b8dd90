/-
# Where a loop runs, decided once

The second rule decides where a loop runs, and the third one which matrix its tasks are
placed next to. Both decide from what the operators of the loop are and read, so they
decide the same for a plan that differs in other decisions only. `IsPlaced` says of a plan
that the first three rules have nothing left to decide.
-/

import ParallelLoop.Proofs.Optimizer.Inputs

namespace ParallelLoop

open Change (Respects SameView)

variable {α β γ : Type}

/-- What the first three rules decide, and what they decide it from. -/
abbrev Aspect.situation : Aspect α (Placement × Option String)
    (Placement × DataPartitioner × Option String × List (String × PartitionFormat)) :=
  ⟨fun node => (node.placement, node.param? .dataPartitioner),
    fun settings =>
      (settings.mode, settings.dataPartitioner, settings.colocated, settings.candidates)⟩

namespace PlanningRule

open Plan (settings_eq_ok_iff)

/-! ## The second rule -/

section

variable [Quantity α] {context : PassContext α} {plan before after : Plan α}

/-- The loop runs where the second rule puts it. -/
def PlacementSettled (context : PassContext α) (plan : Plan α) : Prop :=
  plan.decided .placement plan.tree.id =
    (some (choosePlacement context plan.tree), some (choosePlacement context plan.tree))

theorem PlacementSettled.placement_eq (settled : PlacementSettled context plan) :
    plan.tree.root.placement = choosePlacement context plan.tree := Plan.root_of_decided settled

theorem choosePlacement_of_localOnly {tree other : PlanTree}
    (same : other.isLocalOnly = tree.isLocalOnly) :
    choosePlacement context other = choosePlacement context tree := by
  unfold choosePlacement
  rw [same]

theorem of_executionStrategy (formed : plan.IsFormed) (parallel : plan.tree.root.kind = .parfor)
    (leads : (runExecutionStrategy context).Leads plan () after) :
    PlacementSettled context after := by
  obtain ⟨_, mid, placed, reported⟩ := Pass.Leads.of_onPlan_bind (Pass.Leads.of_plan_bind leads)
  obtain rfl := reported.of_report
  have found := PlanTree.node?_root plan.tree
  have decided := Plan.decided_setPlacement found parallel placed
  have keeps : plan.KeepsLoops .matrices after :=
    Plan.keeps_setPlacement formed found parallel (fun _ => rfl) (fun _ => rfl) placed
  rw [PlacementSettled, choosePlacement_of_localOnly keeps.isLocalOnly_eq, keeps.id_eq]
  exact decided

/-- Deciding where the loop runs keeps operators and loops. -/
theorem keeps_executionStrategy {aspect : Aspect α β γ} (formed : plan.IsFormed)
    (parallel : plan.tree.root.kind = .parfor)
    (blindRecord : ∀ (node : PlanNode) placement,
      aspect.record { node with placement } = aspect.record node)
    (blindSettings : ∀ (settings : ParallelSettings α) mode,
      aspect.setting { settings with mode } = aspect.setting settings)
    (leads : (runExecutionStrategy context).Leads plan () after) : plan.KeepsLoops aspect after := by
  obtain ⟨_, mid, placed, reported⟩ := Pass.Leads.of_onPlan_bind (Pass.Leads.of_plan_bind leads)
  obtain rfl := reported.of_report
  exact Plan.keeps_setPlacement formed (PlanTree.node?_root plan.tree) parallel
    (fun node => blindRecord node _) (fun settings => blindSettings settings _) placed

/-- The loop stays where it runs. -/
theorem PlacementSettled.of_keeps (settled : PlacementSettled context before)
    (kept : before.KeepsLoops .placement after) (parallel : after.tree.root.kind = .parfor) :
    PlacementSettled context after := by
  rw [PlacementSettled, kept.decided_eq (Plan.isLoop_root parallel), kept.id_eq,
    choosePlacement_of_localOnly kept.isLocalOnly_eq]
  exact settled

theorem does_executionStrategy (distinct : plan.tree.ids.Nodup)
    (parallel : plan.tree.root.kind = .parfor) (settled : PlacementSettled context plan) :
    (runExecutionStrategy context).Does plan () plan :=
  .bind (.readPlan plan) (.bind (.onPlan (Plan.setPlacement_eq_self distinct
    (PlanTree.node?_root plan.tree) parallel settled)) (.say plan _ _))

end

/-! ## The third rule -/

/-- Trees that are no operators are not indexed. -/
theorem directlyIndexedAll_filter (var : String) (trees : List PlanTree) :
    directlyIndexedAll var (trees.filter PlanTree.isLeafOperator) =
      (directlyIndexedAll var trees : Change (Plan α) (List String)) := by
  induction trees with
  | nil => rfl
  | cons tree rest ih =>
    by_cases leaf : tree.isLeafOperator = true
    · rw [List.filter_cons_of_pos leaf, directlyIndexedAll, directlyIndexedAll, ih]
    · have none : directlyIndexed var tree = (pure none : Change (Plan α) (Option String)) :=
        if_neg fun operator => leaf (PlanTree.isLeafOperator_of_isOperator operator)
      rw [List.filter_cons_of_neg leaf, ih, directlyIndexedAll, none, pure_bind]
      simp only [Option.toList_none, List.nil_append, bind_pure]

section

variable {before after : Plan α} (same : ∀ id, after.readHop id = before.readHop id)

include same

theorem directlyIndexed_of_same {var : String} {tree : PlanTree} {matrix : Option String}
    (done : (directlyIndexed var tree).result before = (.ok matrix, before)) :
    (directlyIndexed var tree).result after = (.ok matrix, after) := by
  unfold directlyIndexed at *
  split at done
  next operator =>
    rw [if_pos operator]
    split at done
    next =>
      cases done
      rfl
    next =>
      obtain ⟨hop, read, chosen⟩ := Plan.of_readHop_bind done
      rw [Plan.result_readHop_bind (same _ ▸ read)]
      cases chosen
      rfl
  next other =>
    rw [if_neg other]
    cases done
    rfl

/-- Plans that read the same are indexed alike. -/
theorem directlyIndexedAll_of_same {var : String} {trees : List PlanTree} {names : List String}
    (done : (directlyIndexedAll var trees).result before = (.ok names, before)) :
    (directlyIndexedAll var trees).result after = (.ok names, after) := by
  induction trees generalizing names with
  | nil =>
    cases done
    rfl
  | cons tree rest ih =>
    obtain ⟨matrix, mid, first, others⟩ := Change.of_bind done
    obtain rfl : mid = before :=
      (respects_directlyIndexed var tree : Respects (SameView id) _).of_result first
    obtain ⟨below, last, later, returned⟩ := Change.of_bind others
    cases returned
    rw [directlyIndexedAll, Change.result_bind (directlyIndexed_of_same same first),
      Change.result_bind (ih later)]
    rfl

end

section

variable [Quantity α] {context : PassContext α} {plan before after : Plan α}

/-- The tasks of a remote loop over partitioned inputs are placed next to the matrix that the third
rule chooses, if it chooses one. -/
def ColocationSettled (context : PassContext α) (plan : Plan α) : Prop :=
  ∃ partitioner, (plan.settings? plan.tree.id).map ParallelSettings.dataPartitioner =
      some partitioner ∧
    (partitioner = .remote → plan.tree.root.placement = .remote →
      ∃ bounds names best, plan.bounds? (indexingLoop context plan.tree) = some bounds ∧
        (directlyIndexedAll bounds.var plan.tree.operators).result plan = (.ok names, plan) ∧
        heaviest context.vars none (names.mergeSort fun a b => decide (a ≤ b)) = .ok best ∧
        ∀ name nonzeros, best = some (name, nonzeros) →
          plan.decided .colocated plan.tree.id = (some (), some (some name)))

omit [Quantity α] in
/-- The bounds that are looked up step by step. -/
theorem bounds?_of_block {id : NodeId} {blockId : BlockId} {block : Block α}
    (bound : plan.blockOf id = .ok blockId) (held : plan.program.block blockId = .ok block) :
    plan.bounds? id = block.bounds := by
  rw [Plan.bounds?, Plan.block?_eq_some_iff.mpr ⟨blockId, bound, held⟩, Option.bind_some]

omit [Quantity α] in
/-- The third rule does nothing to a loop that is not remote or whose inputs are not partitioned.
Otherwise it weighs the matrices that are indexed. -/
theorem of_runColocation (leads : (runColocation context).Leads plan () after) :
    ∃ settings, plan.settings plan.tree.id = .ok settings ∧
      ((settings.dataPartitioner ≠ .remote ∨ plan.tree.root.placement ≠ .remote) ∧ after = plan ∨
        settings.dataPartitioner = .remote ∧ plan.tree.root.placement = .remote ∧
          ∃ bounds names best, plan.bounds? (indexingLoop context plan.tree) = some bounds ∧
            (directlyIndexedAll bounds.var plan.tree.operators).result plan = (.ok names, plan) ∧
            heaviest context.vars none (names.mergeSort fun a b => decide (a ≤ b)) = .ok best ∧
            (best = none ∧ after = plan ∨ ∃ name nonzeros, best = some (name, nonzeros) ∧
              (Plan.setColocated plan.tree.id name).result plan = (.ok (), after))) := by
  obtain ⟨settings, found, chain⟩ :=
    Pass.Leads.of_inspect_bind (fun plan => plan.settings _) (Pass.Leads.of_plan_bind leads)
  refine ⟨settings, found, ?_⟩
  dsimp only at chain
  split at chain
  next elsewhere => exact .inl ⟨elsewhere, chain.of_report⟩
  next both =>
    rw [not_or, not_not, not_not] at both
    obtain ⟨blockId, bound, named⟩ := Pass.Leads.of_inspect_bind (fun plan => plan.blockOf _) chain
    obtain ⟨block, held, known⟩ :=
      Pass.Leads.of_inspect_bind (fun plan => plan.program.block _) named
    split at known
    next => exact absurd known Pass.Leads.not_fail
    next bounds bounds_eq =>
      obtain ⟨names, mid, indexed, weighed⟩ := Pass.Leads.of_onPlan_bind known
      obtain rfl : mid = plan :=
        (respects_directlyIndexedAll _ _ : Respects (SameView id) _).of_result indexed
      obtain ⟨best, best_eq, chosen⟩ := Pass.Leads.of_ofExcept_bind weighed
      -- Only operators are asked which matrix they index.
      rw [← directlyIndexedAll_filter] at indexed
      have here := (bounds?_of_block bound held).trans bounds_eq
      refine .inr ⟨both.1, both.2, bounds, names, best, here, indexed, best_eq, ?_⟩
      split at chosen
      next => exact .inl ⟨rfl, chosen.of_report⟩
      next name nonzeros =>
        obtain ⟨_, _, set, reported⟩ := Pass.Leads.of_onPlan_bind chosen
        obtain rfl := reported.of_report
        exact .inr ⟨name, nonzeros, rfl, set⟩

omit [Quantity α] in
theorem of_colocation (formed : plan.IsFormed)
    (leads : (runColocation context).Leads plan () after) : ColocationSettled context after := by
  obtain ⟨settings, found, chosen⟩ := of_runColocation leads
  have read := settings_eq_ok_iff.mp found
  rcases chosen with ⟨elsewhere, rfl⟩ | ⟨-, -, bounds, names, best, here, indexed, best_eq,
    ⟨rfl, rfl⟩ | ⟨name, nonzeros, rfl, set⟩⟩
  · refine ⟨settings.dataPartitioner, by rw [read]; rfl, fun partitioned remote => ?_⟩
    exact absurd elsewhere (not_or.mpr ⟨not_not.mpr partitioned, not_not.mpr remote⟩)
  · exact ⟨settings.dataPartitioner, by rw [read]; rfl, fun _ _ =>
      ⟨bounds, names, none, here, indexed, best_eq, nofun⟩⟩
  · -- The choice is recorded in the settings of the loop, which the choice does not depend on.
    have tree_eq : after.tree = plan.tree :=
      (Plan.preserves_tree_updateSettings _ _).of_result set
    have keeps : Respects (Plan.Keeps .matrices) (Plan.setColocated (α := α) plan.tree.id name) :=
      Plan.keeps_updateSettings fun _ => rfl
    have blind : Change.Preserves (Plan.decided .dataPartitioner)
        (Plan.setColocated (α := α) plan.tree.id name) :=
      Plan.preserves_decided_updateSettings fun _ => rfl
    have partitioner : after.decided .dataPartitioner = plan.decided .dataPartitioner :=
      blind.of_result set
    have bounds? : after.bounds? = plan.bounds? :=
      Plan.preserves_bounds_updateSettings.of_result set
    refine ⟨settings.dataPartitioner, ?_, fun _ _ => ⟨bounds, names, _, ?_, ?_, best_eq, ?_⟩⟩
    · have shown := congrArg (fun shown => (shown plan.tree.id).2) partitioner
      rw [tree_eq]
      exact shown.trans (congrArg (Option.map _) read)
    · rw [bounds?, tree_eq]
      exact here
    · rw [tree_eq]
      have same := (keeps.of_result set formed).sameOperators.readHop_eq
      exact directlyIndexedAll_of_same same indexed
    · rintro _ _ ⟨⟩
      rw [tree_eq]
      exact Plan.decided_setColocated set

omit [Quantity α] in
theorem does_colocation (settled : ColocationSettled context plan) :
    (runColocation context).Does plan () plan := by
  obtain ⟨partitioner, partitioner_eq, chooses⟩ := settled
  obtain ⟨settings, read, rfl⟩ := Option.map_eq_some_iff.mp partitioner_eq
  refine .bind (.readPlan plan) (.bind (.inspect (fun plan : Plan α => plan.settings _)
    (settings_eq_ok_iff.mpr read)) ?_)
  dsimp only
  split
  next => exact .say plan _ _
  next both =>
    rw [not_or, not_not, not_not] at both
    obtain ⟨bounds, names, best, here, indexed, best_eq, colocated⟩ := chooses both.1 both.2
    obtain ⟨block, there, bounds_eq⟩ := Option.bind_eq_some_iff.mp here
    obtain ⟨blockId, bound, held⟩ := Plan.block?_eq_some_iff.mp there
    refine .bind (.inspect (fun plan : Plan α => plan.blockOf _) bound)
      (.bind (.inspect (fun plan : Plan α => plan.program.block _) held) ?_)
    rw [bounds_eq]
    rw [PlanTree.operators, directlyIndexedAll_filter] at indexed
    refine .bind (.onPlan indexed) (.bind (.ofExcept best_eq plan) ?_)
    split
    next => exact .say plan _ _
    next name nonzeros =>
      -- The same matrix is chosen again, and it is recorded already.
      exact .bind (.onPlan (Plan.setColocated_eq_self (colocated name nonzeros rfl)))
        (.say plan _ _)

omit [Quantity α] in
/-- The tasks stay where they are placed when the operators, the decisions about the loop and the
variable that indexes matrices stay. -/
theorem ColocationSettled.of_sameOperators {other : PassContext α}
    (settled : ColocationSettled context before) (same : before.SameOperators after)
    (vars : other.vars = context.vars)
    (partitioner : after.decided .dataPartitioner after.tree.id =
      before.decided .dataPartitioner before.tree.id)
    (colocated : after.decided .colocated after.tree.id =
      before.decided .colocated before.tree.id)
    (placement : after.tree.root.placement = .remote → before.tree.root.placement = .remote)
    (indexing : ∀ bounds, before.bounds? (indexingLoop context before.tree) = some bounds →
      ∃ twin, after.bounds? (indexingLoop other after.tree) = some twin ∧ twin.var = bounds.var) :
    ColocationSettled other after := by
  obtain ⟨chosen, chosen_eq, chooses⟩ := settled
  refine ⟨chosen, (congrArg Prod.snd partitioner).trans chosen_eq, fun remote elsewhere => ?_⟩
  obtain ⟨bounds, names, best, here, indexed, best_eq, decides⟩ :=
    chooses remote (placement elsewhere)
  obtain ⟨twin, there, var_eq⟩ := indexing bounds here
  refine ⟨twin, names, best, there, ?_, by rw [vars, best_eq], fun name nonzeros some => ?_⟩
  · rw [var_eq, same.operators_eq]
    exact directlyIndexedAll_of_same same.readHop_eq indexed
  · rw [colocated]
    exact decides name nonzeros some

/-! ## Three rules together -/

/-- The first three rules have nothing left to decide, and the loop needs what is known. -/
structure IsPlaced (context : PassContext α) (remoteCost : α) (plan : Plan α) : Prop where
  formed : plan.IsFormed
  parallel : plan.tree.root.kind = .parfor
  inputs : ∃ candidates applied, InputsSettled context plan candidates applied
  footprint : plan.program.memory remoteCost plan.tree.bare = .ok context.footprint
  placement : PlacementSettled context plan
  indexing : plan.IsLoop (indexingLoop context plan.tree)
  colocation : ColocationSettled context plan

omit [Quantity α] in
theorem indexingLoop_of_bare {tree other : PlanTree} (same : other.bare = tree.bare) :
    indexingLoop context other = indexingLoop context tree := by
  unfold indexingLoop
  rw [PlanTree.id_of_bare same, ← PlanTree.headId?, PlanTree.headId?_of_bare same]
  rfl

/-- What is left of a plan that is placed when loops are decided about is placed. -/
theorem IsPlaced.of_keeps {remoteCost : α} (placed : IsPlaced context remoteCost before)
    (kept : before.KeepsLoops .situation after) (parallel : after.tree.root.kind = .parfor)
    (indexing : after.IsLoop (indexingLoop context after.tree)) :
    IsPlaced context remoteCost after where
  formed := kept.formed
  parallel := parallel
  inputs := by
    obtain ⟨candidates, applied, settled⟩ := placed.inputs
    have inputs : before.KeepsLoops .slicing after :=
      kept.part Prod.snd fun shown => (shown.2.1, shown.2.2.2)
    exact ⟨candidates, applied, settled.of_keeps placed.formed inputs parallel⟩
  footprint := by rw [Program.memory_of_hops kept.hops_eq, kept.bare_eq, placed.footprint]
  placement := placed.placement.of_keeps (kept.part Prod.fst Prod.fst) parallel
  indexing := indexing
  colocation := by
    have decided : after.decided .situation after.tree.id =
        before.decided .situation before.tree.id :=
      (kept.decided_eq (Plan.isLoop_root parallel)).trans (by rw [kept.id_eq])
    have placement := placed.placement.of_keeps (kept.part Prod.fst Prod.fst) parallel
    refine placed.colocation.of_sameOperators kept.sameOperators rfl
      (Plan.decided_congr Prod.snd (fun shown => shown.2.1) decided)
      (Plan.decided_congr (fun _ => ()) (fun shown => shown.2.2.1) decided) ?_ ?_
    · intro elsewhere
      rw [placed.placement.placement_eq, ← choosePlacement_of_localOnly kept.isLocalOnly_eq,
        ← placement.placement_eq, elsewhere]
    · intro bounds here
      refine ⟨bounds, ?_, rfl⟩
      rw [kept.bounds_eq indexing, indexingLoop_of_bare kept.bare_eq, here]

end

end PlanningRule

end ParallelLoop
