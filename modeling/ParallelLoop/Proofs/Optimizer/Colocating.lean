/-
# Next to the heaviest matrix

The tasks of a remote loop over partitioned inputs are placed next to the heaviest of the matrices
that operators read by slices at the value of its variable. Which one this is depends on what the
operators are and what they read (`CoversSlices`), but not on the order in which nodes stand, nor on
how often an operator occurs. It does not depend on whether the loop is split either: the inner loop
takes over the variable, and the third rule asks for that one.
-/

import ParallelLoop.Proofs.Optimizer.Rearranging
import ParallelLoop.Proofs.Optimizer.Resplitting
import ParallelLoop.Proofs.Optimizer.Success
import ParallelLoop.Proofs.Optimizer.Weighing

namespace ParallelLoop

variable {α : Type}

/-! ## The choice -/

/-- The matrices that operators read by slices at the value of the variable. -/
def Plan.indexedBy (plan : Plan α) (var : String) : Set String :=
  {name | ∃ tree ∈ plan.tree.subtrees, PlanningRule.ReadsAt plan var tree name}

/-- The block of a loop whose tasks are placed next to the matrix. -/
def Block.nextTo (matrix : String) (block : Block α) : Block α :=
  { block with settings := block.settings.map fun settings =>
      { settings with colocated := some matrix } }

/-- The plan after the tasks of its loop are placed next to the matrix of this choice, if it is
one. -/
def Plan.nextTo (choice : Option String) (plan : Plan α) : Plan α :=
  match choice, plan.blockOf plan.tree.id with
  | some matrix, .ok id =>
    { plan with program := plan.program.modifyBlock id (Block.nextTo matrix) }
  | _, _ => plan

namespace PlanningRule

variable {context seen : PassContext α} {plan other after : Plan α} {choice : Option String}

/-- The loop is remote and its inputs are partitioned. All operators that read slices can be looked
at, and among the matrices that they read at the value of the variable of the loop, or of the inner
one if the loop is split, this is the heaviest. -/
structure Chooses (context : PassContext α) (plan : Plan α) (choice : Option String) : Prop where
  remote : plan.tree.root.placement = .remote
  partitioned : (plan.settings? plan.tree.id).map ParallelSettings.dataPartitioner = some .remote
  readable : ∀ tree ∈ plan.tree.subtrees, ∀ operand, RunsAlong operand tree →
    ∃ hop, plan.readHop tree.id = .ok hop
  heaviest : ∃ bounds, plan.bounds? (indexingLoop context plan.tree) = some bounds ∧
    IsChoice context.vars (plan.indexedBy bounds.var) choice

theorem result_setColocated {matrix : String}
    (read : (plan.settings? plan.tree.id).isSome = true) :
    (Plan.setColocated plan.tree.id matrix).result plan = (.ok (), plan.nextTo (some matrix)) := by
  obtain ⟨settings, read⟩ := Option.isSome_iff_exists.mp read
  have read := Plan.settings_eq_ok_iff.mpr read
  obtain ⟨blockId, bound, -⟩ := Outcome.of_bind read
  unfold Plan.nextTo
  rw [bound]
  exact Plan.result_updateSettings bound read _

/-- The third rule does what is chosen. -/
theorem Chooses.does (chooses : Chooses context plan choice) :
    (runColocation context).Does plan () (plan.nextTo choice) := by
  obtain ⟨settings, read, partitioned⟩ := Option.map_eq_some_iff.mp chooses.partitioned
  obtain ⟨bounds, here, chosen⟩ := chooses.heaviest
  obtain ⟨block, there, bounds_eq⟩ := Option.bind_eq_some_iff.mp here
  obtain ⟨blockId, bound, held⟩ := Plan.block?_eq_some_iff.mp there
  obtain ⟨names, indexed⟩ := succeeds_directlyIndexedAll chooses.readable bounds.var
  have names_eq : {name | name ∈ names} = plan.indexedBy bounds.var :=
    Set.ext (of_directlyIndexedAll indexed).2
  rw [← names_eq] at chosen
  have live : ∀ name ∈ names.mergeSort fun a b => decide (a ≤ b),
      (context.vars.get? name).isSome = true :=
    fun name there => chosen.live (List.mem_mergeSort.mp there)
  obtain ⟨best, best_eq⟩ := exists_heaviest live none
  -- A choice is unique, so the one that the rule finds is this one.
  obtain rfl := chosen.unique (isChoice_of_heaviest best_eq)
  refine .bind (.readPlan plan) (.bind (.inspect (fun plan : Plan α => plan.settings _)
    (Plan.settings_eq_ok_iff.mpr read)) ?_)
  dsimp only
  rw [if_neg (by simp [partitioned, chooses.remote])]
  refine .bind (.inspect (fun plan : Plan α => plan.blockOf _) bound)
    (.bind (.inspect (fun plan : Plan α => plan.program.block _) held) ?_)
  rw [bounds_eq]
  refine .bind (.onPlan indexed) (.bind (.ofExcept best_eq plan) ?_)
  cases best with
  | none => exact .say plan _ _
  | some best =>
    have some := Option.isSome_of_eq_some read
    exact .bind (.onPlan (result_setColocated some)) (.say _ _ _)

theorem Chooses.unique {another : Option String} (chooses : Chooses context plan choice)
    (alsoChooses : Chooses context plan another) : choice = another := by
  obtain ⟨bounds, here, chosen⟩ := chooses.heaviest
  obtain ⟨twin, alsoHere, alsoChosen⟩ := alsoChooses.heaviest
  obtain rfl := Option.some.inj (here.symm.trans alsoHere)
  exact chosen.unique alsoChosen

/-- Where the third rule succeeds there is a choice. -/
theorem exists_chooses (remote : plan.tree.root.placement = .remote)
    (partitioned : (plan.settings? plan.tree.id).map ParallelSettings.dataPartitioner =
      some .remote) (leads : (runColocation context).Leads plan () after) :
    ∃ choice, Chooses context plan choice ∧ after = plan.nextTo choice := by
  obtain ⟨settings, read, cases⟩ := of_runColocation leads
  have read := Plan.settings_eq_ok_iff.mp read
  rw [read] at partitioned
  rcases cases with ⟨elsewhere, -⟩ | ⟨-, -, bounds, names, best, here, indexed, best_eq, done⟩
  · simp [remote, Option.some.inj partitioned] at elsewhere
  · rw [PlanTree.operators, directlyIndexedAll_filter] at indexed
    obtain ⟨readable, reads⟩ := of_directlyIndexedAll indexed
    have names_eq : {name | name ∈ names} = plan.indexedBy bounds.var := Set.ext reads
    refine ⟨best.map Prod.fst, ?_, ?_⟩
    · exact
        { remote, readable
          partitioned := by rw [read, partitioned]
          heaviest := ⟨bounds, here, names_eq ▸ isChoice_of_heaviest best_eq⟩ }
    · rcases done with ⟨rfl, rfl⟩ | ⟨name, nonzeros, rfl, set⟩
      · rfl
      · have some := Option.isSome_of_eq_some read
        exact (congrArg Prod.snd ((result_setColocated some).symm.trans set)).symm

/-- Every operator of the other plan that reads slices has one like it in this plan. -/
def CoversSlices (plan other : Plan α) : Prop :=
  ∀ tree ∈ other.tree.subtrees, ∀ operand, RunsAlong operand tree →
    ∃ twin ∈ plan.tree.subtrees, RunsAlong operand twin ∧
      ∀ hop, plan.readHop twin.id = .ok hop ↔ other.readHop tree.id = .ok hop

/-- Operators that read as before cover those that are still there. -/
theorem CoversSlices.of_reads
    (kept : ∀ leaf ∈ other.tree.subtrees, leaf.isLeafOperator = true → leaf ∈ plan.tree.subtrees)
    (reads : other.readHop = plan.readHop) : CoversSlices plan other := by
  intro leaf there operand along
  have operator := PlanTree.isLeafOperator_of_isOperator along.1
  exact ⟨leaf, kept leaf there operator, along, fun hop => by rw [reads]⟩

theorem CoversSlices.indexedBy_subset (covers : CoversSlices plan other) (var : String) :
    other.indexedBy var ⊆ plan.indexedBy var := by
  rintro name ⟨tree, there, operand, hop, along, read, plain, first⟩
  obtain ⟨twin, inside, alsoAlong, same⟩ := covers tree there operand along
  exact ⟨twin, inside, operand, hop, alsoAlong, (same hop).mpr read, plain, first⟩

/-- The choice is the same for plans whose operators read the same slices. -/
theorem Chooses.of_sameSlices (chooses : Chooses context plan choice)
    (remote : other.tree.root.placement = .remote)
    (partitioned : (other.settings? other.tree.id).map ParallelSettings.dataPartitioner =
      some .remote)
    (vars : seen.vars = context.vars)
    (indexing : ∀ bounds, plan.bounds? (indexingLoop context plan.tree) = some bounds →
      ∃ twin, other.bounds? (indexingLoop seen other.tree) = some twin ∧ twin.var = bounds.var)
    (covers : CoversSlices plan other) (covered : CoversSlices other plan) :
    Chooses seen other choice where
  remote := remote
  partitioned := partitioned
  readable := by
    intro tree there operand along
    obtain ⟨twin, inside, alsoAlong, same⟩ := covers tree there operand along
    obtain ⟨hop, read⟩ := chooses.readable twin inside operand alsoAlong
    exact ⟨hop, (same hop).mp read⟩
  heaviest := by
    obtain ⟨bounds, here, chosen⟩ := chooses.heaviest
    obtain ⟨twin, there, var_eq⟩ := indexing bounds here
    refine ⟨twin, there, ?_⟩
    have same : other.indexedBy bounds.var = plan.indexedBy bounds.var :=
      (covers.indexedBy_subset _).antisymm (covered.indexedBy_subset _)
    rw [vars, var_eq, same]
    exact chosen

end PlanningRule

/-! ## Nodes in another order, and operators that occur again -/

/-- What is known of a node by its id is known of it in any order. -/
theorem Plan.block?_of_reorders {plan : Plan α} {tree : PlanTree} (distinct : plan.tree.ids.Nodup)
    (reorders : plan.tree.Reorders tree) : Plan.block? { plan with tree } = plan.block? := by
  funext id
  unfold Plan.block?
  rw [PlanTree.node?_of_perm distinct reorders.nodes_perm]

theorem Plan.bounds?_of_reorders {plan : Plan α} {tree : PlanTree}
    (distinct : plan.tree.ids.Nodup) (reorders : plan.tree.Reorders tree) :
    Plan.bounds? { plan with tree } = plan.bounds? := by
  funext id
  rw [Plan.bounds?, Plan.block?_of_reorders distinct reorders, Plan.bounds?]

namespace PlanningRule

variable {context seen : PassContext α} {plan after : Plan α} {tree original : PlanTree}
  {choice : Option String} {parent : NodeId}

theorem indexingLoop_congr {tree other : PlanTree} (root : other.id = tree.id)
    (head : context.nested = true → other.headId? = tree.headId?) :
    indexingLoop context other = indexingLoop context tree := by
  unfold indexingLoop
  split
  next nested => rw [root, ← PlanTree.headId?, head nested, PlanTree.headId?]
  next => exact root

/-- The choice does not depend on the order of the nodes. -/
theorem Chooses.reorders (chooses : Chooses context plan choice) (distinct : plan.tree.ids.Nodup)
    (head : context.nested = true → tree.headId? = plan.tree.headId?)
    (reorders : plan.tree.Reorders tree) : Chooses context { plan with tree } choice := by
  have id_eq : tree.id = plan.tree.id := congrArg PlanNode.id reorders.root_eq
  have reads : Plan.readHop { plan with tree } = plan.readHop := by
    funext id
    unfold Plan.readHop Plan.hopOf
    rw [PlanTree.node?_of_perm distinct reorders.nodes_perm]
  -- What the rule reads is found by identifier or is a set, so the order makes no difference.
  apply chooses.of_sameSlices
  · rw [reorders.root_eq]
    exact chooses.remote
  · rw [id_eq, Plan.settings?, Plan.block?_of_reorders distinct reorders]
    exact chooses.partitioned
  · rfl
  · intro bounds here
    refine ⟨bounds, ?_, rfl⟩
    rw [indexingLoop_congr id_eq head, Plan.bounds?_of_reorders distinct reorders]
    exact here
  · apply CoversSlices.of_reads _ reads
    intro leaf there operator
    exact reorders.symm.mem_subtrees (PlanTree.isLeaf_of_operator operator) there
  · apply CoversSlices.of_reads _ reads.symm
    intro leaf there operator
    exact reorders.mem_subtrees (PlanTree.isLeaf_of_operator operator) there

section

variable (numbered : plan.tree.IsNumbered) (there : original ∈ plan.tree.subtrees)
  (operator : original.isLeafOperator = true) (inside : parent ∈ plan.tree.ids)
  (placement : Placement) (workers : Nat)

include numbered

/-- The operators with one more node for one of them have ones like them among the operators. -/
theorem CoversSlices.of_again (there : original ∈ plan.tree.subtrees)
    (operator : original.isLeafOperator = true) (inside : parent ∈ plan.tree.ids) :
    CoversSlices plan
      { plan with
        tree := plan.tree.addChild parent
          (original.root.again plan.tree.freshId placement workers) } := by
  intro leaf listed operand along
  have single := PlanTree.isLeaf_of_operator (PlanTree.isLeafOperator_of_isOperator along.1)
  rcases PlanTree.leaf_mem_subtrees_addChild listed single with rfl | old
  · refine ⟨original, there, ⟨?_, along.2⟩, Plan.readHop_again numbered there inside _ _⟩
    have named := along.1
    simp only [isOperator, PlanTree.isLeafOperator, Bool.and_eq_true] at named operator ⊢
    exact ⟨operator, named.2⟩
  · refine ⟨leaf, old, along, fun hop => ?_⟩
    rw [Plan.readHop_addChild numbered rfl]
    exact PlanTree.ids_eq_map_subtrees _ ▸ List.mem_map_of_mem old

/-- And the other way round, if the new node is not below an operator. -/
theorem CoversSlices.again
    (apart : ∀ leaf ∈ plan.tree.subtrees, leaf.isLeafOperator = true → leaf.id ≠ parent) :
    CoversSlices
      { plan with
        tree := plan.tree.addChild parent
          (original.root.again plan.tree.freshId placement workers) } plan := by
  intro leaf old operand along
  have leafOperator := PlanTree.isLeafOperator_of_isOperator along.1
  have outside : parent ∉ leaf.ids := by
    rw [PlanTree.ids_of_leaf (PlanTree.isLeaf_of_operator leafOperator), List.mem_singleton]
    exact (apart leaf old leafOperator).symm
  refine ⟨leaf, PlanTree.mem_subtrees_addChild old outside _, along, fun hop => ?_⟩
  rw [Plan.readHop_addChild numbered rfl]
  exact PlanTree.ids_eq_map_subtrees _ ▸ List.mem_map_of_mem old

end

/-- One more node for an operator does not change the choice. -/
theorem Chooses.again (chooses : Chooses context plan choice) (numbered : plan.tree.IsNumbered)
    (head : context.nested = true → plan.tree.headId?.isSome = true)
    (there : original ∈ plan.tree.subtrees) (operator : original.isLeafOperator = true)
    (inside : parent ∈ plan.tree.ids)
    (apart : ∀ leaf ∈ plan.tree.subtrees, leaf.isLeafOperator = true → leaf.id ≠ parent)
    (placement : Placement) (workers : Nat) :
    Chooses context
      { plan with
        tree := plan.tree.addChild parent
          (original.root.again plan.tree.freshId placement workers) } choice := by
  refine chooses.of_sameSlices ?_ ?_ rfl ?_
    (.of_again numbered placement workers there operator inside)
    (.again numbered placement workers apart)
  · rw [PlanTree.root_addChild]
    exact chooses.remote
  · have top : plan.tree.id ∈ plan.tree.ids := List.mem_map_of_mem plan.tree.root_mem_nodes
    rw [PlanTree.id_addChild, Plan.settings?, Plan.block?_addChild numbered rfl top]
    exact chooses.partitioned
  · intro bounds here
    refine ⟨bounds, ?_, rfl⟩
    rw [indexingLoop_congr (PlanTree.id_addChild ..) fun nested =>
      PlanTree.headId?_addChild (head nested) .., Plan.bounds?, Plan.block?_addChild numbered rfl]
    · exact here
    · -- A node that is looked up is there.
      obtain ⟨block, found, -⟩ := Option.bind_eq_some_iff.mp here
      obtain ⟨id, record, -⟩ := Option.bind_eq_some_iff.mp found
      obtain ⟨node, known, -⟩ := Option.bind_eq_some_iff.mp record
      obtain ⟨member, same⟩ := Plan.mem_nodes_of_node? known
      exact same ▸ List.mem_map_of_mem member

/-- Neither do more of them. -/
theorem Chooses.repeats (chooses : Chooses context plan choice) (numbered : plan.tree.IsNumbered)
    (head : context.nested = true → plan.tree.headId?.isSome = true)
    (repeats : plan.tree.Repeats tree) : Chooses context { plan with tree } choice := by
  induction repeats with
  | refl => exact chooses
  | again start there operator inside apart placement workers ih =>
    refine ih.again (start.isNumbered numbered) (fun nested => ?_) there operator inside apart
      placement workers
    rw [start.headId?_eq (head nested)]
    exact head nested

/-! ## A loop that is split -/

/-- Where the loop is known to be split, the choice is the one that was made before. -/
theorem Chooses.division {chunk : Nat} {var : String} (chooses : Chooses context plan choice)
    (formed : plan.IsFormed) (whole : context.nested = false)
    (division : Plan.Division plan after chunk var) (vars : seen.vars = context.vars)
    (nested : seen.nested = true) : Chooses seen after choice := by
  have same := division.sameOperators formed
  apply chooses.of_sameSlices
  · have placed := congrArg Prod.fst division.placement_outer
    rw [Plan.decided, PlanTree.node?_root] at placed
    exact Option.some.inj placed
  · rw [division.settings?_outer, ← chooses.partitioned, division.settings?_root]
    rfl
  · exact vars
  · intro bounds here
    rw [indexingLoop, whole, if_neg Bool.false_ne_true, division.bounds?_root] at here
    obtain rfl := Option.some.inj here
    -- The inner loop has taken the variable over and runs through a chunk of the range.
    refine ⟨division.bounds.withinChunk var division.steps, ?_, rfl⟩
    rw [indexingLoop, nested, if_pos rfl, ← PlanTree.headId?, division.headId?_eq]
    exact division.bounds?_inner
  · apply CoversSlices.of_reads _ (funext same.readHop_eq)
    intro leaf there operator
    have listed : leaf ∈ after.tree.operators := List.mem_filter.mpr ⟨there, operator⟩
    rw [same.operators_eq] at listed
    exact (List.mem_filter.mp listed).1
  · apply CoversSlices.of_reads _ (funext same.readHop_eq).symm
    intro leaf there operator
    have listed : leaf ∈ plan.tree.operators := List.mem_filter.mpr ⟨there, operator⟩
    rw [← same.operators_eq] at listed
    exact (List.mem_filter.mp listed).1

/-! ## The context that a pass makes -/

section

variable [Quantity α] {settings : OptimizerSettings α} {vars : Variables}

/-- The context is one that a pass makes of the plan, with any footprint that it may estimate. -/
def IsMadeOf (settings : OptimizerSettings α) (vars : Variables) (plan : Plan α)
    (context : PassContext α) : Prop :=
  ∃ infrastructure made footprint,
    PassContext.ofPlan settings vars infrastructure plan = .ok made ∧
      context = { made with footprint }

theorem IsMadeOf.vars_eq (made : IsMadeOf settings vars plan context) : context.vars = vars := by
  obtain ⟨_, _, _, known, rfl⟩ := made
  obtain ⟨_, _, -, -, rfl⟩ := PassContext.of_ofPlan known
  rfl

/-- A loop that is known to be split has nothing below it but the inner loop. -/
theorem IsMadeOf.exists_inner (made : IsMadeOf settings vars plan context)
    (nested : context.nested = true) : ∃ inner, plan.tree.children = [inner] := by
  obtain ⟨_, _, _, known, rfl⟩ := made
  obtain ⟨split, _, split_eq, -, rfl⟩ := PassContext.of_ofPlan known
  by_contra other
  have whole : plan.splitTripCount plan.tree.id settings.nestedVar = .ok none :=
    Plan.splitTripCount_of_not fun inner children => absurd ⟨inner, children⟩ other
  obtain rfl := Except.ok.inj (split_eq.symm.trans whole)
  cases nested

/-- A loop between constants is known to be split once it is, if its chunks are counted by the
variable for this. -/
theorem IsMadeOf.nested_of_division {chunk : Nat} {first last : Int}
    (division : Plan.Division plan after chunk settings.nestedVar)
    (constant : division.bounds.first = .const first ∧ division.bounds.last = .const last)
    (distinct : after.tree.ids.Nodup) (reorders : after.tree.Reorders tree)
    (made : IsMadeOf settings vars { after with tree } context) : context.nested = true := by
  obtain ⟨_, _, _, known, rfl⟩ := made
  obtain ⟨split, _, split_eq, -, rfl⟩ := PassContext.of_ofPlan known
  obtain ⟨moved, only, inner⟩ := reorders.exists_child division.children_eq
  have parallel : moved.root.kind = .parfor := congrArg PlanNode.kind inner.root_eq
  have moved_id : moved.id = plan.tree.freshId := congrArg PlanNode.id inner.root_eq
  have id_eq : tree.id = after.tree.id := congrArg PlanNode.id reorders.root_eq
  have counted := Plan.chunkCount_of_splitTripCount only parallel split_eq
  change Plan.chunkCount _ (Plan.bounds? { after with tree } tree.id) _ = _ at counted
  rw [Plan.bounds?_of_reorders distinct reorders, moved_id, id_eq, division.bounds?_outer,
    division.bounds?_inner] at counted
  simp only [Plan.chunkCount, LoopBounds.chunks, LoopBounds.withinChunk, constant, and_self,
    if_true] at counted
  obtain ⟨count, -, rfl⟩ := Outcome.of_map counted
  rfl

/-- A pass over the loop that was split, in any order of nodes, chooses what was chosen before. -/
theorem Chooses.divisionMade {chunk : Nat} {first last : Int} (chooses : Chooses context plan choice)
    (formed : plan.IsFormed) (whole : context.nested = false)
    (division : Plan.Division plan after chunk settings.nestedVar)
    (constant : division.bounds.first = .const first ∧ division.bounds.last = .const last)
    (distinct : after.tree.ids.Nodup) (reorders : after.tree.Reorders tree)
    (made : IsMadeOf settings context.vars { after with tree } seen) :
    Chooses seen { after with tree } choice := by
  have nested := made.nested_of_division division constant distinct reorders
  -- The inner loop is the only node below the outer one, so it stays the one that is asked for.
  obtain ⟨inner, only⟩ := made.exists_inner nested
  have chosen := chooses.division formed whole division made.vars_eq nested
  exact chosen.reorders distinct (fun _ => (reorders.symm.headId?_eq only).symm) reorders

end

/-- The third rule places the tasks of a remote loop over partitioned inputs next to the heaviest of
the matrices that operators read by slices at the value of its variable, if there are any, and does
nothing else. It does the same when nodes stand in another order, and when operators occur again
wherever an inner loop stays the first child. It also does the same when the loop is split, whatever
variable counts the chunks, in a context in which this is known. A pass makes such a context if the
bounds are constants and the chunks are counted by the variable of its settings, and then the order
of nodes makes no difference either. -/
theorem chooses_colocation (formed : plan.IsFormed)
    (split : context.nested = true → ∃ inner, plan.tree.children = [inner])
    (remote : plan.tree.root.placement = .remote)
    (partitioned : (plan.settings? plan.tree.id).map ParallelSettings.dataPartitioner =
      some .remote)
    (leads : (runColocation context).Leads plan () after) :
    ∃ choice, Chooses context plan choice ∧ after = plan.nextTo choice ∧
      (∀ matrix, choice = some matrix →
        after.decided .colocated plan.tree.id = (some (), some (some matrix))) ∧
      (∀ tree, plan.tree.Reorders tree →
        (runColocation context).Does { plan with tree } ()
          (Plan.nextTo choice { plan with tree })) ∧
      (∀ grown, plan.tree.Repeats grown → ∀ tree, grown.Reorders tree →
        (context.nested = true → tree.headId? = plan.tree.headId?) →
          (runColocation context).Does { plan with tree } ()
            (Plan.nextTo choice { plan with tree })) ∧
      (context.nested = false → ∀ chunk var inner divided,
        (Plan.splitLoop plan.tree.id chunk var).result plan = (.ok inner, divided) →
          ∀ seen : PassContext α, seen.vars = context.vars → seen.nested = true →
            (runColocation seen).Does divided () (divided.nextTo choice)) ∧
      (context.nested = false → ∀ [Quantity α] (settings : OptimizerSettings α) chunk inner divided,
        (Plan.splitLoop plan.tree.id chunk settings.nestedVar).result plan = (.ok inner, divided) →
          ∀ bounds first last, plan.bounds? plan.tree.id = some bounds →
            bounds.first = .const first → bounds.last = .const last →
              ∀ tree, divided.tree.Reorders tree → ∀ seen,
                IsMadeOf settings context.vars { divided with tree } seen →
                  (runColocation seen).Does { divided with tree } ()
                    (Plan.nextTo choice { divided with tree })) := by
  obtain ⟨choice, chooses, after_eq⟩ := exists_chooses remote partitioned leads
  have first (nested : context.nested = true) : plan.tree.headId?.isSome = true := by
    obtain ⟨inner, only⟩ := split nested
    rw [PlanTree.headId?, only]
    rfl
  refine ⟨choice, chooses, after_eq, ?_, ?_, ?_, ?_, ?_⟩
  · rintro matrix rfl
    obtain ⟨settings, read, -⟩ := Option.map_eq_some_iff.mp partitioned
    have set : (Plan.setColocated plan.tree.id matrix).result plan =
        (.ok (), plan.nextTo (some matrix)) :=
      result_setColocated (Option.isSome_of_eq_some read)
    rw [after_eq]
    exact Plan.decided_setColocated set
  · intro tree reorders
    have head (nested : context.nested = true) : tree.headId? = plan.tree.headId? := by
      obtain ⟨inner, only⟩ := split nested
      exact reorders.headId?_eq only
    exact (chooses.reorders formed.numbered.distinct head reorders).does
  · intro grown repeats tree reorders head
    have grows := chooses.repeats formed.numbered first repeats
    refine (grows.reorders (repeats.isNumbered formed.numbered).distinct ?_ reorders).does
    intro nested
    rw [head nested, repeats.headId?_eq (first nested)]
  · intro whole chunk var inner divided done seen vars nested
    obtain ⟨division⟩ := Plan.exists_division formed.numbered done
    exact (chooses.division formed whole division vars nested).does
  · intro whole _ settings chunk inner divided done bounds first last here first_eq last_eq tree
      reorders seen made
    obtain ⟨division⟩ := Plan.exists_division formed.numbered done
    obtain ⟨_, _, _, _, _, split⟩ := Plan.exists_split formed.numbered.distinct done
    have distinct := (split.isNumbered formed.numbered).distinct
    obtain rfl := Option.some.inj (division.bounds?_root.symm.trans here)
    exact (chooses.divisionMade formed whole division ⟨first_eq, last_eq⟩ distinct reorders
      made).does

end PlanningRule

namespace Optimizer

open PlanningRule

/-- A remote loop over partitioned inputs. Two operators read rows at the value of its variable, and
a third one reads columns at the value of another one. -/
def threeReads : Plan Rat where
  tree :=
    .node { id := ⟨0⟩, kind := .parfor, placement := .remote, block := some ⟨0⟩
            parameters := { numIterations := some "10" } }
      [.node { id := ⟨1⟩, kind := .hop, placement := .inProcess, hop := some ⟨0⟩
               parameters :=
                { opString := some rightIndexing, dataPartitionFormat := some "ROW_WISE" } } [],
       .node { id := ⟨2⟩, kind := .hop, placement := .inProcess, hop := some ⟨1⟩
               parameters :=
                { opString := some rightIndexing, dataPartitionFormat := some "ROW_WISE" } } [],
       .node { id := ⟨3⟩, kind := .hop, placement := .inProcess, hop := some ⟨2⟩
               parameters :=
                { opString := some rightIndexing
                  dataPartitionFormat := some "COLUMN_WISE" } } []]
  program :=
    { blocks := #[
        .parallel { var := "i", first := .const 1, last := .const 10, step := 1 }
          { ParallelSettings.undecided with mode := .remote, dataPartitioner := .remote } []]
      hops := #[
        { op := rightIndexing
          inputs := [⟨"Y", true⟩, ⟨"i", true⟩, ⟨"i", true⟩, ⟨"1", false⟩, ⟨"5", false⟩]
          memory := some 40 },
        { op := rightIndexing
          inputs := [⟨"X", true⟩, ⟨"i", true⟩, ⟨"i", true⟩, ⟨"1", false⟩, ⟨"5", false⟩]
          memory := some 40 },
        { op := rightIndexing
          inputs := [⟨"Z", true⟩, ⟨"1", false⟩, ⟨"10", false⟩, ⟨"j", true⟩, ⟨"j", true⟩]
          memory := some 80 }] }

/-- The matrices that are read at the value of the variable are as heavy as each other, and the
other one is heavier. -/
def threeContext : PassContext Rat :=
  .ofTree (ofMachine 1).settings
    (.ofList [("X", { rows := 10, columns := 5, nonzeros := 50, format := .binaryBlock }),
      ("Y", { rows := 10, columns := 5, nonzeros := 50, format := .binaryBlock }),
      ("Z", { rows := 10, columns := 10, nonzeros := 90, format := .binaryBlock })])
    (.localOnly 1 60) threeReads.tree 10 false

/-- The operator that reads the other matrix as heavy as the chosen one. -/
def readsOther : PlanTree :=
  .node { id := ⟨1⟩, kind := .hop, placement := .inProcess, hop := some ⟨0⟩
          parameters :=
            { opString := some rightIndexing, dataPartitionFormat := some "ROW_WISE" } } []

/-- Of the two matrices that are as heavy as each other the first one by name is the choice. -/
theorem chooses_first : Chooses threeContext threeReads (some "X") := by
  have indexed : (directlyIndexedAll "i" threeReads.tree.subtrees).result threeReads =
      (.ok ["Y", "X"], threeReads) := rfl
  obtain ⟨readable, reads⟩ := of_directlyIndexedAll indexed
  have names : threeReads.indexedBy "i" = {name | name ∈ ["Y", "X"]} := (Set.ext reads).symm
  refine
    { remote := rfl, partitioned := rfl, readable
      heaviest := ⟨{ var := "i", first := .const 1, last := .const 10, step := 1 }, rfl, ?_⟩ }
  rw [names]
  refine ⟨by simp, { rows := 10, columns := 5, nonzeros := 50, format := .binaryBlock }, rfl, ?_⟩
  intro other there
  refine ⟨{ rows := 10, columns := 5, nonzeros := 50, format := .binaryBlock }, ?_, .inr ⟨rfl, ?_⟩⟩
  · rcases there with _ | ⟨_, _ | ⟨_, nil⟩⟩
    · rfl
    · rfl
    · cases nil
  · rcases there with _ | ⟨_, _ | ⟨_, nil⟩⟩
    · decide
    · exact String.le_refl _
    · cases nil

/-- It still is when the operators stand the other way round, when the operator of the other matrix
occurs twice, and when the loop is split into two chunks, whether this is known or a pass finds it
out. -/
theorem chooses_threeReads :
    ∃ after divided known seen, threeReads.IsFormed ∧ threeContext.nested = false ∧
      threeReads.tree.root.placement = .remote ∧
      (threeReads.settings? ⟨0⟩).map ParallelSettings.dataPartitioner = some .remote ∧
      (runColocation threeContext).Leads threeReads () after ∧
      after.decided .colocated ⟨0⟩ = (some (), some (some "X")) ∧
      (runColocation threeContext).Does
        { threeReads with tree := .node threeReads.tree.root threeReads.tree.children.reverse } ()
        (Plan.nextTo (some "X")
          { threeReads with
            tree := .node threeReads.tree.root threeReads.tree.children.reverse }) ∧
      (runColocation threeContext).Does
        { threeReads with
          tree := threeReads.tree.addChild ⟨0⟩ (readsOther.root.again ⟨4⟩ .remote 1) } ()
        (Plan.nextTo (some "X")
          { threeReads with
            tree := threeReads.tree.addChild ⟨0⟩ (readsOther.root.again ⟨4⟩ .remote 1) }) ∧
      (Plan.splitLoop ⟨0⟩ 5 "p").result threeReads = (.ok ⟨4⟩, divided) ∧
      (runColocation { threeContext with nested := true }).Does divided ()
        (divided.nextTo (some "X")) ∧
      (Plan.splitLoop ⟨0⟩ 5 threeContext.settings.nestedVar).result threeReads = (.ok ⟨4⟩, known) ∧
      PassContext.ofPlan threeContext.settings threeContext.vars (.localOnly 1 60) known =
        .ok seen ∧
      (runColocation seen).Does known () (known.nextTo (some "X")) := by
  have formed : threeReads.IsFormed :=
    { numbered := ⟨by decide, by decide⟩, top := rfl, kinds := by decide, operators := by decide }
  obtain ⟨log, done⟩ := chooses_first.does []
  have leads : (runColocation threeContext).Leads threeReads () (threeReads.nextTo (some "X")) :=
    ⟨[], log, done⟩
  have whole : threeContext.nested = false := rfl
  obtain ⟨divided, split⟩ : ∃ divided, (Plan.splitLoop ⟨0⟩ 5 "p").result threeReads =
      (.ok ⟨4⟩, divided) := ⟨_, Prod.ext (by decide +kernel) rfl⟩
  obtain ⟨known, alsoSplit⟩ : ∃ known,
      (Plan.splitLoop ⟨0⟩ 5 threeContext.settings.nestedVar).result threeReads =
        (.ok ⟨4⟩, known) := ⟨_, Prod.ext (by decide +kernel) rfl⟩
  obtain ⟨seen, made⟩ : ∃ seen, PassContext.ofPlan threeContext.settings threeContext.vars
      (.localOnly 1 60) known = .ok seen := by
    have known_eq := congrArg Prod.snd alsoSplit
    dsimp only at known_eq
    rw [← known_eq]
    exact Outcome.exists_ok (by decide +kernel)
  obtain ⟨choice, chooses, -, placed, reorders, repeats, divides, finds⟩ :=
    chooses_colocation formed (by simp [whole]) rfl rfl leads
  obtain rfl := chooses.unique chooses_first
  refine ⟨_, divided, known, seen, formed, whole, rfl, rfl, leads, placed _ rfl, ?_, ?_, split, ?_,
    alsoSplit, made, ?_⟩
  · exact reorders _ (.children (List.reverse_perm _).symm)
  · have there : readsOther ∈ threeReads.tree.subtrees :=
      PlanTree.mem_subtrees_node.mpr (.inr ⟨readsOther, .head _, readsOther.self_mem_subtrees⟩)
    have grows : threeReads.tree.Repeats
        (threeReads.tree.addChild ⟨0⟩ (readsOther.root.again ⟨4⟩ .remote 1)) :=
      .again .refl there rfl (by decide) (by decide) .remote 1
    exact repeats _ grows _ (.refl _) (by simp [whole])
  · exact divides whole 5 "p" ⟨4⟩ divided split _ rfl rfl
  · exact finds whole _ 5 ⟨4⟩ known alsoSplit _ 1 10 rfl rfl rfl known.tree (.refl _) seen
      ⟨_, seen, seen.footprint, made, rfl⟩

end Optimizer

end ParallelLoop
