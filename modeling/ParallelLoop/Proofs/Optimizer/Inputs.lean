/-
# What operators read

Three rules look at the operators of a loop: the first one partitions their inputs, the
third one chooses a matrix that they read, and the seventh one asks which matrices they
write. They look at nodes without nodes below them only, so a tree can be replaced by the list
of these, `PlanTree.operators`; and of the program they see what each node reads. Plans that
agree on both, `Plan.SameOperators`, look the same to these rules.

The first rule changes what it looks at. It never undoes what it did, though: an operator
that reads a partition still counts as an input, and asking again which partition it should
read gives the same answer.
-/

import ParallelLoop.Proofs.Optimizer.Stages
import ParallelLoop.Proofs.Plan.Operators

namespace ParallelLoop

open PlanningRule

/-- The record of an operator that reads a slice. -/
def PlanNode.sliced (format : PartitionFormat) (node : PlanNode) : PlanNode :=
  { node with placement := .inProcess }.setParam .dataPartitionFormat format.name

/-- The node is an indexing operator that is, or was, a distributed job. -/
def PlanNode.isInput (node : PlanNode) : Bool :=
  node.kind == .hop && node.param? .opString == some rightIndexing &&
    (node.placement == .remote || (node.param? .dataPartitionFormat).isSome)

theorem PlanNode.isInput_sliced {node : PlanNode} (input : node.isInput = true)
    (format : PartitionFormat) : (node.sliced format).isInput = true := by
  have recorded : (node.sliced format).param? .dataPartitionFormat = some format.name :=
    (param?_setParam ..).trans (if_pos rfl)
  have opString : (node.sliced format).param? .opString = node.param? .opString :=
    (param?_setParam ..).trans (if_neg nofun)
  unfold isInput at *
  rw [recorded, opString, Option.isSome_some, Bool.or_true, Bool.and_true]
  exact (Bool.and_eq_true_iff.mp input).1

/-! ## The operators of a tree -/

namespace PlanTree

variable {tree other : PlanTree}

/-- The tree is a single operator. -/
def isLeafOperator (tree : PlanTree) : Bool := tree.isLeaf && tree.root.kind == .hop

/-- The operators of a tree that have nothing below them. -/
def operators (tree : PlanTree) : List PlanTree := tree.subtrees.filter isLeafOperator

theorem isLeafOperator_bare (tree : PlanTree) : tree.bare.isLeafOperator = tree.isLeafOperator := by
  unfold isLeafOperator
  rw [isLeaf_bare, root_bare, Bool.eq_iff_iff]
  simp [PlanNode.kind_bare_eq_hop]

theorem bare_of_isLeafOperator (leaf : tree.isLeafOperator = true) : tree.bare = tree := by
  cases tree with
  | node root children =>
    unfold isLeafOperator isLeaf at leaf
    rw [Bool.and_eq_true, List.isEmpty_iff, beq_iff_eq] at leaf
    obtain ⟨rfl, operator⟩ : children = [] ∧ root.kind = .hop := leaf
    rw [bare_node, PlanNode.bare_of_hop operator]
    rfl

/-- Trees that look alike when laid bare have the same operators. -/
theorem operators_of_bare (same : other.bare = tree.bare) : other.operators = tree.operators := by
  have plain (tree : PlanTree) :
      (tree.subtrees.map bare).filter isLeafOperator = tree.operators := by
    rw [List.filter_map, operators]
    have kept : isLeafOperator ∘ bare = isLeafOperator := funext isLeafOperator_bare
    rw [kept]
    refine (List.map_congr_left fun subtree there => ?_).trans (List.map_id _)
    exact bare_of_isLeafOperator (List.mem_filter.mp there).2
  rw [← plain, subtrees_of_bare same, plain]

theorem operators_node {root : PlanNode} (other : root.kind ≠ .hop) (children : List PlanTree) :
    (node root children).operators = (subtreesAll children).filter isLeafOperator := by
  have notLeaf : (node root children).isLeafOperator = false := by
    rw [isLeafOperator, Bool.and_eq_false_imp]
    exact fun _ => beq_eq_false_iff_ne.mpr other
  rw [operators, subtrees_node, List.filter_cons_of_neg (Bool.not_eq_true _ ▸ notLeaf)]

/-- The operators that are, or were, distributed indexing jobs. -/
def inputs (tree : PlanTree) : List NodeId :=
  (tree.subtrees.filter isPartitionable).map PlanTree.id

theorem isLeafOperator_of_isOperator {op : String} (operator : isOperator op tree = true) :
    tree.isLeafOperator = true := by
  unfold isOperator at operator
  exact Bool.and_eq_true_iff.mp operator |>.1

theorem isLeafOperator_of_isPartitionable (input : isPartitionable tree = true) :
    tree.isLeafOperator = true :=
  isLeafOperator_of_isOperator (Bool.and_eq_true_iff.mp input).1

theorem isPartitionable_eq (tree : PlanTree) :
    isPartitionable tree = (tree.isLeaf && tree.root.isInput) := by
  unfold isPartitionable isOperator PlanNode.isInput
  simp only [Bool.and_assoc]

theorem inputs_eq_operators (tree : PlanTree) :
    tree.inputs = (tree.operators.filter isPartitionable).map PlanTree.id := by
  rw [inputs, operators, List.filter_filter]
  congr 2
  funext subtree
  rw [Bool.eq_iff_iff, Bool.and_eq_true]
  exact ⟨fun input => ⟨input, isLeafOperator_of_isPartitionable input⟩, And.left⟩

end PlanTree

/-! ## Plans with the same operators -/

theorem Program.getElem?_of_hop {α : Type} {program : Program α} {id : HopId} {hop : Hop α}
    (held : program.hop id = .ok hop) : program.hops[id.index]? = some hop := by
  unfold Program.hop at held
  split at held
  next found => rw [found, Except.ok.inj held]
  next => cases held

namespace Plan

variable {α β γ : Type} {plan before after : Plan α} {id : NodeId}

/-- The operator that a node reads. -/
def readHop (plan : Plan α) (id : NodeId) : Except Error (Hop α) := do
  plan.program.hop (← plan.hopOf id)

theorem result_readHop_bind {next : Hop α → Change (Plan α) β} {hop : Hop α}
    (found : plan.readHop id = .ok hop) :
    (do
      let hopId ← Change.inspect fun plan => plan.hopOf id
      let hop ← Change.inspect fun plan => plan.program.hop hopId
      next hop : Change (Plan α) β).result plan = (next hop).result plan := by
  obtain ⟨hopId, bound, held⟩ := Outcome.of_bind found
  rw [Change.result_inspect_bind (fun plan : Plan α => plan.hopOf id) bound,
    Change.result_inspect_bind (fun plan : Plan α => plan.program.hop hopId) held]

theorem of_readHop_bind {next : Hop α → Change (Plan α) β} {value : β}
    (done : (do
      let hopId ← Change.inspect fun plan => plan.hopOf id
      let hop ← Change.inspect fun plan => plan.program.hop hopId
      next hop : Change (Plan α) β).result plan = (.ok value, after)) :
    ∃ hop, plan.readHop id = .ok hop ∧ (next hop).result plan = (.ok value, after) := by
  obtain ⟨hopId, bound, named⟩ := Change.of_inspect_bind done
  obtain ⟨hop, held, rest⟩ := Change.of_inspect_bind named
  exact ⟨hop, by rw [readHop, bound, Outcome.ok_bind, held], rest⟩

/-- The plans have the same operators, which read the same. -/
structure SameOperators (before after : Plan α) : Prop where
  operators_eq : after.tree.operators = before.tree.operators
  readHop_eq : ∀ id, after.readHop id = before.readHop id

theorem SameOperators.trans {mid : Plan α} (first : before.SameOperators mid)
    (second : mid.SameOperators after) : before.SameOperators after where
  operators_eq := second.operators_eq.trans first.operators_eq
  readHop_eq id := (second.readHop_eq id).trans (first.readHop_eq id)

theorem readHop_of_bare (same : after.tree.bare = before.tree.bare)
    (hops : after.program.hops = before.program.hops) (id : NodeId) :
    after.readHop id = before.readHop id := by
  unfold readHop Program.hop
  rw [hopOf_of_bare same, hops]

theorem KeepsLoops.sameOperators {aspect : Aspect α β γ}
    (kept : before.KeepsLoops aspect after) : before.SameOperators after :=
  ⟨PlanTree.operators_of_bare kept.bare_eq, readHop_of_bare kept.bare_eq kept.hops_eq⟩

end Plan

/-- How the inputs of a loop are partitioned, and how they may be. -/
abbrev Aspect.slicing {α : Type} :
    Aspect α (Option String) (DataPartitioner × List (String × PartitionFormat)) :=
  ⟨fun node => node.param? .dataPartitioner,
    fun settings => (settings.dataPartitioner, settings.candidates)⟩

/-! ## Partitioned inputs -/

namespace PlanningRule

open Plan (settings_eq_ok_iff)

variable {α : Type} [Quantity α] {context : PassContext α}
  {candidates : List (String × PartitionFormat)} {plan before after : Plan α} {id : NodeId}

/-- The slice that an operator is to read, if one fits. -/
def sliceFor (context : PassContext α) (candidates : List (String × PartitionFormat)) (id : NodeId)
    (hop : Hop α) : Except Error (Option (PartitionFormat × α)) :=
  match hop.inputName? 0 with
  | none => .error (.indexingWithoutMatrix id)
  | some name =>
    match sliceFormat? candidates name with
    | none => .ok none
    | some format =>
      match context.vars.get? name with
      | none => .error (.partitionedNotLive name)
      | some matrix =>
        let slice := sliceMemory matrix format context.settings.blockSize
        .ok (if slice < context.localMemory then some (format, slice) else none)

/-- The slice that the operator of a node is to read, if one fits. -/
def sliceOf (context : PassContext α) (candidates : List (String × PartitionFormat))
    (plan : Plan α) (id : NodeId) : Except Error (Option (PartitionFormat × α)) := do
  sliceFor context candidates id (← plan.readHop id)

/-- Lets an operator read this slice, if there is one. -/
def readSlice (id : NodeId) : Option (PartitionFormat × α) → Change (Plan α) Bool
  | none => return false
  | some (format, slice) => do
    Plan.setPartitionFormat id format slice
    return true

/-- Partitioning the input of an operator lets it read its slice. -/
theorem result_partitionInput {choice : Option (PartitionFormat × α)}
    (found : sliceOf context candidates plan id = .ok choice) :
    (partitionInput context candidates id).result plan = (readSlice id choice).result plan := by
  obtain ⟨hop, read, chosen⟩ := Outcome.of_bind found
  rw [partitionInput, Plan.result_readHop_bind read]
  -- Both look up the name, its format and the matrix, in this order.
  cases name_eq : hop.inputName? 0 with
  | none =>
    rw [sliceFor, name_eq] at chosen
    cases chosen
  | some name =>
    rw [sliceFor, name_eq] at chosen
    dsimp only at chosen ⊢
    cases format_eq : sliceFormat? candidates name with
    | none =>
      rw [format_eq] at chosen
      cases chosen
      rfl
    | some format =>
      rw [format_eq] at chosen
      dsimp only at chosen ⊢
      cases matrix_eq : context.vars.get? name with
      | none =>
        rw [matrix_eq] at chosen
        cases chosen
      | some matrix =>
        rw [matrix_eq] at chosen
        cases chosen
        dsimp only
        split <;> rfl

/-- The slice of an input that was looked at. -/
theorem of_partitionInput {applied : Bool}
    (done : (partitionInput context candidates id).result plan = (.ok applied, after)) :
    ∃ choice, sliceOf context candidates plan id = .ok choice ∧
      (readSlice id choice).result plan = (.ok applied, after) := by
  -- Had finding the slice failed, partitioning would have failed at the same point.
  have found : ∃ choice, sliceOf context candidates plan id = .ok choice := by
    obtain ⟨hop, read, chosen⟩ := Plan.of_readHop_bind done
    rw [sliceOf, read, Outcome.ok_bind, sliceFor]
    cases name_eq : hop.inputName? 0 with
    | none =>
      rw [name_eq] at chosen
      cases chosen
    | some name =>
      rw [name_eq] at chosen
      dsimp only at chosen ⊢
      cases format_eq : sliceFormat? candidates name with
      | none => exact ⟨_, rfl⟩
      | some format =>
        rw [format_eq] at chosen
        dsimp only at chosen ⊢
        cases matrix_eq : context.vars.get? name with
        | none =>
          rw [matrix_eq] at chosen
          cases chosen
        | some matrix => exact ⟨_, rfl⟩
  obtain ⟨choice, slice_eq⟩ := found
  exact ⟨choice, slice_eq, by rw [← result_partitionInput slice_eq, done]⟩

/-- Partitions the inputs of these operators. Tells whether there are any. -/
def partitionEach (context : PassContext α) (candidates : List (String × PartitionFormat)) :
    List NodeId → Change (Plan α) Bool
  | [] => return false
  | id :: rest => do
    let applied ← partitionInput context candidates id
    let others ← partitionEach context candidates rest
    return applied || others

theorem partitionInputs_eq (trees : List PlanTree) :
    partitionInputs context candidates trees =
      partitionEach context candidates ((trees.filter isPartitionable).map PlanTree.id) := by
  induction trees with
  | nil => rfl
  | cons tree rest ih =>
    rw [partitionInputs, ih]
    by_cases input : isPartitionable tree = true
    · rw [List.filter_cons_of_pos input, List.map_cons, partitionEach, if_pos input]
    · rw [List.filter_cons_of_neg input, if_neg input, pure_bind]
      simp only [Bool.false_or, bind_pure]

theorem respects_partitionEach {relation : Plan α → Plan α → Prop}
    [IsPreorder (Plan α) relation]
    (formats : ∀ {id : NodeId} (format : PartitionFormat) (slice : α),
      Change.Respects relation (Plan.setPartitionFormat id format slice))
    (ids : List NodeId) : Change.Respects relation (partitionEach context candidates ids) := by
  induction ids with
  | nil => exact .pure _
  | cons id rest ih =>
    exact .bind (respects_partitionInput context formats candidates) fun _ =>
      .bind ih fun _ => .pure _

/-- The slice depends on what the operator reads, not on its memory and not on the node. -/
theorem sliceFor_congr {other : NodeId} {hop twin : Hop α} (same : twin.inputs = hop.inputs)
    {choice : Option (PartitionFormat × α)} (found : sliceFor context candidates id hop = .ok choice) :
    sliceFor context candidates other twin = .ok choice := by
  unfold sliceFor Hop.inputName? at *
  rw [same]
  -- Only the error for an operator without operands names the node.
  split at found
  next => cases found
  next => exact found

/-- The operator of the node reads this slice, and does so in the process. -/
structure ReadsSlice (plan : Plan α) (id : NodeId) (choice : PartitionFormat × α) : Prop where
  node : ∃ node, plan.tree.node? id = some node ∧ node.placement = .inProcess ∧
    node.param? .dataPartitionFormat = some choice.1.name
  hop : ∃ hop, plan.readHop id = .ok hop ∧ hop.memory = some choice.2

omit [Quantity α] in
theorem of_setPartitionFormat {format : PartitionFormat} {slice : α}
    (done : (Plan.setPartitionFormat id format slice).result plan = (.ok (), after)) :
    ∃ hopId hop, plan.hopOf id = .ok hopId ∧ plan.program.hop hopId = .ok hop ∧
      after.tree = plan.tree.update id (PlanNode.sliced format) ∧
      after.program = plan.program.modifyHop hopId fun hop => { hop with memory := some slice } := by
  obtain ⟨hopId, bound, named⟩ := Change.of_inspect_bind done
  obtain ⟨hop, held, changed⟩ := Change.of_inspect_bind named
  cases changed
  exact ⟨hopId, hop, bound, held, rfl, rfl⟩

omit [Quantity α] in
/-- Another node reads what it read, only that the memory may be known by now. -/
theorem readHop_setPartitionFormat {format : PartitionFormat} {slice : α} {other : NodeId}
    {hop : Hop α}
    (done : (Plan.setPartitionFormat id format slice).result plan = (.ok (), after))
    (read : plan.readHop other = .ok hop) :
    after.readHop other =
      .ok (if plan.hopOf other = plan.hopOf id then { hop with memory := some slice } else hop) := by
  obtain ⟨hopId, _, bound, -, tree_eq, program_eq⟩ := of_setPartitionFormat done
  obtain ⟨own, own_eq, held⟩ := Outcome.of_bind read
  -- The operator that a node reads is not recorded anew.
  have same : after.hopOf other = plan.hopOf other := by
    have reader : (after.tree.node? other).bind PlanNode.hop =
        (plan.tree.node? other).bind PlanNode.hop := by
      rw [tree_eq, PlanTree.node?_update (fun _ => by rfl)]
      split
      next here =>
        rw [here]
        cases plan.tree.node? id <;> rfl
      next => rfl
    unfold Plan.hopOf
    rw [reader]
  have found := Program.getElem?_of_hop held
  rw [Plan.readHop, same, own_eq, Outcome.ok_bind, program_eq, bound]
  unfold Program.hop Program.modifyHop
  dsimp only
  rw [Array.getElem?_modify]
  by_cases here : own = hopId
  · rw [here, if_pos rfl, if_pos rfl, ← here, found]
    rfl
  · have differs : ¬ hopId.index = own.index := fun index =>
      here (congrArg HopId.mk index).symm
    have alsoDiffers : ¬ (Except.ok own : Except Error HopId) = .ok hopId := fun both =>
      here (Except.ok.inj both)
    rw [if_neg differs, if_neg alsoDiffers, found]

/-- What slice an operator is to read does not change when one gets it. -/
theorem sliceOf_setPartitionFormat {format : PartitionFormat} {slice : α} {other : NodeId}
    {choice : Option (PartitionFormat × α)}
    (done : (Plan.setPartitionFormat id format slice).result plan = (.ok (), after))
    (found : sliceOf context candidates plan other = .ok choice) :
    sliceOf context candidates after other = .ok choice := by
  obtain ⟨hop, read, chosen⟩ := Outcome.of_bind found
  rw [sliceOf, readHop_setPartitionFormat done read, Outcome.ok_bind]
  refine sliceFor_congr ?_ chosen
  split <;> rfl

/-- An operator that got its slice reads it, and so do those that had theirs. -/
theorem readsSlice_setPartitionFormat {choice other : PartitionFormat × α} {reader : NodeId}
    (done : (Plan.setPartitionFormat id choice.1 choice.2).result plan = (.ok (), after))
    (found : sliceOf context candidates plan id = .ok (some choice))
    (alsoFound : sliceOf context candidates plan reader = .ok (some other))
    (reads : reader = id ∨ ReadsSlice plan reader other) : ReadsSlice after reader other := by
  obtain ⟨hop, read, chosen⟩ := Outcome.of_bind found
  obtain ⟨twin, alsoRead, alsoChosen⟩ := Outcome.of_bind alsoFound
  -- Nodes that read the same operator are to read the same slice of it.
  have shared (same : plan.hopOf reader = plan.hopOf id) : other = choice := by
    have hops : twin = hop := by
      rw [Plan.readHop, same] at alsoRead
      exact Except.ok.inj (alsoRead.symm.trans read)
    rw [hops] at alsoChosen
    have both := (sliceFor_congr rfl alsoChosen).symm.trans chosen
    exact Option.some.inj (Except.ok.inj both)
  obtain ⟨hopId, held, bound, -, tree_eq, -⟩ := of_setPartitionFormat done
  refine ⟨?_, _, readHop_setPartitionFormat done alsoRead, ?_⟩
  -- The record of a node changes only if it is the one that got the slice.
  · rw [tree_eq, PlanTree.node?_update (fun _ => by rfl)]
    by_cases here : reader = id
    · obtain ⟨node, there⟩ : ∃ node, plan.tree.node? id = some node := by
        unfold Plan.hopOf at bound
        cases of_id : plan.tree.node? id with
        | none =>
          rw [of_id] at bound
          cases bound
        | some node => exact ⟨node, rfl⟩
      rw [if_pos here, there, shared (here ▸ rfl)]
      exact ⟨_, rfl, rfl, (PlanNode.param?_setParam ..).trans (if_pos rfl)⟩
    · rw [if_neg here]
      exact (reads.resolve_left here).node
  -- The memory of an operator changes for all nodes that read it.
  · split
    next same => rw [shared same]
    next different =>
      have already := reads.resolve_left fun here => different (here ▸ rfl)
      obtain ⟨own, own_eq, memory_eq⟩ := already.hop
      rw [Except.ok.inj (alsoRead.symm.trans own_eq), memory_eq]

omit [Quantity α] in
/-- Letting an operator read the slice that it reads changes nothing. -/
theorem setPartitionFormat_eq_self {choice : PartitionFormat × α} (distinct : plan.tree.ids.Nodup)
    (reads : ReadsSlice plan id choice) :
    (Plan.setPartitionFormat id choice.1 choice.2).result plan = (.ok (), plan) := by
  obtain ⟨⟨node, there, place, format_eq⟩, hop, read, memory_eq⟩ := reads
  obtain ⟨hopId, bound, held⟩ := Outcome.of_bind read
  have found := Program.getElem?_of_hop held
  -- Neither the operator nor the record of the node is changed.
  have program_eq : (plan.program.modifyHop hopId fun hop =>
      { hop with memory := some choice.2 }) = plan.program := by
    have hops : plan.program.hops.modify hopId.index
        (fun hop => { hop with memory := some choice.2 }) = plan.program.hops := by
      apply Array.ext_getElem?
      intro index
      rw [Array.getElem?_modify]
      split
      next here => rw [← here, found, Option.map_some, ← memory_eq]
      next => rfl
    rw [Program.modifyHop, hops]
  have tree_eq : plan.tree.update id (PlanNode.sliced choice.1) = plan.tree := by
    rw [PlanTree.update_eq_mapNodes distinct]
    refine PlanTree.mapNodes_eq_self fun other inside => ?_
    split
    next here =>
      rw [← here, PlanTree.node?_eq_some distinct inside, Option.some.injEq] at there
      subst there
      have kept : { other with placement := .inProcess } = other := by rw [← place]
      rw [PlanNode.sliced, kept, PlanNode.setParam_eq_self format_eq]
    next => rfl
  rw [Plan.setPartitionFormat,
    Change.result_inspect_bind (fun plan : Plan α => plan.hopOf id) bound,
    Change.result_inspect_bind (fun plan : Plan α => plan.program.hop hopId) held,
    Change.result_bind (Change.result_modify _ plan), program_eq, Plan.updateNode,
    Change.result_modify]
  exact congrArg (fun tree => (Except.ok (), { plan with tree })) tree_eq

omit [Quantity α] in
/-- An input stays an input when it gets a slice, and nothing else becomes one. -/
theorem inputs_update {format : PartitionFormat} {tree : PlanTree} (distinct : tree.ids.Nodup)
    (input : id ∈ tree.inputs) : (tree.update id (PlanNode.sliced format)).inputs = tree.inputs := by
  unfold PlanTree.inputs
  rw [PlanTree.update_eq_mapNodes distinct, PlanTree.subtrees_mapNodes, List.filter_map,
    List.map_map]
  have ids : PlanTree.id ∘ PlanTree.mapNodes (fun node =>
      if node.id = id then node.sliced format else node) = PlanTree.id := by
    funext subtree
    rw [Function.comp_apply, PlanTree.id, PlanTree.root_mapNodes]
    split <;> rfl
  rw [ids]
  congr 1
  refine List.filter_congr fun subtree there => ?_
  have leaf : (subtree.mapNodes fun node =>
      if node.id = id then node.sliced format else node).isLeaf = subtree.isLeaf := by
    rw [PlanTree.isLeaf, PlanTree.children_mapNodes, List.isEmpty_map]
    rfl
  rw [Function.comp_apply, PlanTree.isPartitionable_eq, PlanTree.isPartitionable_eq, leaf,
    PlanTree.root_mapNodes]
  split
  next here =>
    -- This is the input that gets the slice, and it counts before and after.
    obtain ⟨twin, listed, twin_eq⟩ := List.mem_map.mp input
    obtain ⟨inside, partitionable⟩ := List.mem_filter.mp listed
    have found := PlanTree.find?_eq_some distinct inside
    rw [twin_eq, ← here, ← PlanTree.id, PlanTree.find?_eq_some distinct there,
      Option.some.injEq] at found
    rw [← found, PlanTree.isPartitionable_eq, Bool.and_eq_true] at partitionable
    rw [partitionable.1, partitionable.2, PlanNode.isInput_sliced partitionable.2]
  next => rfl

/-- Operators may have got their slices, and nothing else has changed. -/
structure Slicing (context : PassContext α) (candidates : List (String × PartitionFormat))
    (plan after : Plan α) : Prop where
  distinct : after.tree.ids.Nodup
  inputs_eq : after.tree.inputs = plan.tree.inputs
  sliceOf_eq : ∀ {id choice}, sliceOf context candidates plan id = .ok choice →
    sliceOf context candidates after id = .ok choice
  readsSlice : ∀ {id slice}, sliceOf context candidates plan id = .ok (some slice) →
    ReadsSlice plan id slice → ReadsSlice after id slice

theorem Slicing.refl (distinct : plan.tree.ids.Nodup) : Slicing context candidates plan plan :=
  ⟨distinct, rfl, fun found => found, fun _ reads => reads⟩

theorem Slicing.trans {mid : Plan α} (first : Slicing context candidates plan mid)
    (second : Slicing context candidates mid after) : Slicing context candidates plan after where
  distinct := second.distinct
  inputs_eq := second.inputs_eq.trans first.inputs_eq
  sliceOf_eq found := second.sliceOf_eq (first.sliceOf_eq found)
  readsSlice found reads := second.readsSlice (first.sliceOf_eq found) (first.readsSlice found reads)

/-- An input gets the slice that it is to read. -/
theorem of_readSlice {choice : Option (PartitionFormat × α)} {applied : Bool}
    (distinct : plan.tree.ids.Nodup) (input : id ∈ plan.tree.inputs)
    (found : sliceOf context candidates plan id = .ok choice)
    (done : (readSlice id choice).result plan = (.ok applied, after)) :
    Slicing context candidates plan after ∧ applied = choice.isSome ∧
      ∀ slice, choice = some slice → ReadsSlice after id slice := by
  cases choice with
  | none =>
    cases done
    exact ⟨.refl distinct, rfl, nofun⟩
  | some slice =>
    obtain ⟨_, mid, set, returned⟩ := Change.of_bind done
    cases returned
    obtain ⟨hopId, hop, -, -, tree_eq, -⟩ := of_setPartitionFormat set
    refine ⟨⟨?_, ?_, sliceOf_setPartitionFormat set, fun alsoFound reads =>
      readsSlice_setPartitionFormat set found alsoFound (.inr reads)⟩, rfl, ?_⟩
    · rwa [tree_eq, PlanTree.ids_update fun _ => by rfl]
    · rw [tree_eq, inputs_update distinct input]
    · rintro _ ⟨⟩
      exact readsSlice_setPartitionFormat set found found (.inl rfl)

/-- One of these operators is to read a slice. -/
def AnySliced (context : PassContext α) (candidates : List (String × PartitionFormat))
    (plan : Plan α) (ids : List NodeId) : Prop :=
  ∃ id ∈ ids, ∃ slice, sliceOf context candidates plan id = .ok (some slice)

theorem anySliced_cons {choice : Option (PartitionFormat × α)} {rest : List NodeId}
    (found : sliceOf context candidates plan id = .ok choice) :
    AnySliced context candidates plan (id :: rest) ↔
      choice.isSome = true ∨ AnySliced context candidates plan rest := by
  unfold AnySliced
  simp [found, Option.isSome_iff_exists]

/-- Each of these operators reads the slice that it is to read, if there is one, and some of them do
if and only if so it is said. -/
structure AreSliced (context : PassContext α) (candidates : List (String × PartitionFormat))
    (plan : Plan α) (ids : List NodeId) (applied : Bool) : Prop where
  each : ∀ id ∈ ids, ∃ choice, sliceOf context candidates plan id = .ok choice ∧
    ∀ slice, choice = some slice → ReadsSlice plan id slice
  applied_iff : applied = true ↔ AnySliced context candidates plan ids

/-- Partitioning the inputs of operators lets each read its slice. -/
theorem of_partitionEach {ids : List NodeId} {applied : Bool} (distinct : plan.tree.ids.Nodup)
    (inputs : ∀ id ∈ ids, id ∈ plan.tree.inputs)
    (done : (partitionEach context candidates ids).result plan = (.ok applied, after)) :
    Slicing context candidates plan after ∧ AreSliced context candidates after ids applied := by
  induction ids generalizing plan applied with
  | nil =>
    cases done
    exact ⟨.refl distinct, nofun, nofun, fun ⟨_, there, _⟩ => absurd there List.not_mem_nil⟩
  | cons id rest ih =>
    obtain ⟨first, mid, step, others⟩ := Change.of_bind done
    obtain ⟨later, last, steps, returned⟩ := Change.of_bind others
    cases returned
    rw [List.forall_mem_cons] at inputs
    obtain ⟨choice, slice_eq, read⟩ := of_partitionInput step
    obtain ⟨slicing, rfl, reads⟩ := of_readSlice distinct inputs.1 slice_eq read
    -- The slice that was found before is still the one to be read at the end.
    obtain ⟨more, sliced⟩ := ih slicing.distinct
      (fun other there => slicing.inputs_eq ▸ inputs.2 other there) steps
    have found := more.sliceOf_eq (slicing.sliceOf_eq slice_eq)
    refine ⟨slicing.trans more, ?_, ?_⟩
    · rw [List.forall_mem_cons]
      refine ⟨⟨choice, found, fun slice same => ?_⟩, sliced.each⟩
      exact more.readsSlice (same ▸ slicing.sliceOf_eq slice_eq) (reads slice same)
    · rw [Bool.or_eq_true, sliced.applied_iff, anySliced_cons found]

/-- Operators that read their slices already keep them. -/
theorem partitionEach_eq_self {ids : List NodeId} {applied : Bool} (distinct : plan.tree.ids.Nodup)
    (sliced : AreSliced context candidates plan ids applied) :
    (partitionEach context candidates ids).result plan = (.ok applied, plan) := by
  induction ids generalizing applied with
  | nil =>
    have none : applied = false := by
      by_contra some
      obtain ⟨_, there, -⟩ := sliced.applied_iff.mp (Bool.not_eq_false _ ▸ some)
      cases there
    rw [none]
    rfl
  | cons id rest ih =>
    obtain ⟨⟨choice, found, reads⟩, each⟩ := List.forall_mem_cons.mp sliced.each
    have first : (partitionInput context candidates id).result plan =
        (.ok choice.isSome, plan) := by
      rw [result_partitionInput found]
      cases choice with
      | none => rfl
      | some slice =>
        rw [readSlice, Change.result_bind (setPartitionFormat_eq_self distinct (reads slice rfl))]
        rfl
    -- What is said of the others is what is true of them.
    obtain ⟨others, others_iff⟩ :
        ∃ others : Bool, others = true ↔ AnySliced context candidates plan rest := by
      classical
      exact ⟨decide _, decide_eq_true_iff⟩
    have whole : applied = (choice.isSome || others) := by
      rw [Bool.eq_iff_iff, sliced.applied_iff, Bool.or_eq_true, others_iff, anySliced_cons found]
    rw [partitionEach, Change.result_bind first,
      Change.result_bind (ih ⟨each, others_iff⟩), whole]
    rfl

/-! ## The first rule -/

omit [Quantity α] in
/-- Plans with the same operators have the same records of them. -/
theorem node?_of_operators {tree : PlanTree} (distinct : plan.tree.ids.Nodup)
    (there : tree ∈ plan.tree.operators) : plan.tree.node? tree.id = some tree.root :=
  PlanTree.node?_eq_some distinct (List.mem_map_of_mem (List.mem_filter.mp there).1)

theorem AreSliced.of_sameOperators {applied : Bool} (distinct : before.tree.ids.Nodup)
    (sliced : AreSliced context candidates before before.tree.inputs applied)
    (same : before.SameOperators after) (alsoDistinct : after.tree.ids.Nodup) :
    AreSliced context candidates after after.tree.inputs applied := by
  have slices : sliceOf context candidates after = sliceOf context candidates before := by
    funext id
    unfold sliceOf
    rw [same.readHop_eq]
  have inputs : after.tree.inputs = before.tree.inputs := by
    rw [PlanTree.inputs_eq_operators, same.operators_eq, PlanTree.inputs_eq_operators]
  refine ⟨?_, ?_⟩
  · rw [inputs, slices]
    intro id there
    obtain ⟨choice, found, reads⟩ := sliced.each id there
    refine ⟨choice, found, fun slice some => ?_⟩
    obtain ⟨record, hop⟩ := reads slice some
    rw [PlanTree.inputs_eq_operators] at there
    obtain ⟨tree, listed, rfl⟩ := List.mem_map.mp there
    have operator := (List.mem_filter.mp listed).1
    refine ⟨?_, same.readHop_eq tree.id ▸ hop⟩
    rw [node?_of_operators distinct operator] at record
    rwa [node?_of_operators alsoDistinct (same.operators_eq ▸ operator)]
  · rw [sliced.applied_iff, inputs, AnySliced, AnySliced, slices]

/-- How inputs are partitioned when some of them are read by slices, or none. -/
def partitionerFor (applied : Bool) : DataPartitioner := if applied then .remote else .none

/-- The inputs of the loop are partitioned as the first rule partitions them. -/
structure InputsSettled (context : PassContext α) (plan : Plan α)
    (candidates : List (String × PartitionFormat)) (applied : Bool) : Prop where
  candidates_eq : (plan.settings? plan.tree.id).map ParallelSettings.candidates = some candidates
  sliced : (candidates.any fun candidate => candidate.2 != .none) = true →
    AreSliced context candidates plan plan.tree.inputs applied
  unsliced : (candidates.any fun candidate => candidate.2 != .none) = false → applied = false
  decided : plan.decided .dataPartitioner plan.tree.id =
    (some (some (partitionerFor applied).name), some (partitionerFor applied))

omit [Quantity α] in
/-- Letting operators read slices does not change what the loop reads. -/
theorem preserves_matrices_setDataPartitioner (partitioner : DataPartitioner) :
    Change.Preserves (Plan.decided .matrices) (Plan.setDataPartitioner (α := α) id partitioner) :=
  Plan.preserves_decided ⟨fun _ => rfl, fun _ => rfl⟩ (fun _ => rfl) fun _ => rfl

/-- The first rule partitions the inputs, if there may be any, and then decides about the loop. -/
theorem of_runDataPartitioner (leads : (runDataPartitioner context).Leads plan () after) :
    ∃ settings applied mid, plan.settings plan.tree.id = .ok settings ∧
      ((settings.candidates.any fun candidate => candidate.2 != .none) = true ∧
          (partitionEach context settings.candidates plan.tree.inputs).result plan =
            (.ok applied, mid) ∨
        (settings.candidates.any fun candidate => candidate.2 != .none) = false ∧
          applied = false ∧ mid = plan) ∧
      (Plan.setDataPartitioner plan.tree.id (partitionerFor applied)).result mid =
        (.ok (), after) := by
  obtain ⟨settings, found, chain⟩ :=
    Pass.Leads.of_inspect_bind (fun plan => plan.settings _) (Pass.Leads.of_plan_bind leads)
  dsimp only at chain
  have finish (applied : Bool) {mid : Plan α}
      (rest : Pass.Leads (do
        Pass.onPlan (Plan.setDataPartitioner plan.tree.id (partitionerFor applied))
        dataPartitioner.report (partitionerFor applied).name : Pass α Unit) mid () after) :
      (Plan.setDataPartitioner plan.tree.id (partitionerFor applied)).result mid =
        (.ok (), after) := by
    obtain ⟨_, _, set, reported⟩ := Pass.Leads.of_onPlan_bind rest
    rwa [← reported.of_report] at set
  split at chain
  next any =>
    obtain ⟨applied, mid, partitioned, rest⟩ := Pass.Leads.of_onPlan_bind chain
    rw [partitionInputs_eq] at partitioned
    exact ⟨settings, applied, mid, found, .inl ⟨any, partitioned⟩, finish applied rest⟩
  next none =>
    have set := finish false (Pass.Leads.of_pure_bind chain)
    exact ⟨settings, false, plan, found, .inr ⟨Bool.not_eq_true _ ▸ none, rfl, rfl⟩, set⟩

/-- After the first rule the inputs are settled. -/
theorem of_dataPartitioner (formed : plan.IsFormed)
    (leads : (runDataPartitioner context).Leads plan () after) :
    ∃ candidates applied, InputsSettled context after candidates applied := by
  obtain ⟨settings, applied, mid, found, chosen, set⟩ := of_runDataPartitioner leads
  have layout := leads.related (respects_dataPartitioner context
    Plan.ignores_layout.given.setPartitionFormat
    (Plan.ignores_layout.given.setDataPartitioner PlanNode.given_setParam))
  have root_eq : after.tree.id = plan.tree.id := Plan.id_of_layout layout
  -- What the loop reads is the same before and after.
  have matrices := leads.related (respects_dataPartitioner context
    (fun _ _ => Plan.preserves_decided_setPartitionFormat fun _ => rfl)
    preserves_matrices_setDataPartitioner)
  have candidates_eq : (after.settings? after.tree.id).map ParallelSettings.candidates =
      some settings.candidates := by
    have shown := congrArg (fun shown => (shown plan.tree.id).2.map Prod.snd) matrices
    have read := Plan.settings_eq_ok_iff.mp found
    simp only [Plan.decided, Option.map_map, Function.comp_def, read, Option.map_some] at shown
    rw [root_eq, shown]
  have decided : after.decided .dataPartitioner after.tree.id =
      (some (some (partitionerFor applied).name), some (partitionerFor applied)) := by
    rw [root_eq]
    exact Plan.decided_setDataPartitioner set
  refine ⟨settings.candidates, applied, candidates_eq, ?_, ?_, decided⟩
  · intro any
    rcases chosen with ⟨-, partitioned⟩ | ⟨none, -⟩
    · obtain ⟨slicing, sliced⟩ :=
        of_partitionEach formed.numbered.distinct (fun _ there => there) partitioned
      have midFormed : mid.IsFormed := formed.of_layout
        ((respects_partitionEach Plan.ignores_layout.given.setPartitionFormat _).of_result
          partitioned)
      -- Deciding about the loop afterwards does not show in the operators.
      have keeps : Change.Respects (Plan.Keeps .matrices)
          (Plan.setDataPartitioner (α := α) plan.tree.id (partitionerFor applied)) :=
        Plan.keeps_setDataPartitioner (fun _ => rfl) fun _ => rfl
      have kept := keeps.of_result set midFormed
      have inputs_eq : mid.tree.inputs = plan.tree.inputs := slicing.inputs_eq
      exact AreSliced.of_sameOperators slicing.distinct (inputs_eq ▸ sliced) kept.sameOperators
        kept.formed.numbered.distinct
    · exact absurd any (Bool.eq_false_iff.mp none)
  · intro none
    rcases chosen with ⟨any, -⟩ | ⟨-, off, -⟩
    · exact absurd any (Bool.eq_false_iff.mp none)
    · exact off

/-- Inputs stay settled when the operators and the decisions about the loop stay. -/
theorem InputsSettled.of_sameOperators {applied : Bool}
    (settled : InputsSettled context before candidates applied)
    (distinct : before.tree.ids.Nodup) (same : before.SameOperators after)
    (alsoDistinct : after.tree.ids.Nodup)
    (shown : after.decided .slicing after.tree.id = before.decided .slicing before.tree.id) :
    InputsSettled context after candidates applied := by
  refine ⟨?_, fun any => ?_, settled.unsliced, ?_⟩
  · have candidates_eq := congrArg (fun shown => shown.2.map Prod.snd) shown
    simp only [Plan.decided, Option.map_map, Function.comp_def] at candidates_eq
    rw [candidates_eq, settled.candidates_eq]
  · exact (settled.sliced any).of_sameOperators distinct same alsoDistinct
  · rw [← settled.decided]
    exact Plan.decided_congr id Prod.fst shown

/-- Inputs stay settled when operators and loops stay. -/
theorem InputsSettled.of_keeps {applied : Bool}
    (settled : InputsSettled context before candidates applied) (formed : before.IsFormed)
    (kept : before.KeepsLoops .slicing after) (parallel : after.tree.root.kind = .parfor) :
    InputsSettled context after candidates applied :=
  settled.of_sameOperators formed.numbered.distinct kept.sameOperators
    kept.formed.numbered.distinct
    ((kept.decided_eq (Plan.isLoop_root parallel)).trans (by rw [kept.id_eq]))

/-- Inputs are settled in every context that knows the same matrices and has as much memory. -/
theorem InputsSettled.of_context {other : PassContext α} {applied : Bool}
    (settled : InputsSettled context plan candidates applied)
    (settings : other.settings = context.settings) (vars : other.vars = context.vars)
    (memory : other.localMemory = context.localMemory) :
    InputsSettled other plan candidates applied := by
  have same : sliceOf other candidates plan = sliceOf context candidates plan := by
    unfold sliceOf sliceFor
    rw [settings, vars, memory]
  refine ⟨settled.candidates_eq, fun any => ?_, settled.unsliced, settled.decided⟩
  obtain ⟨each, applied_iff⟩ := settled.sliced any
  refine ⟨same ▸ each, ?_⟩
  rw [applied_iff, AnySliced, AnySliced, same]

/-- The first rule leaves settled inputs alone. -/
theorem does_dataPartitioner {applied : Bool} (distinct : plan.tree.ids.Nodup)
    (settled : InputsSettled context plan candidates applied) :
    (runDataPartitioner context).Does plan () plan := by
  obtain ⟨settings, read, rfl⟩ := Option.map_eq_some_iff.mp settled.candidates_eq
  refine .bind (.readPlan plan) (.bind (.inspect (fun plan : Plan α => plan.settings _)
    (settings_eq_ok_iff.mpr read)) ?_)
  have decide : Pass.Does (do
      Pass.onPlan (Plan.setDataPartitioner plan.tree.id (partitionerFor applied))
      dataPartitioner.report (partitionerFor applied).name : Pass α Unit) plan () plan :=
    .bind (.onPlan (Plan.setDataPartitioner_eq_self distinct settled.decided)) (.say plan _ _)
  dsimp only
  split
  next any =>
    refine .bind (.onPlan ?_) decide
    rw [partitionInputs_eq]
    exact partitionEach_eq_self distinct (settled.sliced any)
  next none =>
    obtain rfl := settled.unsliced (Bool.eq_false_iff.mpr none)
    exact .bind (.pure plan false) decide

end PlanningRule

end ParallelLoop
