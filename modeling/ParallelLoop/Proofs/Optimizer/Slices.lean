/-
# Where inputs are partitioned

The first rule partitions the input of an operator exactly where it may: where the operator is a
distributed indexing job with nothing below it, the matrix that it reads is live and to be read in
slices, and one slice fits into the memory of the process (`MaySlice`). Of several entries for a
matrix the last one in slices counts. Such an operator is taken into the process and needs the
memory of the slice. Operators can be shared by nodes: these read the same matrix, so they get the
same slice, in whatever order the rule comes to them. Everything else stays as it is, except that
the loop records whether any input is partitioned.
-/

import ParallelLoop.Proofs.Optimizer.Leftovers

namespace ParallelLoop

variable {α : Type}

/-- The record of a node whose operator is to read a slice, if there is one. -/
def PlanNode.withSlice (node : PlanNode) : Option (PartitionFormat × α) → PlanNode
  | none => node
  | some (format, _) => node.sliced format

theorem PlanNode.id_withSlice (node : PlanNode) (slice : Option (PartitionFormat × α)) :
    (node.withSlice slice).id = node.id := by
  cases slice <;> rfl

namespace PlanningRule

variable [Quantity α] {context : PassContext α} {candidates : List (String × PartitionFormat)}
  {plan mid after : Plan α} {id : NodeId}

/-! ## Slices that are to be read -/

/-- The last of the entries for a matrix that is in slices has this format. -/
def IsLastFormat (candidates : List (String × PartitionFormat)) (matrix : String)
    (format : PartitionFormat) : Prop :=
  format ≠ .none ∧ ∃ before after, candidates = before ++ (matrix, format) :: after ∧
    ∀ other, (matrix, other) ∈ after → other = .none

theorem sliceFormat?_eq_some_iff {matrix : String} {format : PartitionFormat} :
    sliceFormat? candidates matrix = some format ↔ IsLastFormat candidates matrix format := by
  unfold sliceFormat? IsLastFormat
  -- The last entry that counts is the first one of the reversed list.
  rw [List.lookup_eq_some_iff]
  constructor
  · rintro ⟨later, earlier, split, others⟩
    rw [List.reverse_eq_iff, List.reverse_append, List.reverse_cons, List.append_assoc,
      List.singleton_append, List.filter_eq_append_iff] at split
    obtain ⟨before, rest, rfl, -, split⟩ := split
    obtain ⟨skipped, after, rfl, -, slices, kept⟩ := List.filter_eq_cons_iff.mp split
    refine ⟨by simpa using slices, before ++ skipped, after, by simp, fun other there => ?_⟩
    by_contra counts
    have listed : (matrix, other) ∈ later := by
      rw [← List.mem_reverse, ← kept]
      exact List.mem_filter.mpr ⟨there, by simpa using counts⟩
    simpa using others _ listed
  · rintro ⟨slices, before, after, rfl, others⟩
    refine ⟨(after.filter fun entry => entry.2 != .none).reverse,
      (before.filter fun entry => entry.2 != .none).reverse, ?_, ?_⟩
    · rw [List.filter_append, List.filter_cons_of_pos (by simpa using slices), List.reverse_append,
        List.reverse_cons, List.append_assoc, List.singleton_append]
    · rintro ⟨name, format⟩ listed
      obtain ⟨there, counts⟩ := List.mem_filter.mp (List.mem_reverse.mp listed)
      rw [bne_iff_ne]
      rintro rfl
      exact absurd (others _ there) (by simpa using counts)

/-- The tree is a distributed indexing job by which the loop reads a matrix in slices of this format,
and a slice, which is so large, fits into the memory of the process. -/
structure MaySlice (context : PassContext α) (candidates : List (String × PartitionFormat))
    (plan : Plan α) (tree : PlanTree) (format : PartitionFormat) (slice : α) : Prop where
  leaf : tree.isLeaf = true
  operator : tree.root.kind = .hop
  remote : tree.root.placement = .remote
  indexing : tree.root.param? .opString = some rightIndexing
  fits : ∃ hop name matrix, plan.readHop tree.id = .ok hop ∧ hop.inputName? 0 = some name ∧
    IsLastFormat candidates name format ∧ context.vars.get? name = some matrix ∧
    slice = sliceMemory matrix format context.settings.blockSize ∧ slice < context.localMemory

theorem sliceFor_eq_some_iff {hop : Hop α} {format : PartitionFormat} {slice : α} :
    sliceFor context candidates id hop = .ok (some (format, slice)) ↔
      ∃ name matrix, hop.inputName? 0 = some name ∧ IsLastFormat candidates name format ∧
        context.vars.get? name = some matrix ∧
        slice = sliceMemory matrix format context.settings.blockSize ∧
        slice < context.localMemory := by
  unfold sliceFor
  constructor
  · intro found
    split at found
    next => cases found
    next name name_eq =>
      split at found
      next => cases found
      next chosen format_eq =>
        split at found
        next => cases found
        next matrix live =>
          simp only [Except.ok.injEq, Option.ite_none_right_eq_some, Option.some.injEq,
            Prod.mk.injEq] at found
          obtain ⟨fits, rfl, rfl⟩ := found
          exact ⟨name, matrix, name_eq, sliceFormat?_eq_some_iff.mp format_eq, live, rfl, fits⟩
  · rintro ⟨name, matrix, name_eq, last, live, rfl, fits⟩
    simp [name_eq, sliceFormat?_eq_some_iff.mpr last, live, fits]

/-- As long as no operator reads slices yet, the inputs whose slices fit are the jobs that may read
slices. -/
theorem maySlice_iff {tree : PlanTree} {format : PartitionFormat} {slice : α}
    (distinct : plan.tree.ids.Nodup)
    (whole : ∀ node ∈ plan.tree.nodes, node.param? .dataPartitionFormat = none)
    (there : tree ∈ plan.tree.subtrees) :
    MaySlice context candidates plan tree format slice ↔
      tree.id ∈ plan.tree.inputs ∧
        sliceOf context candidates plan tree.id = .ok (some (format, slice)) := by
  have unsliced := whole tree.root (List.mem_map_of_mem there)
  constructor
  · rintro ⟨leaf, operator, remote, indexing, hop, name, matrix, read, fits⟩
    have input : isPartitionable tree = true := by
      simp [isPartitionable, isOperator, leaf, operator, remote, indexing]
    refine ⟨List.mem_map_of_mem (List.mem_filter.mpr ⟨there, input⟩), ?_⟩
    rw [sliceOf, read, Outcome.ok_bind, sliceFor_eq_some_iff]
    exact ⟨name, matrix, fits⟩
  · rintro ⟨input, found⟩
    obtain ⟨twin, listed, same⟩ := List.mem_map.mp input
    obtain ⟨inside, partitionable⟩ := List.mem_filter.mp listed
    obtain rfl : twin = tree := by
      have found := PlanTree.find?_eq_some distinct inside
      rw [same, PlanTree.find?_eq_some distinct there] at found
      exact (Option.some.inj found).symm
    simp only [isPartitionable, isOperator, unsliced, Option.isSome_none, Bool.or_false,
      Bool.and_eq_true, beq_iff_eq] at partitionable
    obtain ⟨⟨⟨leaf, operator⟩, indexing⟩, remote⟩ := partitionable
    obtain ⟨hop, read, chosen⟩ := Outcome.of_bind found
    obtain ⟨name, matrix, fits⟩ := sliceFor_eq_some_iff.mp chosen
    exact ⟨leaf, operator, remote, indexing, hop, name, matrix, read, fits⟩

/-! ## One operator after the other -/

omit [Quantity α] in
/-- A slice for one operator changes what no node reads. -/
theorem hopOf_setPartitionFormat {format : PartitionFormat} {slice : α}
    (done : (Plan.setPartitionFormat id format slice).result plan = (.ok (), after)) :
    after.hopOf = plan.hopOf := by
  obtain ⟨_, _, -, -, tree_eq, -⟩ := of_setPartitionFormat done
  funext other
  unfold Plan.hopOf
  rw [tree_eq, PlanTree.bind_node?_update (fun _ => by rfl) fun _ => by rfl]

theorem slices_setPartitionFormat {format : PartitionFormat} {slice : α}
    (done : (Plan.setPartitionFormat id format slice).result plan = (.ok (), after)) :
    sliceOf context candidates after = sliceOf context candidates plan := by
  obtain ⟨hopId, _, -, -, -, program_eq⟩ := of_setPartitionFormat done
  funext other
  unfold sliceOf Plan.readHop
  rw [hopOf_setPartitionFormat done, program_eq]
  cases plan.hopOf other with
  | error => rfl
  | ok own =>
    rw [Outcome.ok_bind, Outcome.ok_bind, Program.hop_modifyHop]
    split
    · cases plan.program.hop own <;> rfl
    · rfl

/-- Exactly the nodes that have slices got them, with the operators that they read, and nothing else
has changed. -/
structure HasSlices (slices : NodeId → Option (PartitionFormat × α)) (plan after : Plan α) :
    Prop where
  tree_eq : after.tree = plan.tree.mapNodes fun node => node.withSlice (slices node.id)
  blocks_eq : after.program.blocks = plan.program.blocks
  needs : ∀ {id choice hopId}, slices id = some choice → plan.hopOf id = .ok hopId →
    after.program.hop hopId = (plan.program.hop hopId).map fun hop =>
      { hop with memory := some choice.2 }
  others : ∀ {hopId}, (∀ id choice, slices id = some choice → plan.hopOf id ≠ .ok hopId) →
    after.program.hop hopId = plan.program.hop hopId

omit [Quantity α] in
theorem HasSlices.refl (plan : Plan α) : HasSlices (fun _ => none) plan plan where
  tree_eq := (PlanTree.mapNodes_eq_self fun _ _ => rfl).symm
  blocks_eq := rfl
  needs := nofun
  others _ := rfl

omit [Quantity α] in
/-- Slices for some nodes and then for others, where those that read the same operator get the same
slice. -/
theorem HasSlices.trans {first second : NodeId → Option (PartitionFormat × α)}
    (one : HasSlices first plan mid) (two : HasSlices second mid after)
    (same : mid.hopOf = plan.hopOf) (apart : ∀ id, (first id).isSome = true → second id = none)
    (agree : ∀ id other choice slice hopId, first id = some choice → second other = some slice →
      plan.hopOf id = .ok hopId → plan.hopOf other = .ok hopId → slice = choice) :
    HasSlices (fun id => (first id).or (second id)) plan after where
  tree_eq := by
    rw [two.tree_eq, one.tree_eq, PlanTree.mapNodes_mapNodes]
    congr 1
    funext node
    rw [Function.comp_apply, PlanNode.id_withSlice]
    cases found : first node.id with
    | none => rfl
    | some choice =>
      rw [apart node.id (by rw [found]; rfl)]
      rfl
  blocks_eq := two.blocks_eq.trans one.blocks_eq
  needs := by
    intro id choice hopId found bound
    have again (slice : α) : ((plan.program.hop hopId).map fun hop =>
        { hop with memory := some slice }).map (fun hop => { hop with memory := some choice.2 }) =
          (plan.program.hop hopId).map fun hop => { hop with memory := some choice.2 } := by
      cases plan.program.hop hopId <;> rfl
    cases head : first id with
    | some slice =>
      rw [head, Option.some_or, Option.some.injEq] at found
      subst found
      -- Another node that gets its slice later can only have the same.
      by_cases shared : ∃ other slice, second other = some slice ∧ plan.hopOf other = .ok hopId
      · obtain ⟨other, slice, later, bound'⟩ := shared
        obtain rfl := agree id other _ slice hopId head later bound bound'
        rw [two.needs later (same ▸ bound'), one.needs head bound, again]
      · rw [two.others fun other slice later bound' => shared ⟨other, slice, later, same ▸ bound'⟩,
          one.needs head bound]
    | none =>
      rw [head, Option.none_or] at found
      rw [two.needs found (same ▸ bound)]
      by_cases shared : ∃ other slice, first other = some slice ∧ plan.hopOf other = .ok hopId
      · obtain ⟨other, slice, earlier, bound'⟩ := shared
        rw [one.needs earlier bound', again]
      · rw [one.others fun other slice earlier bound' => shared ⟨other, slice, earlier, bound'⟩]
  others := by
    intro hopId unread
    rw [two.others, one.others]
    · exact fun id choice found => unread id choice (by rw [found, Option.some_or])
    · intro id choice found bound
      refine unread id choice ?_ (same ▸ bound)
      cases head : first id with
      | none => rw [Option.none_or, found]
      | some slice => rw [apart id (by rw [head]; rfl)] at found; cases found

/-- The slices that these operators are to read, as far as they fit. -/
def sliceAmong (context : PassContext α) (candidates : List (String × PartitionFormat))
    (plan : Plan α) (ids : List NodeId) (id : NodeId) : Option (PartitionFormat × α) :=
  if id ∈ ids then (sliceOf context candidates plan id).toOption.join else none

theorem sliceAmong_eq_some_iff {ids : List NodeId} {choice : PartitionFormat × α} :
    sliceAmong context candidates plan ids id = some choice ↔
      id ∈ ids ∧ sliceOf context candidates plan id = .ok (some choice) := by
  unfold sliceAmong
  rw [Option.ite_none_right_eq_some, Option.join_eq_some_iff]
  cases sliceOf context candidates plan id <;> simp [Except.toOption]

theorem sliceAmong_nil : sliceAmong context candidates plan [] = fun _ => none :=
  funext fun _ => if_neg List.not_mem_nil

theorem sliceAmong_cons {rest : List NodeId} {choice : Option (PartitionFormat × α)}
    (slice_eq : sliceOf context candidates plan id = .ok choice) (fresh : id ∉ rest) :
    sliceAmong context candidates plan (id :: rest) = fun other =>
      (if other = id then choice else none).or (sliceAmong context candidates plan rest other) := by
  funext other
  unfold sliceAmong
  by_cases here : other = id
  · subst here
    simp [fresh, slice_eq, Except.toOption]
  · simp [here]

/-- Nodes that read the same operator are to read the same slice. -/
theorem slice_eq_of_shared {other : NodeId} {choice slice : PartitionFormat × α} {hopId : HopId}
    (found : sliceOf context candidates plan id = .ok (some choice))
    (alsoFound : sliceOf context candidates plan other = .ok (some slice))
    (bound : plan.hopOf id = .ok hopId) (alsoBound : plan.hopOf other = .ok hopId) :
    slice = choice := by
  obtain ⟨hop, read, chosen⟩ := Outcome.of_bind found
  obtain ⟨twin, alsoRead, alsoChosen⟩ := Outcome.of_bind alsoFound
  have hops : twin = hop := by
    rw [Plan.readHop, alsoBound, ← bound] at alsoRead
    exact Except.ok.inj (alsoRead.symm.trans read)
  rw [hops] at alsoChosen
  exact Option.some.inj (Except.ok.inj ((sliceFor_congr rfl alsoChosen).symm.trans chosen))

/-- One operator gets its slice, if there is one for it. -/
theorem hasSlices_readSlice {choice : Option (PartitionFormat × α)} {applied : Bool}
    (distinct : plan.tree.ids.Nodup)
    (done : (readSlice id choice).result plan = (.ok applied, after)) :
    HasSlices (fun other => if other = id then choice else none) plan after ∧
      applied = choice.isSome ∧ after.hopOf = plan.hopOf ∧
      ∀ (context : PassContext α) candidates,
        sliceOf context candidates after = sliceOf context candidates plan := by
  cases choice with
  | none =>
    cases done
    simpa using HasSlices.refl plan
  | some choice =>
    obtain ⟨_, _, set, returned⟩ := Change.of_bind done
    cases returned
    refine ⟨?_, rfl, hopOf_setPartitionFormat set, fun _ _ => slices_setPartitionFormat set⟩
    obtain ⟨own, _, bound, -, tree_eq, program_eq⟩ := of_setPartitionFormat set
    refine
      { tree_eq := ?_
        blocks_eq := by rw [program_eq]; rfl
        needs := ?_
        others := ?_ }
    · rw [tree_eq, PlanTree.update_eq_mapNodes distinct]
      congr 1
      funext node
      split <;> rfl
    · intro other slice hopId found alsoBound
      obtain ⟨rfl, same⟩ := Option.ite_none_right_eq_some.mp found
      obtain rfl := Option.some.inj same
      obtain rfl := Except.ok.inj (bound.symm.trans alsoBound)
      rw [program_eq, Program.hop_modifyHop, if_pos rfl]
    · intro hopId unread
      have different : hopId ≠ own := by
        rintro rfl
        exact unread id choice (if_pos rfl) bound
      rw [program_eq, Program.hop_modifyHop, if_neg different]

/-- The operators get their slices one after the other. -/
theorem hasSlices_partitionEach {ids : List NodeId} {applied : Bool}
    (distinct : plan.tree.ids.Nodup) (once : ids.Nodup)
    (done : (partitionEach context candidates ids).result plan = (.ok applied, after)) :
    HasSlices (sliceAmong context candidates plan ids) plan after ∧
      (applied = true ↔ AnySliced context candidates plan ids) := by
  induction ids generalizing plan applied with
  | nil =>
    cases done
    rw [sliceAmong_nil]
    exact ⟨.refl after, by simp [AnySliced]⟩
  | cons id rest ih =>
    rw [List.nodup_cons] at once
    obtain ⟨first, mid, step, others⟩ := Change.of_bind done
    obtain ⟨later, last, steps, returned⟩ := Change.of_bind others
    cases returned
    obtain ⟨choice, slice_eq, read⟩ := of_partitionInput step
    obtain ⟨one, rfl, hops, slices⟩ := hasSlices_readSlice distinct read
    have stillDistinct : mid.tree.ids.Nodup := by
      rwa [one.tree_eq, PlanTree.ids_mapNodes fun node => node.id_withSlice _]
    obtain ⟨two, later_iff⟩ := ih stillDistinct once.2 steps
    -- The slice of the first input does not change which slices the others get.
    have rest_eq : sliceAmong context candidates mid rest =
        sliceAmong context candidates plan rest := by
      unfold sliceAmong
      rw [slices]
    rw [rest_eq] at two
    constructor
    · rw [sliceAmong_cons slice_eq once.1]
      refine one.trans two hops (fun other some => ?_) fun first other choice slice hopId => ?_
      · by_cases here : other = id
        · rw [sliceAmong, if_neg (here ▸ once.1)]
        · rw [if_neg here] at some
          cases some
      · intro found alsoFound
        obtain ⟨rfl, rfl⟩ := Option.ite_none_right_eq_some.mp found
        exact slice_eq_of_shared slice_eq (sliceAmong_eq_some_iff.mp alsoFound).2
    · have same : AnySliced context candidates mid rest ↔
          AnySliced context candidates plan rest := by
        unfold AnySliced
        rw [slices]
      rw [Bool.or_eq_true, later_iff, same, anySliced_cons slice_eq]

/-! ## The rule -/

/-- The inputs of a loop are partitioned exactly where they may: the records of the nodes are changed,
and nothing else in the tree, so that exactly the jobs that may read slices carry a format. They run
in the process, and their operators need the memory of a slice. All other nodes and operators and
all blocks stay, except for what the loop records about its inputs. -/
structure PartitionsInputs (context : PassContext α) (candidates : List (String × PartitionFormat))
    (plan after : Plan α) (change : PlanNode → PlanNode) : Prop where
  tree_eq : after.tree = plan.tree.mapNodes change
  carries_iff : ∀ tree ∈ plan.tree.subtrees,
    ((change tree.root).param? .dataPartitionFormat).isSome = true ↔
      ∃ format slice, MaySlice context candidates plan tree format slice
  sliced : ∀ tree ∈ plan.tree.subtrees, ∀ format slice,
    MaySlice context candidates plan tree format slice →
      tree.id ≠ plan.tree.id ∧ change tree.root = tree.root.sliced format ∧
      ∃ id hop, tree.root.hop = some id ∧ plan.program.hop id = .ok hop ∧
        after.program.hop id = .ok { hop with memory := some slice }
  nodes : ∀ tree ∈ plan.tree.subtrees, tree.id ≠ plan.tree.id →
    (∀ format slice, ¬ MaySlice context candidates plan tree format slice) →
      change tree.root = tree.root
  hops : ∀ id, (∀ tree ∈ plan.tree.subtrees, ∀ format slice,
    MaySlice context candidates plan tree format slice → tree.root.hop ≠ some id) →
      after.program.hop id = plan.program.hop id
  loop : ∃ partitioner blockId, (partitioner = .remote ↔ ∃ tree ∈ plan.tree.subtrees,
      ∃ format slice, MaySlice context candidates plan tree format slice) ∧
    change plan.tree.root = plan.tree.root.setParam .dataPartitioner partitioner.name ∧
    plan.tree.root.block = some blockId ∧
    after.program.blocks = (plan.program.modifyBlock blockId fun block =>
      { block with settings := block.settings.map fun settings =>
          { settings with dataPartitioner := partitioner } }).blocks

omit [Quantity α] in
theorem nodup_inputs {tree : PlanTree} (distinct : tree.ids.Nodup) : tree.inputs.Nodup := by
  rw [PlanTree.ids_eq_map_subtrees] at distinct
  exact (List.filter_sublist.map PlanTree.id).nodup distinct

/-- Without an entry in slices no slice is to be read. -/
theorem sliceAmong_of_whole {ids : List NodeId}
    (none : (candidates.any fun candidate => candidate.2 != .none) = false) :
    sliceAmong context candidates plan ids = fun _ => Option.none := by
  funext id
  by_contra some
  obtain ⟨⟨format, slice⟩, found⟩ := Option.ne_none_iff_exists'.mp some
  obtain ⟨hop, -, chosen⟩ := Outcome.of_bind (sliceAmong_eq_some_iff.mp found).2
  obtain ⟨name, -, -, ⟨slices, before, after, rfl, -⟩, -⟩ := sliceFor_eq_some_iff.mp chosen
  rw [List.any_eq_false] at none
  exact none (name, format) (by simp) (by simpa using slices)

/-- These are the slices of the jobs in the plan that may read slices. -/
structure AreSlicesOf (context : PassContext α) (candidates : List (String × PartitionFormat))
    (plan : Plan α) (slices : NodeId → Option (PartitionFormat × α)) : Prop where
  some_iff : ∀ tree ∈ plan.tree.subtrees, ∀ format slice,
    slices tree.id = some (format, slice) ↔ MaySlice context candidates plan tree format slice
  listed : ∀ id choice, slices id = some choice → ∃ tree ∈ plan.tree.subtrees, tree.id = id

theorem areSlicesOf_sliceAmong (distinct : plan.tree.ids.Nodup)
    (whole : ∀ node ∈ plan.tree.nodes, node.param? .dataPartitionFormat = none) :
    AreSlicesOf context candidates plan
      (sliceAmong context candidates plan plan.tree.inputs) where
  some_iff tree there format slice := by
    rw [sliceAmong_eq_some_iff, maySlice_iff distinct whole there]
  listed id choice found := by
    obtain ⟨tree, input, same⟩ := List.mem_map.mp (sliceAmong_eq_some_iff.mp found).1
    exact ⟨tree, (List.mem_filter.mp input).1, same⟩

theorem AreSlicesOf.eq_none {slices : NodeId → Option (PartitionFormat × α)} {tree : PlanTree}
    (are : AreSlicesOf context candidates plan slices) (there : tree ∈ plan.tree.subtrees)
    (never : ∀ format slice, ¬ MaySlice context candidates plan tree format slice) :
    slices tree.id = none := by
  by_contra some
  obtain ⟨⟨format, slice⟩, some⟩ := Option.ne_none_iff_exists'.mp some
  exact never format slice ((are.some_iff tree there format slice).mp some)

theorem AreSlicesOf.exists_iff {slices : NodeId → Option (PartitionFormat × α)}
    (are : AreSlicesOf context candidates plan slices) :
    (∃ id choice, slices id = some choice) ↔ ∃ tree ∈ plan.tree.subtrees,
      ∃ format slice, MaySlice context candidates plan tree format slice := by
  constructor
  · rintro ⟨id, ⟨format, slice⟩, some⟩
    obtain ⟨tree, there, rfl⟩ := are.listed id _ some
    exact ⟨tree, there, format, slice, (are.some_iff tree there format slice).mp some⟩
  · rintro ⟨tree, there, format, slice, may⟩
    exact ⟨tree.id, _, (are.some_iff tree there format slice).mpr may⟩

/-- The first rule gives all inputs their slices and then decides about the loop. -/
theorem hasSlices_of_runDataPartitioner (distinct : plan.tree.ids.Nodup)
    (whole : ∀ node ∈ plan.tree.nodes, node.param? .dataPartitionFormat = none)
    (leads : (runDataPartitioner context).Leads plan () after) :
    ∃ settings applied mid slices, plan.settings plan.tree.id = .ok settings ∧
      AreSlicesOf context settings.candidates plan slices ∧ HasSlices slices plan mid ∧
      (applied = true ↔ ∃ id choice, slices id = some choice) ∧
      (Plan.setDataPartitioner plan.tree.id (partitionerFor applied)).result mid =
        (.ok (), after) := by
  obtain ⟨settings, applied, mid, found, chosen, set⟩ := of_runDataPartitioner leads
  refine ⟨settings, applied, mid, _, found, areSlicesOf_sliceAmong distinct whole, ?_⟩
  rcases chosen with ⟨-, partitioned⟩ | ⟨none, rfl, rfl⟩
  · have once := nodup_inputs distinct
    obtain ⟨has, applied_iff⟩ := hasSlices_partitionEach distinct once partitioned
    refine ⟨has, ?_, set⟩
    simp only [applied_iff, AnySliced, sliceAmong_eq_some_iff]
    simp
  · rw [sliceAmong_of_whole none]
    exact ⟨.refl mid, by simp, set⟩

omit [Quantity α] in
/-- A record without a format carries one afterwards if there is a slice for it. -/
theorem isSome_format_withSlice {node : PlanNode}
    (unsliced : node.param? .dataPartitionFormat = none)
    (choice : Option (PartitionFormat × α)) :
    ((node.withSlice choice).param? .dataPartitionFormat).isSome = choice.isSome := by
  cases choice with
  | none => simp [PlanNode.withSlice, unsliced]
  | some choice => simp [PlanNode.withSlice, PlanNode.sliced, PlanNode.param?_setParam]

omit [Quantity α] in
theorem hopOf_eq_ok_iff {tree : PlanTree} {hopId : HopId} (distinct : plan.tree.ids.Nodup)
    (there : tree ∈ plan.tree.subtrees) :
    plan.hopOf tree.id = .ok hopId ↔ tree.root.hop = some hopId := by
  unfold Plan.hopOf
  rw [PlanTree.id, PlanTree.node?_eq_some distinct (List.mem_map_of_mem there), Option.bind_some]
  cases tree.root.hop <;> simp

omit [Quantity α] in
theorem partitionerFor_eq_remote_iff {applied : Bool} :
    partitionerFor applied = .remote ↔ applied = true := by
  cases applied <;> decide

/-- The loop itself is no operator that reads a slice. -/
theorem MaySlice.nested {tree : PlanTree} {format : PartitionFormat} {slice : α}
    (may : MaySlice context candidates plan tree format slice) (formed : plan.IsFormed)
    (there : tree ∈ plan.tree.subtrees) : tree.id ≠ plan.tree.id := by
  intro same
  have root_eq := PlanTree.eq_of_id_eq formed.numbered.distinct (List.mem_map_of_mem there)
    plan.tree.root_mem_nodes same
  obtain ⟨blockId, bound⟩ := Option.isSome_iff_exists.mp formed.top
  exact formed.kind_ne_hop plan.tree.root_mem_nodes bound (root_eq ▸ may.operator)

/-- The first rule partitions the inputs of a loop exactly where it may. -/
theorem partitionsInputs_dataPartitioner (formed : plan.IsFormed)
    (whole : ∀ node ∈ plan.tree.nodes, node.param? .dataPartitionFormat = none)
    (leads : (runDataPartitioner context).Leads plan () after) :
    ∃ settings change, plan.settings plan.tree.id = .ok settings ∧
      PartitionsInputs context settings.candidates plan after change := by
  have distinct := formed.numbered.distinct
  obtain ⟨settings, applied, mid, slices, found, are, has, applied_iff, set⟩ :=
    hasSlices_of_runDataPartitioner distinct whole leads
  obtain ⟨blockId, _, bound, -, tree_eq, program_eq⟩ := Plan.of_decision set
  -- The loop itself is no operator, so the record of its partitioner is all that changes in its
  -- node.
  have top : slices plan.tree.id = none :=
    are.eq_none plan.tree.self_mem_subtrees fun format slice may =>
      may.nested formed plan.tree.self_mem_subtrees rfl
  have distinctThen : mid.tree.ids.Nodup := by
    rwa [has.tree_eq, PlanTree.ids_mapNodes fun node => node.id_withSlice _]
  have root_eq : mid.tree.root = plan.tree.root := by
    rw [has.tree_eq, PlanTree.root_mapNodes, show slices plan.tree.root.id = none from top]
    rfl
  have id_eq : mid.tree.id = plan.tree.id := congrArg PlanNode.id root_eq
  refine ⟨settings, fun node => if node.id = plan.tree.id
    then node.setParam .dataPartitioner (partitionerFor applied).name
    else node.withSlice (slices node.id), found, ?_⟩
  refine
    { tree_eq := ?tree, carries_iff := ?carries, sliced := ?sliced, nodes := ?nodes
      hops := ?hops, loop := ?loop }
  case tree =>
    rw [tree_eq, PlanTree.update_eq_mapNodes distinctThen, has.tree_eq, PlanTree.mapNodes_mapNodes]
    congr 1
    funext node
    rw [Function.comp_apply, PlanNode.id_withSlice]
    split
    next here => rw [here, top]; rfl
    next => rfl
  case carries =>
    intro tree there
    have unsliced := whole tree.root (List.mem_map_of_mem there)
    by_cases here : tree.id = plan.tree.id
    · have none (format : PartitionFormat) (slice : α) :
          ¬ MaySlice context settings.candidates plan tree format slice :=
        fun may => may.nested formed there here
      simp only [if_pos (show tree.root.id = plan.tree.id from here), PlanNode.param?_setParam,
        unsliced, none]
      simp
    · simp only [if_neg (show tree.root.id ≠ plan.tree.id from here),
        isSome_format_withSlice unsliced, ← are.some_iff tree there]
      rw [Option.isSome_iff_exists, Prod.exists]
      rfl
  case sliced =>
    intro tree there format slice may
    have nested := may.nested formed there
    have some := (are.some_iff tree there format slice).mpr may
    obtain ⟨hop, -, -, read, -⟩ := may.fits
    obtain ⟨hopId, own, held⟩ := Outcome.of_bind read
    refine ⟨nested, ?_, hopId, hop, (hopOf_eq_ok_iff distinct there).mp own, held, ?_⟩
    · rw [if_neg (show tree.root.id ≠ plan.tree.id from nested),
        show slices tree.root.id = _ from some]
      rfl
    · have needs := has.needs some own
      rw [held] at needs
      rw [program_eq]
      exact needs
  case nodes =>
    intro tree there nested never
    rw [if_neg (show tree.root.id ≠ plan.tree.id from nested),
      show slices tree.root.id = none from are.eq_none there never]
    rfl
  case hops =>
    intro hopId unread
    rw [program_eq]
    -- Only operators that may read a slice had their memory changed.
    refine has.others fun id choice some own => ?_
    obtain ⟨tree, there, rfl⟩ := are.listed id choice some
    have may := (are.some_iff tree there choice.1 choice.2).mp some
    exact unread tree there _ _ may ((hopOf_eq_ok_iff distinct there).mp own)
  case loop =>
    refine ⟨partitionerFor applied, blockId, ?_, if_pos rfl, ?_, ?_⟩
    · rw [partitionerFor_eq_remote_iff, applied_iff, are.exists_iff]
    · rw [← root_eq]
      exact Plan.blockOf_root distinctThen (id_eq ▸ bound)
    · rw [program_eq, Program.modifyBlock, Program.modifyBlock, has.blocks_eq]

end PlanningRule

namespace Optimizer

/-- A loop in which two nodes share the operator that reads one matrix, and a third one reads
another. The first matrix may be read in columns, or in rows, as a later entry has it. -/
def sharedReads : Plan Rat where
  tree :=
    .node { id := ⟨0⟩, kind := .parfor, placement := .inProcess, block := some ⟨0⟩
            parameters := { numIterations := some "10" } }
      [.node { id := ⟨1⟩, kind := .hop, placement := .remote, hop := some ⟨0⟩
               parameters := { opString := some rightIndexing } } [],
       .node { id := ⟨2⟩, kind := .hop, placement := .remote, hop := some ⟨0⟩
               parameters := { opString := some rightIndexing } } [],
       .node { id := ⟨3⟩, kind := .hop, placement := .remote, hop := some ⟨1⟩
               parameters := { opString := some rightIndexing } } []]
  program :=
    { blocks := #[
        .parallel { var := "i", first := .const 1, last := .const 10, step := 1 }
          { ParallelSettings.undecided with
            candidates := [("X", .columnWise), ("Y", .columnWise), ("X", .rowWise), ("X", .none)] }
          []]
      hops := #[
        { op := rightIndexing
          inputs := [⟨"X", true⟩, ⟨"i", true⟩, ⟨"i", true⟩, ⟨"1", false⟩, ⟨"5", false⟩]
          memory := none },
        { op := rightIndexing
          inputs := [⟨"Y", true⟩, ⟨"1", false⟩, ⟨"10", false⟩, ⟨"i", true⟩, ⟨"i", true⟩]
          memory := some 800 }] }

/-- A row of the first matrix needs forty, and a column of the second eighty. There is memory for
less than that. -/
def sharedContext : PassContext Rat :=
  .ofTree (ofMachine 1).settings
    (.ofList [("X", { rows := 10, columns := 5, nonzeros := 50, format := .binaryBlock }),
      ("Y", { rows := 10, columns := 10, nonzeros := 9, format := .binaryBlock })])
    (.localOnly 1 60) sharedReads.tree 10 false

/-- The nodes that share an operator read rows, and the third one stays a distributed job. -/
theorem partitionsInputs_sharedReads :
    ∃ change after, sharedReads.IsFormed ∧
      (∀ node ∈ sharedReads.tree.nodes, node.param? .dataPartitionFormat = none) ∧
      (PlanningRule.runDataPartitioner sharedContext).Leads sharedReads () after ∧
      PlanningRule.PartitionsInputs sharedContext
        [("X", .columnWise), ("Y", .columnWise), ("X", .rowWise), ("X", .none)]
        sharedReads after change ∧
      (after.tree.nodes.map fun node => (node.placement, node.param? .dataPartitionFormat)) =
        [(.inProcess, none), (.inProcess, some "ROW_WISE"), (.inProcess, some "ROW_WISE"),
          (.remote, none)] ∧
      after.program.hops.toList.map Hop.memory = [some 40, some 800] := by
  have formed : sharedReads.IsFormed :=
    { numbered := ⟨by decide, by decide⟩, top := rfl, kinds := by decide, operators := by decide }
  have whole : ∀ node ∈ sharedReads.tree.nodes, node.param? .dataPartitionFormat = none := by
    decide
  have leads : (PlanningRule.runDataPartitioner sharedContext).Leads sharedReads ()
      ((PlanningRule.runDataPartitioner sharedContext).result
        { plan := sharedReads, log := [] }).2.plan :=
    ⟨[], _, Prod.ext (by decide +kernel) rfl⟩
  obtain ⟨settings, change, read, partitions⟩ :=
    PlanningRule.partitionsInputs_dataPartitioner formed whole leads
  obtain rfl := Except.ok.inj read
  exact ⟨change, _, formed, whole, leads, partitions, by decide +kernel, by decide +kernel⟩

end Optimizer

end ParallelLoop
