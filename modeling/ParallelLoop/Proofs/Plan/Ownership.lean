/-
# Loops with blocks of their own

When no loop shares its block with another node, what is decided about one loop does not
show in another one. Decisions, demotions and splits keep it so: they change what a node stands
for only by giving it a block that no other node had.

The workers of a loop are recorded in its node and in its settings. Both sides are in step
once every loop was given workers, and they stay so whatever is decided afterwards.
-/

import ParallelLoop.Proofs.Plan.Operators

namespace ParallelLoop.Plan

open Change (IsAtomic Maintains Respects)

variable {α β γ : Type} {aspect : Aspect α β γ} {plan before after : Plan α} {id other : NodeId}
  {changeRecord : PlanNode → PlanNode} {changeSettings : ParallelSettings α → ParallelSettings α}

/-- No loop shares its block with another node. -/
def OwnsBlocks (plan : Plan α) : Prop :=
  ∀ loop ∈ plan.tree.nodes, loop.kind = .parfor → ∀ node ∈ plan.tree.nodes, ∀ id,
    loop.block = some id → node.block = some id → loop.id = node.id

/-- Where nodes stand for different blocks, no loop shares its block. -/
theorem ownsBlocks_of_injective (injective : ∀ first ∈ plan.tree.nodes,
    ∀ second ∈ plan.tree.nodes, ∀ id, first.block = some id → second.block = some id →
      first.id = second.id) : plan.OwnsBlocks :=
  fun loop there _ => injective loop there

/-- A loop with no loop below it does not share its block, since this is the block of a loop. -/
theorem IsFormed.ownsBlocks (formed : plan.IsFormed)
    (flat : plan.tree.hasNestedParallelism = false) : plan.OwnsBlocks := by
  have isRoot {node : PlanNode} (there : node ∈ plan.tree.nodes) (parallel : node.kind = .parfor) :
      node.id = plan.tree.id := by
    by_contra nested
    exact kind_ne_parfor flat there nested parallel
  intro loop there parallel node alsoThere id bound alsoBound
  have kinds := (formed.kinds node alsoThere id alsoBound).symm.trans
    (formed.kinds loop there id bound)
  rw [isRoot there parallel, isRoot alsoThere ((Option.some.inj kinds).trans parallel)]

theorem OwnsBlocks.of_layout (owns : before.OwnsBlocks) (same : after.layout = before.layout) :
    after.OwnsBlocks := by
  intro loop there parallel node alsoThere blockId bound alsoBound
  obtain ⟨loopTwin, inside, id_eq, kind_eq, block_eq⟩ := exists_node_of_layout same there
  obtain ⟨nodeTwin, alsoInside, alsoId_eq, -, alsoBlock_eq⟩ := exists_node_of_layout same alsoThere
  rw [id_eq, alsoId_eq]
  exact owns loopTwin inside (kind_eq ▸ parallel) nodeTwin alsoInside blockId (block_eq ▸ bound)
    (alsoBlock_eq ▸ alsoBound)

/-- The block of a demoted loop is a new one. -/
theorem OwnsBlocks.demote (owns : plan.OwnsBlocks) (formed : plan.IsFormed)
    (done : (demote id).result plan = (.ok (), after)) : after.OwnsBlocks := by
  obtain ⟨-, -, -, -, -, -, tree_eq, -⟩ := of_demote done
  -- A node is the demoted one, which has a new block, or it was there before.
  have origin {node : PlanNode} (there : node ∈ after.tree.nodes) :
      node.kind = .for ∧ node.block = some plan.program.nextBlock ∨ node ∈ plan.tree.nodes := by
    rw [tree_eq, PlanTree.update_eq_mapNodes formed.numbered.distinct,
      PlanTree.nodes_mapNodes] at there
    obtain ⟨twin, inside, rfl⟩ := List.mem_map.mp there
    by_cases here : twin.id = id
    · rw [if_pos here]
      exact .inl ⟨rfl, rfl⟩
    · rw [if_neg here]
      exact .inr inside
  intro loop there parallel node alsoThere blockId bound alsoBound
  rcases origin there with ⟨sequential, -⟩ | inside
  · cases sequential.symm.trans parallel
  · rcases origin alsoThere with ⟨-, next⟩ | alsoInside
    · have fresh := Option.some.inj (alsoBound.symm.trans next)
      exact absurd fresh (formed.block_ne_next inside bound)
    · exact owns loop inside parallel node alsoInside blockId bound alsoBound

/-- The block of the inner loop of a split is a new one, too. -/
theorem Split.ownsBlocks {root outer inner : PlanNode} {children : List PlanTree} {top : BlockId}
    (split : Split plan after root outer inner children top) (formed : plan.IsFormed)
    (owns : plan.OwnsBlocks) : after.OwnsBlocks := by
  intro loop there parallel node alsoThere id bound alsoBound
  rcases split.origin_of_mem there with rfl | ⟨twin, inside, id_eq, kind_eq, block_eq⟩
  · obtain rfl := Option.some.inj (split.inner_block.symm.trans bound)
    rcases split.origin_of_mem alsoThere with rfl | ⟨other, alsoInside, -, -, other_eq⟩
    · rfl
    · exact absurd rfl (formed.block_ne_next alsoInside (other_eq ▸ alsoBound))
  · rw [block_eq] at bound
    rcases split.origin_of_mem alsoThere with rfl | ⟨other, alsoInside, other_id, -, other_eq⟩
    · obtain rfl := Option.some.inj (split.inner_block.symm.trans alsoBound)
      exact absurd rfl (formed.block_ne_next inside bound)
    · rw [id_eq, other_id]
      exact owns twin inside (kind_eq ▸ parallel) other alsoInside id bound
        (other_eq ▸ alsoBound)

/-! ## Decisions about other loops -/

/-- Changing the settings of one loop does not change those of another one. -/
theorem settings?_of_ne {change : ParallelSettings α → ParallelSettings α}
    (distinct : plan.tree.ids.Nodup) (owns : plan.OwnsBlocks) (loop : plan.IsLoop other)
    (different : other ≠ id)
    (done : (updateSettings id change).result plan = (.ok (), after)) :
    after.settings? other = plan.settings? other := by
  obtain ⟨settings, -, named⟩ := Change.of_inspect_bind done
  obtain ⟨blockId, bound, changed⟩ := Change.of_inspect_bind named
  cases changed
  rw [settings?_modifyBlock, if_neg]
  intro alsoBound
  obtain ⟨node, there, rfl, block_eq⟩ := exists_node_of_blockOf bound
  obtain ⟨twin, inside, rfl, parallel⟩ := loop
  rw [PlanTree.node?_eq_some distinct inside, Option.bind_some] at alsoBound
  exact different (owns twin inside parallel node there blockId alsoBound block_eq)

theorem node?_of_ne (keeps : KeepsNode changeRecord) (different : other ≠ id)
    (done : (do updateSettings id changeSettings; updateNode id changeRecord).result plan =
      (.ok (), after)) : after.tree.node? other = plan.tree.node? other := by
  obtain ⟨_, mid, first, second⟩ := Change.of_bind done
  obtain ⟨_, _, -, -, tree_eq, -⟩ := of_updateSettings first
  cases second
  rw [PlanTree.node?_update keeps.id, if_neg different, tree_eq]

/-- What is decided about one loop does not show in another one. -/
theorem decided_of_ne (distinct : plan.tree.ids.Nodup)
    (owns : plan.OwnsBlocks) (loop : plan.IsLoop other) (keeps : KeepsNode changeRecord)
    (different : other ≠ id)
    (done : (do updateSettings id changeSettings; updateNode id changeRecord).result plan =
      (.ok (), after)) : after.decided aspect other = plan.decided aspect other := by
  have record := node?_of_ne keeps different done
  obtain ⟨_, mid, first, second⟩ := Change.of_bind done
  have settings_eq := settings?_of_ne distinct owns loop different first
  cases second
  rw [decided, settings?_updateNode keeps, settings_eq, record]
  rfl

/-- Changing settings that are not there changes nothing. -/
theorem isAtomic_updateSettings : IsAtomic (updateSettings id changeSettings) :=
  .inspect_bind _ fun _ => .inspect_bind _ fun _ => .modify _

/-- A decision looks everything up before it changes anything. -/
theorem isAtomic_decision :
    IsAtomic (do updateSettings id changeSettings; updateNode id changeRecord) :=
  isAtomic_updateSettings.bind_total fun _ _ => rfl

/-! ## Workers in step -/

/-- The workers of the loops are the same on both sides. -/
def InStep (plan : Plan α) : Prop :=
  ∀ node ∈ plan.tree.nodes, node.kind = .parfor →
    ∃ settings, plan.settings? node.id = some settings ∧ settings.workers = node.workers

theorem inStep_iff (distinct : plan.tree.ids.Nodup) :
    plan.InStep ↔ ∀ id, plan.IsLoop id →
      ∃ workers, plan.decided .workers id = (some workers, some workers) := by
  constructor
  · rintro inStep _ ⟨node, there, rfl, loop⟩
    obtain ⟨settings, found, same⟩ := inStep node there loop
    refine ⟨node.workers, ?_⟩
    rw [decided, PlanTree.node?_eq_some distinct there, found]
    simp [same]
  · intro decided node there loop
    obtain ⟨workers, held⟩ := decided node.id ⟨node, there, rfl, loop⟩
    obtain ⟨twin, settings, found, read, workers_eq, same⟩ := of_decided held
    rw [PlanTree.node?_eq_some distinct there, Option.some.injEq] at found
    exact ⟨settings, settings_eq_ok_iff.mp read, found ▸ same.trans workers_eq.symm⟩

/-- A formed plan whose loops have blocks of their own, with its workers in step. -/
structure IsSteady (plan : Plan α) : Prop where
  formed : plan.IsFormed
  owns : plan.OwnsBlocks
  inStep : plan.InStep

/-- Loops that stay and keep their workers stay in step. -/
theorem KeepsLoops.inStep (kept : before.KeepsLoops .workers after) (formed : before.IsFormed)
    (inStep : before.InStep) : after.InStep := by
  rw [inStep_iff kept.formed.numbered.distinct]
  rw [inStep_iff formed.numbered.distinct] at inStep
  intro id loop
  rw [kept.decided_eq loop]
  exact inStep id (kept.isLoop loop)

/-- The workers after a loop was given some. -/
theorem decided_workers_setWorkers {workers : Nat} (distinct : plan.tree.ids.Nodup)
    (owns : plan.OwnsBlocks) (loop : plan.IsLoop other)
    (done : (setWorkers id workers).result plan = (.ok (), after)) :
    after.decided .workers other =
      if other = id then (some workers, some workers) else plan.decided .workers other := by
  split
  next here => rw [here, decided_setWorkers done]
  next different =>
    have keeps : KeepsNode fun node => { node with workers } := ⟨fun _ => rfl, fun _ => rfl⟩
    exact decided_of_ne distinct owns loop keeps different done

/-- Giving a loop workers keeps all workers in step. -/
theorem steady_setWorkers {workers : Nat} :
    Respects (Maintains IsSteady) (setWorkers (α := α) id workers) := by
  intro plan steady
  rcases step : (setWorkers id workers).result plan with ⟨outcome, after⟩
  cases outcome with
  | error cause =>
    have unchanged : after = plan := isAtomic_decision _ _ _ step
    exact unchanged ▸ steady
  | ok _ =>
    have layout : after.layout = plan.layout := (ignores_layout.given.setWorkers workers).eq step
    have formed := steady.formed.of_layout layout
    have inStep := steady.inStep
    refine ⟨formed, steady.owns.of_layout layout, ?_⟩
    rw [inStep_iff formed.numbered.distinct]
    rw [inStep_iff steady.formed.numbered.distinct] at inStep
    intro other loop
    have before : plan.IsLoop other := isLoop_of_layout layout loop
    rw [decided_workers_setWorkers steady.formed.numbered.distinct steady.owns before step]
    split
    next => exact ⟨workers, rfl⟩
    next => exact inStep other before

/-! ## Serial loops -/

/-- The loops have one worker each, on both sides. -/
def IsSerial (plan : Plan α) : Prop :=
  ∀ id, plan.IsLoop id → plan.decided .workers id = (some 1, some 1)

theorem IsSerial.inStep (serial : plan.IsSerial) (distinct : plan.tree.ids.Nodup) : plan.InStep :=
  (inStep_iff distinct).mpr fun id loop => ⟨1, serial id loop⟩

theorem IsSerial.fanOut_eq (serial : plan.IsSerial) (distinct : plan.tree.ids.Nodup)
    {node : PlanNode} (there : node ∈ plan.tree.nodes) : node.fanOut = 1 := by
  unfold PlanNode.fanOut
  split
  next loop =>
    obtain ⟨twin, _, found, -, workers_eq, -⟩ :=
      of_decided (serial node.id ⟨node, there, rfl, loop⟩)
    rw [PlanTree.node?_eq_some distinct there, Option.some.injEq] at found
    simp [found, show twin.workers = 1 from workers_eq]
  next => rfl

/-- Loops that are neither changed nor added stay serial. -/
theorem IsSerial.of_same (serial : before.IsSerial)
    (isLoop : ∀ {id}, after.IsLoop id → before.IsLoop id)
    (same : ∀ id, after.IsLoop id → after.decided .workers id = before.decided .workers id) :
    after.IsSerial := by
  intro id loop
  rw [same id loop]
  exact serial id (isLoop loop)

/-- The workers after some loops were made serial. -/
theorem decided_workers_serializeNodes {nodes : List PlanNode} (distinct : plan.tree.ids.Nodup)
    (owns : plan.OwnsBlocks) (isLoop : plan.IsLoop id)
    (done : (serializeNodes nodes).result plan = (.ok (), after)) :
    after.decided .workers id =
      if ∃ node ∈ nodes, node.id = id ∧ node.kind = .parfor then (some 1, some 1)
      else plan.decided .workers id := by
  induction nodes generalizing plan with
  | nil =>
    cases done
    simp
  | cons node rest ih =>
    unfold serializeNodes at done
    split at done
    next loop =>
      obtain ⟨_, mid, first, others⟩ := Change.of_bind done
      have layout : mid.layout = plan.layout := (ignores_layout.given.setWorkers 1).eq first
      -- What the later nodes leave alone is as the first one has left it.
      rw [ih (nodup_of_layout distinct layout) (owns.of_layout layout)
        (isLoop_of_layout layout.symm isLoop) others,
        decided_workers_setWorkers distinct owns isLoop first]
      by_cases here : node.id = id
      · simp [here, loop]
      · simp [here, Ne.symm here]
    next other =>
      rw [ih distinct owns isLoop done]
      simp [other]

/-- Making the loops of a tree serial. -/
theorem result_serialize {tree : PlanTree} (found : plan.tree.find? id = some tree) :
    (serialize id).result plan = (serializeNodes tree.nodes).result plan := by
  rw [serialize, Change.result_bind (Change.result_get plan), found]

/-- Making the loops of a plan serial. -/
theorem isSerial_serialize (distinct : plan.tree.ids.Nodup) (owns : plan.OwnsBlocks)
    (done : (serialize plan.tree.id).result plan = (.ok (), after)) : after.IsSerial := by
  have layout : after.layout = plan.layout := ignores_layout.given.serialize.eq done
  rw [result_serialize (PlanTree.find?_eq_some distinct (PlanTree.self_mem_subtrees _))] at done
  intro id loop
  have before : plan.IsLoop id := isLoop_of_layout layout loop
  rw [decided_workers_serializeNodes distinct owns before done]
  exact if_pos before

end ParallelLoop.Plan
