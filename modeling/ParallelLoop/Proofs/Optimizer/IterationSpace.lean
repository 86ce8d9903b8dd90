/-
# The iterations of an optimized loop

A pass rewrites the bounds of a loop, moves its body and replaces loops by others, but a
program that is run after it visits the same blocks in the same order, with the same values
of its loop variables. Most rules do not touch what matters of a program when it is run; a
split and a demotion do, and each of them keeps what a block shows.
-/

import ParallelLoop.Proofs.Optimizer.Demotion
import ParallelLoop.Proofs.Plan.ChunkedValues
import ParallelLoop.Proofs.Plan.TripCount

namespace ParallelLoop

variable {α : Type}

namespace Plan

variable {plan after : Plan α} {top : BlockId} {bounds : LoopBounds} {count : Nat}

theorem Avoids.of_outline {hidden : String}
    (same : after.program.outline = plan.program.outline) (avoids : plan.program.Avoids hidden) :
    after.program.Avoids hidden := by
  intro id block bounds found bounds_eq
  obtain ⟨held, there, outline_eq⟩ := Program.exists_block_of_outline same found
  have same_bounds := (congrArg (fun outline => outline.2.1) outline_eq).trans bounds_eq
  exact avoids id held bounds there same_bounds

theorem HasConstantBounds.of_layout (layout : after.layout = plan.layout)
    (outline : plan.program.outline = after.program.outline)
    (constant : plan.HasConstantBounds top bounds count) :
    after.HasConstantBounds top bounds count where
  root := (root_block_of_layout layout).trans constant.root
  block := by
    obtain ⟨block, found, bounds_eq⟩ := constant.block
    obtain ⟨held, there, outline_eq⟩ := Program.exists_block_of_outline outline found
    exact ⟨held, there, (congrArg (fun outline => outline.2.1) outline_eq).trans bounds_eq⟩
  constant := constant.constant
  counted := constant.counted

/-- After a split the lists name blocks that are there. -/
theorem isClosed_splitLoop {chunk : Nat} {outerVar : String} {inner : NodeId}
    (distinct : plan.tree.ids.Nodup) (closed : plan.program.IsClosed)
    (done : (splitLoop plan.tree.id chunk outerVar).result plan = (.ok inner, after)) :
    after.program.IsClosed := by
  obtain ⟨_, _, _, _, _, split⟩ := exists_split distinct done
  obtain ⟨_, _, _, _, _, _, _, -, -, -, -, -, -, -, -, program_eq⟩ := of_splitLoop done
  intro above below lists
  rw [program_eq, Program.modifyBlock, Array.size_modify, Program.addBlock, Array.size_push]
  rcases split.lists_cases lists with ⟨-, rfl⟩ | ⟨origin, before, -⟩
  · exact Nat.lt_succ_self _
  · exact Nat.lt_succ_of_lt (closed origin below before)

/-- Running the loop shows the same after it was split. -/
theorem shows_splitLoop {chunk : Nat} {outerVar : String} {inner : NodeId} (formed : plan.IsFormed)
    (parallel : plan.tree.root.kind = .parfor) (closed : plan.program.IsClosed)
    (constant : plan.HasConstantBounds top bounds count) (avoids : plan.program.Avoids outerVar)
    (fits : Word.InSigned (max chunk 1 * bounds.step))
    (done : (splitLoop plan.tree.id chunk outerVar).result plan = (.ok inner, after))
    (scope : Scope) (trace : List Visit) (ending : Ending) :
    after.program.Shows outerVar top scope trace ending ↔
      plan.program.Shows outerVar top scope trace ending := by
  obtain ⟨topId, block, _, _, held, settings, steps, found, block_eq, -, -, held_eq, -, steps_eq,
    -, program_eq⟩ := of_splitLoop done
  -- What the split read of the loop is what is known of it.
  obtain rfl := Option.some.inj
    (constant.root.symm.trans (blockOf_root formed.numbered.distinct found))
  obtain ⟨twin, twin_eq, bounds_eq⟩ := constant.block
  obtain rfl := Except.ok.inj (twin_eq.symm.trans block_eq)
  obtain rfl := Option.some.inj (bounds_eq.symm.trans held_eq)
  obtain ⟨first, last, first_eq, last_eq, first_word, last_word⟩ := constant.constant
  have positive := constant.step_pos
  have loopKind : twin.kind ≠ .generic := by
    have kind : plan.program.kind? top = some .parfor :=
      formed.kind?_eq (PlanTree.root_mem_nodes plan.tree) constant.root parallel
    rw [Program.kind?_of_block block_eq, Option.some.injEq] at kind
    rw [kind]
    decide
  have different := formed.block_ne_next (PlanTree.root_mem_nodes plan.tree) constant.root
  have blocks (id : BlockId) := congrArg (fun program => program.block id) program_eq
  simp only [Program.block_addBlock_modifyBlock block_eq] at blocks
  -- With these blocks the two programs are those of a loop that is run in chunks.
  let loop : ChunkedLoop :=
    { top, inner := plan.program.nextBlock, bounds, body := twin.children, first, last
      chunk := max chunk 1, hidden := outerVar }
  have loopSteps : steps = loop.steps := ChunkSteps.of_ofChunk fits steps_eq
  rw [loopSteps] at blocks
  have split : loop.IsSplit plan.program after.program :=
    { first_eq, last_eq, first_word, last_word, different, avoids
      step_pos := positive
      chunk_pos := Nat.le_max_right ..
      whole := ⟨twin, block_eq, loopKind, bounds_eq, rfl⟩
      outer := ⟨_, (blocks top).trans (if_pos rfl), loopKind, rfl, rfl⟩
      inner := ⟨_, (blocks _).trans ((if_neg different.symm).trans (if_pos rfl)), nofun, rfl, rfl⟩
      others := fun id other fresh => (blocks id).trans ((if_neg other).trans (if_neg fresh))
      fresh := by
        intro id block there listed
        exact closed.unlisted id (by rwa [Program.Lists, Program.listed_of_block there]) }
  exact split.shows_iff different

/-- Running a block shows the same after loops were demoted. -/
theorem runs_demoteEach_iff {ids : List NodeId} (formed : plan.IsFormed)
    (closed : plan.program.IsClosed) (inside : top.index < plan.program.blocks.size)
    (parallel : ∀ node ∈ plan.tree.nodes, node.id ∈ ids → node.kind = .parfor)
    (apart : ids.Nodup) (done : (PlanningRule.demoteEach ids).result plan = (.ok (), after))
    (scope : Scope) (trace : List Visit) (ending : Ending) :
    after.program.Runs [.block top scope] trace ending ↔
      plan.program.Runs [.block top scope] trace ending := by
  induction ids generalizing plan with
  | nil =>
    cases done
    rfl
  | cons id rest ih =>
    obtain ⟨_, mid, first, others⟩ := Change.of_bind done
    obtain ⟨old, block, bounds, found, held, bounds_eq, tree_eq, program_eq⟩ := of_demote first
    obtain ⟨node, there, rfl, block_eq⟩ := exists_node_of_blockOf found
    have loop : block.kind ≠ .generic := by
      have kind : plan.program.kind? old = some .parfor :=
        formed.kind?_eq there block_eq (parallel node there (List.mem_cons_self ..))
      rw [Program.kind?_of_block held, Option.some.injEq] at kind
      rw [kind]
      decide
    have notNext : top ≠ plan.program.nextBlock := by
      rintro rfl
      exact Nat.lt_irrefl _ inside
    rw [List.nodup_cons] at apart
    -- The loops that are still to be demoted are as they were.
    have still : ∀ other ∈ mid.tree.nodes, other.id ∈ rest → other.kind = .parfor := by
      rw [tree_eq, PlanTree.update_eq_mapNodes formed.numbered.distinct, PlanTree.nodes_mapNodes]
      intro other member listed
      obtain ⟨twin, before, rfl⟩ := List.mem_map.mp member
      split at listed
      next here => exact absurd (here ▸ listed) apart.1
      next other =>
        rw [if_neg other]
        exact parallel twin before (List.mem_cons_of_mem _ listed)
    have midClosed : mid.program.IsClosed := program_eq ▸ closed.replaceBlock held
    have midInside : top.index < mid.program.blocks.size := by
      rw [program_eq, Program.size_replaceBlock]
      exact Nat.lt_succ_of_lt inside
    rw [ih (formed.demote first) midClosed midInside still apart.2 others, program_eq,
      Program.runs_replaceBlock_iff closed.unlisted held loop bounds_eq notNext]

end Plan

namespace Optimizer

open PlanningRule

variable [Quantity α] {optimizer : Optimizer α} {vars : Variables} {plan final : Plan α}
  {summary : PassSummary α} {top : BlockId} {bounds : LoopBounds} {count : Nat}

namespace Stages

variable (stages : Stages optimizer vars plan final summary)

include stages

theorem outline_colocated : stages.colocated.program.outline = plan.program.outline :=
  stages.view_colocated (Plan.ignores_blocks fun _ _ => rfl)

theorem outline_budgeted : stages.budgeted.program.outline = stages.split.program.outline :=
  stages.view_budgeted (Plan.ignores_blocks fun _ _ => rfl)

end Stages

/-- Up to the demotions, the loop shows what it showed. -/
theorem Stages.shows_split (stages : Stages optimizer vars plan final summary)
    (formed : plan.IsFormed) (closed : plan.program.IsClosed)
    (constant : plan.HasConstantBounds top bounds count)
    (avoids : plan.program.Avoids optimizer.settings.nestedVar)
    (fits : ∀ trips, plan.tree.root.tripCount = .ok trips →
      Word.InSigned (divideUp trips stages.infrastructure.remoteNodes * bounds.step)) :
    stages.split.IsFormed ∧ stages.split.program.IsClosed ∧
      stages.split.tree.root.block = some top ∧ ∀ scope trace ending,
        stages.split.program.Shows optimizer.settings.nestedVar top scope trace ending ↔
          plan.program.Shows optimizer.settings.nestedVar top scope trace ending := by
  have layout := stages.layout_colocated
  have outline := stages.outline_colocated
  have stillFormed := formed.of_layout layout
  have stillClosed := closed.of_shape (Plan.shape_of_layout layout)
  have unchanged (scope : Scope) (trace : List Visit) (ending : Ending) :
      stages.colocated.program.Shows optimizer.settings.nestedVar top scope trace ending ↔
        plan.program.Shows optimizer.settings.nestedVar top scope trace ending :=
    Program.shows_congr (fun _ _ => Program.runs_iff_of_outline outline) trace ending
  rcases of_nestedParallelism stages.nestedParallelism with ⟨-, same⟩ | ⟨-, pays, inner, divided⟩
  · rw [same]
    exact ⟨stillFormed, stillClosed, (Plan.root_block_of_layout layout).trans constant.root,
      unchanged⟩
  · obtain ⟨split, iterations, split_eq, known, context_eq⟩ := PassContext.of_ofPlan stages.ofPlan
    obtain rfl := Plan.splitTripCount_eq_none avoids split_eq
    obtain none_eq | ⟨-, found⟩ := known
    · cases none_eq
    rw [context_eq] at pays divided
    -- There is an iteration for each cluster node, so a chunk is not empty.
    have chunk : 1 ≤ divideUp iterations stages.infrastructure.remoteNodes := by
      unfold shouldSplit PassContext.ofTree at pays
      simp only [Bool.and_eq_true, decide_eq_true_eq] at pays
      obtain ⟨⟨⟨⟨-, nodes⟩, enough⟩, -⟩, -⟩ := pays
      exact Nat.div_pos (by omega) nodes
    have distinct := stillFormed.numbered.distinct
    obtain ⟨_, _, _, _, _, cut⟩ := Plan.exists_split distinct divided
    have root : stages.split.tree.root.block = some top := by
      have before := constant.root.symm.trans (Plan.root_block_of_layout layout).symm
      rw [cut.before] at before
      rw [cut.tree_eq]
      exact cut.outer_block.trans (cut.root_block.symm.trans before.symm)
    refine ⟨cut.isFormed stillFormed, Plan.isClosed_splitLoop distinct stillClosed divided, root,
      fun scope trace ending => ?_⟩
    rw [← unchanged]
    refine Plan.shows_splitLoop stillFormed ?_ stillClosed (constant.of_layout layout outline.symm)
      (Plan.Avoids.of_outline outline avoids) ?_ divided scope trace ending
    · have kinds := congrArg (fun tree => tree.root.kind) (Plan.undecided_of_layout layout)
      simp only [PlanTree.root_mapNodes] at kinds
      exact kinds.trans stages.parallel
    · change Word.InSigned
        ((max (divideUp iterations stages.infrastructure.remoteNodes) 1 : Nat) * bounds.step)
      rw [Nat.max_eq_left chunk]
      exact fits iterations found

/-- Running an optimized loop shows what running it before showed: the same blocks in the same order,
with the same values of all variables but the one that counts chunks, and the same end. A split
goes by the trip count that the loop records, which need not be that of its bounds. -/
theorem shows_optimize (formed : plan.IsFormed) (closed : plan.program.IsClosed)
    (constant : plan.HasConstantBounds top bounds count)
    (avoids : plan.program.Avoids optimizer.settings.nestedVar)
    (fits : ∀ infrastructure trips, optimizer.probe.resolve = .ok infrastructure →
      plan.tree.root.tripCount = .ok trips →
        Word.InSigned (divideUp trips infrastructure.remoteNodes * bounds.step))
    (done : (optimizer.optimize vars plan).1 = .ok summary) :
    let after := (optimizer.optimize vars plan).2.plan
    after.tree.root.block = some top ∧ ∀ scope trace ending,
      after.program.Shows optimizer.settings.nestedVar top scope trace ending ↔
        plan.program.Shows optimizer.settings.nestedVar top scope trace ending := by
  obtain ⟨stages⟩ := exists_stages done
  obtain ⟨formed, closed, root, shows⟩ := stages.shows_split formed closed constant avoids
    fun trips => fits _ trips stages.resolved
  have layout := stages.layout_budgeted
  have budgetedFormed := formed.of_layout layout
  have distinct := budgetedFormed.numbered.distinct
  have budgetedRoot := (Plan.root_block_of_layout layout).trans root
  have demoted := stages.demoted
  have kept := root_demoteEach (root_not_mem_nestedSerialLoops distinct) demoted
  refine ⟨by rw [kept, budgetedRoot], fun scope trace ending => ?_⟩
  -- Only the split and the demotions change the program as far as runs depend on it.
  calc (optimizer.optimize vars plan).2.plan.program.Shows _ top scope trace ending
      ↔ stages.budgeted.program.Shows _ top scope trace ending :=
        Program.shows_congr (Plan.runs_demoteEach_iff budgetedFormed
          (closed.of_shape (Plan.shape_of_layout layout))
          (budgetedFormed.block_lt (PlanTree.root_mem_nodes _) budgetedRoot)
          (fun _ there nested => (isSerialLoop_of_mem distinct there nested).1)
          (distinct.sublist (nestedSerialLoops_sublist _)) demoted scope) trace ending
    _ ↔ stages.split.program.Shows _ top scope trace ending :=
        Program.shows_congr (fun _ _ => Program.runs_iff_of_outline stages.outline_budgeted) _ _
    _ ↔ plan.program.Shows _ top scope trace ending := shows scope trace ending

/-- Split into two chunks, the loop visits its block as before. -/
theorem shows_oneLoop :
    ∃ summary, ((ofCluster 2 4).optimize .empty oneLoop).1 = .ok summary ∧
      summary.nested = true ∧ ∀ scope trace ending,
        ((ofCluster 2 4).optimize .empty oneLoop).2.plan.program.Shows "__pixi" ⟨0⟩ scope trace
            ending ↔ oneLoop.program.Shows "__pixi" ⟨0⟩ scope trace ending := by
  obtain ⟨summary, done⟩ := Outcome.exists_ok
    (show ((ofCluster 2 4).optimize .empty oneLoop).1.toOption.isSome = true by decide +kernel)
  have nested : (((ofCluster 2 4).optimize .empty oneLoop).1.toOption.map
      PassSummary.nested) = some true := by decide +kernel
  rw [done] at nested
  have single : Plan.ofLoop oneLoop.program ⟨0⟩ = .ok oneLoop := rfl
  have formed := (Plan.IsBuilt.ofLoop single).isFormed
  have closed : oneLoop.program.IsClosed := Program.isClosed_of_all (by decide)
  have constant : oneLoop.HasConstantBounds ⟨0⟩ _ 4 :=
    ⟨rfl, ⟨_, rfl, rfl⟩, ⟨3, 9, rfl, rfl, by decide, by decide⟩, rfl⟩
  have avoids : oneLoop.program.Avoids "__pixi" := Program.avoids_of_all (by decide)
  refine ⟨summary, done, Option.some.inj nested, ?_⟩
  refine (shows_optimize formed closed constant avoids (fun infrastructure trips found recorded =>
    ?_) done).2
  obtain rfl := Except.ok.inj found
  obtain rfl : 4 = trips := Except.ok.inj recorded
  decide

end Optimizer

end ParallelLoop
