/-
# The memory budget

An optimized plan does not need more memory than there is, as far as the memory model can
tell. With all its loops serial it needs the footprint that the pass went by. Several workers
need several times as much, but never more than all workers of a tree together times what
the serial tree needs: of the trees below a node the one that needs most need not be the one
with most workers.

The worker budget was made for this. As many footprints fit into the memory as there are
workers, and a single one fits when the loop is where it should be.
-/

import Mathlib.Algebra.Order.Field.Rat
import Mathlib.Data.Rat.Floor
import Mathlib.Tactic.GCongr
import Mathlib.Tactic.Linarith
import ParallelLoop.Proofs.Optimizer.Settling

namespace ParallelLoop

open PlanTree

/-! ## Exact quantities -/

namespace Quantity

theorem rat_larger (a b : Rat) : larger a b = max a b := by
  unfold larger
  exact (max_def a b).symm

/-- Footprints of positive size that fit into a budget do not exceed it together. -/
theorem rat_fits_mul_le {budget footprint : Rat} (positive : 0 < footprint)
    (within : 0 ≤ budget) : (fits budget footprint : Rat) * footprint ≤ budget := by
  have quotient : 0 ≤ budget / footprint := div_nonneg within positive.le
  have floor : 0 ≤ (budget / footprint).floor := Rat.le_floor_iff.mpr (by simpa using quotient)
  have most : fits budget footprint ≤ (budget / footprint).floor.toNat := by
    rw [show fits budget footprint = min (budget / footprint).floor.toNat Word.maxCount from
      if_neg positive.ne']
    exact Nat.min_le_left ..
  rw [← le_div_iff₀ positive]
  calc (fits budget footprint : Rat)
      ≤ ((budget / footprint).floor.toNat : Rat) := by exact_mod_cast most
    _ = ((budget / footprint).floor : Rat) := by
      rw [← Int.cast_natCast, Int.toNat_of_nonneg floor]
    _ ≤ budget / footprint := Rat.floor_le _

/-- A number of footprints, at least one, that fits into a budget does not exceed it. -/
theorem rat_mul_le_of_fits {budget footprint : Rat} {count : Nat} (nonneg : 0 ≤ footprint)
    (single : footprint ≤ budget) (within : count ≤ max (fits budget footprint) 1) :
    count * footprint ≤ budget := by
  rcases nonneg.eq_or_lt with rfl | positive
  · simpa using single
  rcases le_max_iff.mp within with several | one
  · calc (count : Rat) * footprint
        ≤ (fits budget footprint : Rat) * footprint := by gcongr
      _ ≤ budget := rat_fits_mul_le positive (nonneg.trans single)
  · calc (count : Rat) * footprint
        ≤ 1 * footprint := by gcongr; exact_mod_cast one
      _ ≤ budget := by rwa [one_mul]

end Quantity

/-! ## Serial trees -/

namespace PlanNode

/-- The record of a node with one worker if it is a parallel loop. -/
def serial (node : PlanNode) : PlanNode :=
  if node.kind = .parfor then { node with workers := 1 } else node

theorem fanOut_serial (node : PlanNode) : node.serial.fanOut = 1 := by
  unfold serial fanOut
  split
  next => simp
  next => rfl

theorem bare_serial (node : PlanNode) : node.serial.bare = node.bare := by
  unfold serial
  split
  next loop =>
    have other : node.kind ≠ .hop := by simp [loop]
    rw [bare_of_ne_hop other, bare_of_ne_hop (by exact other)]
  next => rfl

end PlanNode

namespace PlanTree

/-- The tree with one worker for each parallel loop. -/
def serial (tree : PlanTree) : PlanTree := tree.mapNodes PlanNode.serial

theorem bare_serial (tree : PlanTree) : tree.serial.bare = tree.bare := by
  unfold serial bare
  rw [mapNodes_mapNodes]
  exact mapNodes_congr fun node _ => node.bare_serial

end PlanTree

namespace Program

variable {program : Program Rat} {remoteCost : Rat} {root : PlanNode} {children : List PlanTree}
  {tree subtree : PlanTree}

/-- A serial tree needs what is left of it when only its operators are looked at. -/
theorem memory_serial (program : Program Rat) (tree : PlanTree) :
    program.memory remoteCost tree.serial = program.memory remoteCost tree.bare := by
  rw [← tree.bare_serial, memory_bare]
  intro node there
  rw [PlanTree.serial, nodes_mapNodes] at there
  obtain ⟨twin, -, rfl⟩ := List.mem_map.mp there
  exact twin.fanOut_serial

/-- A node needs what the trees below it need, as often as it fans out. -/
theorem memory_node {largest : Rat} (inner : ¬ (root.kind = .hop ∧ children.isEmpty))
    (below : program.memoryAll remoteCost Quantity.zero children = .ok largest) :
    program.memory remoteCost (.node root children) = .ok (root.fanOut * largest) := by
  rw [memory, if_neg inner, below, Outcome.ok_bind]
  unfold PlanNode.fanOut
  split
  next => rfl
  next => simp

/-- Of several trees, none needs more than what is found for all of them. -/
theorem of_memoryAll {trees : List PlanTree} {largest found : Rat}
    (done : program.memoryAll remoteCost largest trees = .ok found) :
    largest ≤ found ∧
      ∀ tree ∈ trees, ∃ own, program.memory remoteCost tree = .ok own ∧ own ≤ found := by
  induction trees generalizing largest with
  | nil =>
    cases done
    simp
  | cons tree rest ih =>
    obtain ⟨own, own_eq, more⟩ := Outcome.of_bind done
    obtain ⟨above, others⟩ := ih more
    rw [Quantity.rat_larger] at above
    rw [List.forall_mem_cons]
    exact ⟨(le_max_left ..).trans above, ⟨own, own_eq, (le_max_right ..).trans above⟩, others⟩

/-- Whatever is known of a tree is known of the trees in it. -/
theorem exists_memory_of_subtree {found : Rat} (done : program.memory remoteCost tree = .ok found)
    (member : subtree ∈ tree.subtrees) : ∃ own, program.memory remoteCost subtree = .ok own := by
  induction tree using PlanTree.induction generalizing found with
  | node root children ih =>
    rcases mem_subtrees_node.mp member with rfl | ⟨child, there, deeper⟩
    · exact ⟨found, done⟩
    rw [memory] at done
    split at done
    next leaf => simp [List.isEmpty_iff.mp leaf.2] at there
    next =>
      obtain ⟨largest, all, -⟩ := Outcome.of_bind done
      obtain ⟨own, own_eq, -⟩ := (of_memoryAll all).2 child there
      exact ih child there own_eq deeper

/-- Trees that need as many footprints as they have workers, or fewer, need together as many as the
one with most workers has, or fewer. -/
theorem memoryAll_le {trees : List PlanTree} {workers : Nat} {start least largest : Rat}
    (few : ∀ tree ∈ trees, tree.totalWorkers ≤ workers)
    (each : ∀ tree ∈ trees, ∀ own, program.memory remoteCost tree.bare = .ok own →
      ∃ found, program.memory remoteCost tree = .ok found ∧ found ≤ tree.totalWorkers * own)
    (nonneg : 0 ≤ start) (below : largest ≤ workers * start)
    (serial : program.memoryAll remoteCost start (trees.map bare) = .ok least) :
    ∃ found, program.memoryAll remoteCost largest trees = .ok found ∧ found ≤ workers * least := by
  induction trees generalizing start largest with
  | nil =>
    cases serial
    exact ⟨largest, rfl, below⟩
  | cons tree rest ih =>
    rw [List.forall_mem_cons] at few each
    obtain ⟨own, own_eq, more⟩ := Outcome.of_bind serial
    obtain ⟨memory, memory_eq, most⟩ := each.1 own own_eq
    rw [memoryAll, memory_eq, Outcome.ok_bind, Quantity.rat_larger]
    rw [Quantity.rat_larger] at more
    have still : 0 ≤ max start own := nonneg.trans (le_max_left ..)
    -- The tree has fewer workers than there may be, each of which needs no more than the largest.
    have within : memory ≤ workers * max start own :=
      calc memory
          ≤ tree.totalWorkers * own := most
        _ ≤ tree.totalWorkers * max start own := by gcongr; exact le_max_right ..
        _ ≤ workers * max start own := by gcongr; exact few.1
    have before : largest ≤ workers * max start own :=
      below.trans (by gcongr; exact le_max_left ..)
    exact ih few.2 each.2 still (max_le before within) more

/-- A tree needs at most what the serial tree needs, as often as it has workers. -/
theorem memory_le_of_bare {least : Rat} (serial : program.memory remoteCost tree.bare = .ok least) :
    ∃ found, program.memory remoteCost tree = .ok found ∧ found ≤ tree.totalWorkers * least := by
  induction tree using PlanTree.induction generalizing least with
  | node root children ih =>
    rw [bare_node] at serial
    by_cases leaf : root.kind = .hop ∧ children.isEmpty
    · have none := List.isEmpty_iff.mp leaf.2
      have alone : root.fanOut = 1 := by simp [PlanNode.fanOut, leaf.1]
      rw [PlanNode.bare_of_hop leaf.1, none, List.map_nil] at serial
      refine ⟨least, none ▸ serial, ?_⟩
      simp [totalWorkers, totalWorkersAll, none, alone]
    · have inner : ¬ (root.bare.kind = .hop ∧ (children.map bare).isEmpty) := by
        simpa [PlanNode.kind_bare_eq_hop] using leaf
      rw [memory_of_single (if_neg root.kind_bare_ne_parfor) inner] at serial
      -- Each tree below takes its workers times its serial memory, and these add up.
      have few := (totalWorkersAll_le.mp (Nat.le_refl (totalWorkersAll children))).2
      have zero : (Quantity.zero : Rat) ≤ totalWorkersAll children * (0 : Rat) := by
        simp [Quantity.zero]
      obtain ⟨largest, all, most⟩ :=
        memoryAll_le few (fun child there _ => ih child there) (le_refl 0) zero serial
      refine ⟨_, memory_node leaf all, ?_⟩
      rw [totalWorkers]
      push_cast
      rw [mul_assoc]
      gcongr

/-- No tree below a serial loop needs more than the loop. -/
theorem serial_children_le {footprint : Rat} (loop : tree.root.kind = .parfor)
    (done : program.memory remoteCost tree.serial = .ok footprint) :
    0 ≤ footprint ∧ ∀ child ∈ tree.children,
      ∃ own, program.memory remoteCost child.serial = .ok own ∧ own ≤ footprint := by
  cases tree with
  | node root children =>
    change root.kind = .parfor at loop
    have other : ¬ (root.serial.kind = .hop ∧ (children.map PlanTree.serial).isEmpty) := by
      simp [PlanNode.serial, loop]
    rw [PlanTree.serial, mapNodes_node] at done
    change program.memory remoteCost (.node root.serial (children.map PlanTree.serial)) = _ at done
    rw [memory_of_single root.fanOut_serial other] at done
    obtain ⟨nonneg, each⟩ := of_memoryAll done
    exact ⟨nonneg, fun child there => each _ (List.mem_map_of_mem there)⟩

end Program

/-! ## The budget of a pass -/

namespace Optimizer

open PlanningRule

variable {optimizer : Optimizer Rat} {vars : Variables} {plan final : Plan Rat}
  {summary : PassSummary Rat} {remoteCost : Rat}

/-- An optimized plan keeps to the memory of the place where its loop runs. At every node the memory
model finds at most what the serial tree needs, as often as the tree has workers. A local loop needs
no more than the memory of the machine if the footprint fits there, and no task of a remote loop
needs more than the memory of a task. -/
structure KeepsMemory (settings : OptimizerSettings Rat) (infrastructure : Infrastructure)
    (summary : PassSummary Rat) (remoteCost : Rat) (plan : Plan Rat) : Prop where
  footprint : plan.program.memory remoteCost plan.tree.serial = .ok summary.footprint
  estimate : ∀ tree ∈ plan.tree.subtrees, ∃ least found,
    plan.program.memory remoteCost tree.serial = .ok least ∧
      plan.estimate remoteCost .memoryUsage tree.id = .ok found ∧
      found ≤ tree.totalWorkers * least
  inProcess : plan.tree.root.placement = .inProcess →
    let limit := settings.memoryShare * infrastructure.localMemory
    summary.footprint ≤ limit →
      ∃ found, plan.estimate remoteCost .memoryUsage plan.tree.id = .ok found ∧ found ≤ limit
  remote : plan.tree.root.placement = .remote →
    let limit := settings.memoryShare * infrastructure.remoteMemory
    ∀ child ∈ plan.tree.children,
      ∃ found, plan.estimate remoteCost .memoryUsage child.id = .ok found ∧ found ≤ limit

/-- The memory model is asked about the tree under a node. -/
theorem estimate_eq (distinct : plan.tree.ids.Nodup) {tree : PlanTree}
    (member : tree ∈ plan.tree.subtrees) :
    plan.estimate remoteCost .memoryUsage tree.id =
      orFailure (plan.program.memory remoteCost tree) := by
  unfold Plan.estimate
  rw [PlanTree.find?_eq_some distinct member]

/-- A plan that serially needs a footprint needs at most as many at each node as it has workers
there. -/
theorem exists_estimate {footprint : Rat} (distinct : plan.tree.ids.Nodup)
    (serial : plan.program.memory remoteCost plan.tree.serial = .ok footprint) {tree : PlanTree}
    (member : tree ∈ plan.tree.subtrees) : ∃ least found,
      plan.program.memory remoteCost tree.serial = .ok least ∧
        plan.estimate remoteCost .memoryUsage tree.id = .ok found ∧
        found ≤ tree.totalWorkers * least := by
  obtain ⟨least, least_eq⟩ := Program.exists_memory_of_subtree serial (mapNodes_mem_subtrees member)
  obtain ⟨found, found_eq, most⟩ :=
    Program.memory_le_of_bare (plan.program.memory_serial tree ▸ least_eq)
  exact ⟨least, found, least_eq, by rw [estimate_eq distinct member, found_eq]; rfl, most⟩

namespace Stages

variable (stages : Stages optimizer vars plan final summary) (formed : plan.IsFormed)
  (hops : optimizer.estimator = .hops remoteCost)

include stages formed hops

/-- With all its loops serial, the plan at the end needs what was estimated before the split. -/
theorem memory_final : final.program.memory remoteCost final.tree.serial =
    .ok summary.footprint := by
  obtain ⟨stillFormed, -, memory, -⟩ := stages.placed_split formed hops
  have kept := stages.keeps_situation stillFormed
  rw [Program.memory_serial, Program.memory_of_hops kept.hops_eq, kept.bare_eq, memory,
    stages.summary_eq.2.1]

/-- The loop ends up where a task is given the footprint only if there is memory for it. -/
theorem footprint_le_of_remote (remote : final.tree.root.placement = .remote) :
    summary.footprint ≤
      optimizer.settings.memoryShare * stages.infrastructure.remoteMemory := by
  obtain ⟨stillFormed, parallel, -, placed⟩ := stages.placed_split formed hops
  have kept := (stages.keeps_situation stillFormed).part Prod.fst Prod.fst
  have settled := placed.of_keeps kept
    ((stages.root_kind_final stillFormed).trans parallel)
  have chosen := settled.placement_eq
  obtain ⟨-, -, -, -, -, -, remoteMemory⟩ := PassContext.limits_eq stages.ofPlan
  rw [remote, choosePlacement] at chosen
  split at chosen
  next fits =>
    have within := fits.2
    dsimp only at within
    rw [remoteMemory, ← stages.summary_eq.2.1] at within
    exact within
  next => cases chosen

theorem keepsMemory : KeepsMemory optimizer.settings stages.infrastructure summary remoteCost
    final := by
  obtain ⟨stillFormed, parallel, -, -⟩ := stages.placed_split formed hops
  have distinct := (stages.keeps_situation stillFormed).formed.numbered.distinct
  have loop := (stages.root_kind_final stillFormed).trans parallel
  have serial := stages.memory_final formed hops
  have workers := stages.keepsBudget formed.numbered
  obtain ⟨nonneg, below⟩ := Program.serial_children_le loop serial
  refine {
    footprint := serial
    estimate := fun tree => exists_estimate distinct serial
    inProcess := ?_
    remote := ?_ }
  · intro here limit fits
    obtain ⟨least, found, least_eq, found_eq, most⟩ :=
      exists_estimate distinct serial (self_mem_subtrees final.tree)
    obtain rfl := Except.ok.inj (serial.symm.trans least_eq)
    -- The machine has a budget of as many workers as footprints fit, or one.
    have total : final.tree.totalWorkers ≤ max (Quantity.fits limit summary.footprint) 1 :=
      (workers.inProcess here).trans (max_le_max_right 1 (Nat.min_le_right ..))
    exact ⟨found, found_eq, most.trans (Quantity.rat_mul_le_of_fits nonneg fits total)⟩
  · intro elsewhere limit child there
    have fits : summary.footprint ≤ limit := stages.footprint_le_of_remote formed hops elsewhere
    obtain ⟨least, found, least_eq, found_eq, most⟩ :=
      exists_estimate distinct serial (mem_subtrees_of_child there)
    obtain ⟨own, own_eq, small⟩ := below child there
    obtain rfl := Except.ok.inj (own_eq.symm.trans least_eq)
    have total : child.totalWorkers ≤ max (Quantity.fits limit summary.footprint) 1 :=
      ((workers.remote elsewhere).2.2 child there).trans
        (max_le_max_right 1 (Nat.min_le_right ..))
    refine ⟨found, found_eq, ?_⟩
    calc found
        ≤ child.totalWorkers * own := most
      _ ≤ child.totalWorkers * summary.footprint := by gcongr
      _ ≤ limit := Quantity.rat_mul_le_of_fits nonneg fits total

end Stages

/-- Optimizing a plan by the memory model keeps to the memory at hand. -/
theorem keepsMemory_optimize (formed : plan.IsFormed)
    (hops : optimizer.estimator = .hops remoteCost)
    (done : (optimizer.optimize vars plan).1 = .ok summary) :
    ∃ infrastructure partitioned,
      optimizer.probe.resolve = .ok infrastructure ∧
      partitioned.layout = plan.layout ∧
      optimizer.estimator.memory 1 partitioned = .ok summary.footprint ∧
      KeepsMemory optimizer.settings infrastructure summary remoteCost
        (optimizer.optimize vars plan).2.plan := by
  obtain ⟨stages⟩ := exists_stages done
  have reestimated := stages.reestimated
  rw [← stages.summary_eq.2.1] at reestimated
  exact ⟨stages.infrastructure, stages.partitioned, stages.resolved,
    stages.view_partitioned Plan.ignores_layout.given, reestimated,
    stages.keepsMemory formed hops⟩

/-- Two loops as in the plan of two loops, with an operator in the inner loop that needs two, and
one beside it that needs three. -/
def weighedLoops : Plan Rat where
  tree :=
    .node twoLoops.tree.root
      [.node { id := ⟨1⟩, kind := .parfor, placement := .inProcess, block := some ⟨1⟩
               parameters := { numIterations := some "10" } }
        [.node { id := ⟨2⟩, kind := .hop, placement := .inProcess, hop := some ⟨0⟩
                 parameters := { opString := some "mult" } } []],
      .node { id := ⟨3⟩, kind := .hop, placement := .inProcess, hop := some ⟨1⟩
              parameters := { opString := some "sum" } } []]
  program :=
    { twoLoops.program with
      hops := #[{ op := "mult", inputs := [], memory := some 2 },
        { op := "sum", inputs := [], memory := some 3 }] }

/-- Ten workers, and memory for fourteen. -/
def tenWorkers : Optimizer Rat where
  settings := (ofMachine 10).settings
  probe := (Infrastructure.localOnly 10 14).probe
  estimator := .hops 1

theorem isFormed_weighedLoops : weighedLoops.IsFormed where
  numbered := ⟨by decide, by decide⟩
  top := rfl
  kinds := by decide
  operators := by decide

/-- Four footprints of three fit into fourteen, so each of the two iterations of the outer loop has
two workers for the inner one. These need four, and eight in all. -/
theorem keepsMemory_weighedLoops :
    ∃ summary, (tenWorkers.optimize .empty weighedLoops).1 = .ok summary ∧
      KeepsMemory tenWorkers.settings (Infrastructure.localOnly 10 14) summary 1
        (tenWorkers.optimize .empty weighedLoops).2.plan ∧
      summary.footprint = 3 ∧
      (tenWorkers.optimize .empty weighedLoops).2.plan.tree.totalWorkers = 4 ∧
      (tenWorkers.optimize .empty weighedLoops).2.plan.estimate 1 .memoryUsage ⟨0⟩ = .ok 8 := by
  obtain ⟨summary, done⟩ := Outcome.exists_ok
    (show (tenWorkers.optimize .empty weighedLoops).1.toOption.isSome = true by decide +kernel)
  obtain ⟨infrastructure, _, resolved, -, -, keeps⟩ :=
    keepsMemory_optimize isFormed_weighedLoops rfl done
  obtain rfl := Except.ok.inj resolved
  have footprint : (tenWorkers.optimize .empty weighedLoops).1.toOption.map
      PassSummary.footprint = some 3 := by decide +kernel
  rw [done] at footprint
  exact ⟨summary, done, keeps, Option.some.inj footprint, by decide +kernel, by decide +kernel⟩

end Optimizer

end ParallelLoop
