/-
# When the two sides of a loop drift apart

Where a loop runs and how many workers it has are decided on two sides, in its node and in its
settings. Whatever is done to a plan, both sides say the same about the place. About the
workers they do so as long as only loops with one worker are split: a split gives the inner loop
the settings of the outer one, but a node of its own that has one worker.

So a split of a loop with more workers is where the two sides drift apart, and the only such place.
They meet again only when the inner loop is given workers.
-/

import ParallelLoop.Proofs.Plan.Operations

namespace ParallelLoop.Plan

variable {α : Type} {start plan after final : Plan α} {id inner : NodeId}

/-! ## Two relations that operations keep -/

/-- A loop has the same workers on both sides. -/
def SameWorkers (node : PlanNode) (settings : ParallelSettings α) : Prop :=
  settings.workers = node.workers

/-- A loop runs at the same place on both sides. -/
def SamePlacement (node : PlanNode) (settings : ParallelSettings α) : Prop :=
  settings.mode = node.placement

theorem isKept_sameWorkers : IsKept (SameWorkers (α := α)) where
  placement _ same := same
  workers _ _ := rfl
  taskPartitioner _ same := same
  dataPartitioner _ same := same
  resultMerge _ same := same
  recompileBudget _ same := same
  colocated _ same := same
  numIterations _ same := same

theorem isKept_samePlacement : IsKept (SamePlacement (α := α)) where
  placement _ _ := rfl
  workers _ same := same
  taskPartitioner _ same := same
  dataPartitioner _ same := same
  resultMerge _ same := same
  recompileBudget _ same := same
  colocated _ same := same
  numIterations _ same := same

/-- Splitting a loop with other than one worker gives an inner loop whose sides differ. -/
theorem workers_eq_one_of_splitLoop (numbered : plan.tree.IsNumbered) {chunk : Nat} {var : String}
    (done : (splitLoop id chunk var).result plan = (.ok inner, after))
    (agrees : after.Agrees SameWorkers) :
    (plan.settings? id).map ParallelSettings.workers = some 1 := by
  obtain ⟨top, settings, bound, found, inner_eq, -⟩ := settings?_splitLoop done
  obtain ⟨-, count, mem_iff⟩ := nodes_splitLoop numbered done
  have there := (mem_iff (plan.innerNode (max chunk 1))).mpr (.inl rfl)
  obtain ⟨own, held, own_eq, held_eq, same⟩ := agrees _ there rfl
  obtain rfl : plan.program.nextBlock = own := Option.some.inj own_eq
  obtain rfl := Option.some.inj (inner_eq.symm.trans held_eq)
  have read : plan.settings id = .ok settings := settings_eq_ok_iff_block.mpr ⟨top, bound, found⟩
  rw [settings_eq_ok_iff.mp read]
  exact congrArg some same

/-! ## Runs -/

/-- An operation at a node of a plan. -/
structure Edit (α : Type) where
  plan : Plan α
  id : NodeId
  operation : Operation α

/-- If the operation is a split, then of a loop with one worker. -/
def Edit.IsSafe (edit : Edit α) : Prop :=
  ∀ chunk var, edit.operation = .splitLoop chunk var →
    (edit.plan.settings? edit.id).map ParallelSettings.workers = some 1

/-- Operations that succeed one after the other, each on the plan that the one before it has left.
The edits are those before the last plan, the newest one first. -/
inductive Runs (start : Plan α) : List (Edit α) → Plan α → Prop
  | refl : Runs start [] start
  | step {edits : List (Edit α)} {plan after : Plan α} {operation : Operation α} (id : NodeId)
      (before : Runs start edits plan) (suits : operation.Suits plan id)
      (done : (operation.run id).result plan = (.ok (), after)) :
      Runs start (⟨plan, id, operation⟩ :: edits) after

variable {edits : List (Edit α)}

theorem Runs.isNumbered (runs : Runs start edits final) (numbered : start.tree.IsNumbered) :
    final.tree.IsNumbered := by
  induction runs with
  | refl => exact numbered
  | step _ _ _ done ih => exact Operation.isNumbered_of_run ih done

/-- An operation that succeeds leads one step further. -/
theorem Runs.next (runs : Runs start edits plan) (id : NodeId) (operation : Operation α)
    (suits : operation.Suits plan id)
    (done : ((operation.run id).result plan).1.isOk = true) :
    Runs start (⟨plan, id, operation⟩ :: edits) ((operation.run id).result plan).2 := by
  obtain ⟨_, step⟩ := Change.result_eq_ok done
  exact .step id runs suits step

/-- Both sides of every loop say the same about its place, in every plan on the way. -/
theorem Runs.agrees_samePlacement (runs : Runs start edits final)
    (numbered : start.tree.IsNumbered) (agrees : start.Agrees SamePlacement) :
    ∀ plan ∈ final :: edits.map Edit.plan, plan.Agrees SamePlacement := by
  induction runs with
  | refl => exact List.forall_mem_singleton.mpr agrees
  | step id before suits done ih =>
    refine List.forall_mem_cons.mpr ⟨?_, ih⟩
    exact Operation.agrees_of_run isKept_samePlacement (List.forall_mem_cons.mp ih).1
      (before.isNumbered numbered) suits (fun _ _ _ _ _ => rfl) done

/-- They say the same about its workers as long as only loops with one worker are split. -/
theorem Runs.agrees_sameWorkers (runs : Runs start edits final)
    (numbered : start.tree.IsNumbered) (agrees : start.Agrees SameWorkers)
    (safe : ∀ edit ∈ edits, edit.IsSafe) :
    ∀ plan ∈ final :: edits.map Edit.plan, plan.Agrees SameWorkers := by
  induction runs with
  | refl => exact List.forall_mem_singleton.mpr agrees
  | step id before suits done ih =>
    rw [List.forall_mem_cons] at safe
    have agreed := ih safe.2
    refine List.forall_mem_cons.mpr ⟨?_, agreed⟩
    refine Operation.agrees_of_run isKept_sameWorkers (List.forall_mem_cons.mp agreed).1
      (before.isNumbered numbered) suits (fun chunk var settings same read => ?_) done
    have one := safe.1 chunk var same
    rw [settings_eq_ok_iff.mp read] at one
    exact Option.some.inj one

/-- Where they say the same, only loops with one worker were split. -/
theorem Runs.isSafe (runs : Runs start edits final) (numbered : start.tree.IsNumbered)
    (agrees : ∀ plan ∈ final :: edits.map Edit.plan, plan.Agrees SameWorkers) :
    ∀ edit ∈ edits, edit.IsSafe := by
  induction runs with
  | refl => exact List.forall_mem_nil _
  | step id before suits done ih =>
    rw [List.forall_mem_cons] at agrees
    refine List.forall_mem_cons.mpr ⟨fun chunk var same => ?_, ih agrees.2⟩
    cases same
    obtain ⟨inner, mid, divided, returned⟩ := Change.of_bind done
    cases returned
    exact workers_eq_one_of_splitLoop (before.isNumbered numbered) divided agrees.1

/-- Whatever is done to a plan, the two sides of its loops never drift apart about their places.
About their workers they do so exactly when a loop with other than one worker is split. -/
theorem Runs.sides_agree_iff (runs : Runs start edits final) (numbered : start.tree.IsNumbered)
    (agrees : start.Agrees fun node settings =>
      SameWorkers node settings ∧ SamePlacement node settings) :
    (∀ plan ∈ final :: edits.map Edit.plan, plan.Agrees SamePlacement) ∧
      ((∀ plan ∈ final :: edits.map Edit.plan, plan.Agrees SameWorkers) ↔
        ∀ edit ∈ edits, edit.IsSafe) := by
  have workers : start.Agrees SameWorkers := agrees.mono fun _ _ => And.left
  exact ⟨runs.agrees_samePlacement numbered (agrees.mono fun _ _ => And.right),
    runs.isSafe numbered, runs.agrees_sameWorkers numbered workers⟩

/-- A loop from one to ten. -/
def tenTimes : Plan Rat where
  tree :=
    .node { id := ⟨0⟩, kind := .parfor, placement := .inProcess, block := some ⟨0⟩
            parameters := { numIterations := some "10" } } []
  program :=
    { blocks := #[
        .parallel { var := "i", first := .const 1, last := .const 10, step := 1 } .undecided []]
      hops := #[] }

theorem isNumbered_tenTimes : tenTimes.tree.IsNumbered := ⟨by decide, by decide⟩

theorem agrees_tenTimes : tenTimes.Agrees fun node settings =>
    SameWorkers node settings ∧ SamePlacement node settings :=
  List.forall_mem_singleton.mpr fun _ => ⟨_, _, rfl, rfl, rfl, rfl⟩

/-- Where every node stands for the block of its own number, every operation but a format suits. -/
theorem isApart_of_own (own : ∀ node ∈ plan.tree.nodes, node.block = some ⟨node.id.index⟩)
    (id : NodeId) : plan.IsApart id :=
  (ownsBlocks_of_injective (injective_of_own own)).isApart id

/-- A loop with six workers that is made serial before it is split. The inner loop is given workers
afterwards. -/
theorem sides_agree_tenTimes : ∃ edits final, Runs tenTimes edits final ∧ edits.length = 4 ∧
    final.tree.size = 2 ∧ ∀ plan ∈ final :: edits.map Edit.plan,
      plan.Agrees SamePlacement ∧ plan.Agrees SameWorkers := by
  have given : Runs tenTimes [] tenTimes := .refl
  have assigned := given.next ⟨0⟩ (.setWorkers 6) (isApart_of_own (by decide) _) (by decide +kernel)
  have serial := assigned.next ⟨0⟩ .serialize
    (fun _ _ node _ _ => isApart_of_own (by decide +kernel) node.id) (by decide +kernel)
  have divided := serial.next ⟨0⟩ (.splitLoop 4 "__pixi") (isApart_of_own (by decide +kernel) _)
    (by decide +kernel)
  have shared := divided.next ⟨1⟩ (.setWorkers 3) (isApart_of_own (by decide +kernel) _)
    (by decide +kernel)
  have safe := shared.sides_agree_iff isNumbered_tenTimes agrees_tenTimes
  refine ⟨_, _, shared, rfl, by decide +kernel, fun plan there => ⟨safe.1 plan there, ?_⟩⟩
  refine safe.2.mpr ?_ plan there
  simp only [List.forall_mem_cons, Edit.IsSafe]
  refine ⟨nofun, fun _ _ _ => by decide +kernel, nofun, nofun, List.forall_mem_nil _⟩

/-- A loop with six workers that is split as it is: the inner loop has six workers in its settings
and one in its node. -/
theorem not_sides_agree_tenTimes : ∃ edits final, tenTimes.tree.IsNumbered ∧
    (tenTimes.Agrees fun node settings => SameWorkers node settings ∧ SamePlacement node settings) ∧
    Runs tenTimes edits final ∧ ¬ final.Agrees SameWorkers := by
  have given : Runs tenTimes [] tenTimes := .refl
  have assigned := given.next ⟨0⟩ (.setWorkers 6) (isApart_of_own (by decide) _) (by decide +kernel)
  have divided := assigned.next ⟨0⟩ (.splitLoop 4 "__pixi") (isApart_of_own (by decide +kernel) _)
    (by decide +kernel)
  refine ⟨_, _, isNumbered_tenTimes, agrees_tenTimes, divided, fun agrees => ?_⟩
  obtain ⟨own, settings, own_eq, found, same⟩ := agrees
    { id := ⟨1⟩, kind := .parfor, placement := .inProcess, block := some ⟨1⟩
      parameters := { numIterations := some "4" } } (by decide +kernel) rfl
  obtain rfl := Option.some.inj own_eq
  have six := congrArg (Option.map ParallelSettings.workers) found
  rw [Option.map_some, show settings.workers = 1 from same] at six
  exact absurd six (by decide +kernel)

end ParallelLoop.Plan
