/-
# Running a program

What a program does is read off its blocks. A loop, parallel or sequential, takes its
bounds in the scope in which it is entered and runs its body for each value of its
variable, from the first one on in steps, as long as the last one is not exceeded. Every
other block is visited and runs what is in it. `Program.step` is one step of this on
what is left to be run.

A run need not come to an end, so it is watched up to some moment. What has been visited
by then is a trace; the traces of a program are the beginnings of one sequence of visits,
and they stop growing where the run is over.

One program does the same as another when each step of one is matched by steps of the
other: `Program.Runs.simulate` is this principle. A first use of it is a program whose
blocks stand for blocks of another one with the same bounds.
-/

import Mathlib.Data.List.Infix
import ParallelLoop.Proofs.Plan.Blocks

namespace ParallelLoop

/-- The first and the last value of a loop that is entered in a scope. -/
def LoopBounds.resolve (bounds : LoopBounds) (scope : Scope) : Except Error (Int × Int) := do
  return (← bounds.first.resolve scope, ← bounds.last.resolve scope)

/-- A block that is visited, and the values of the loop variables at this moment. -/
structure Visit where
  block : BlockId
  scope : Scope
  deriving DecidableEq, Repr

/-- A part of what is left to be run. -/
inductive Pending
  | block (id : BlockId) (scope : Scope)
  /-- The rounds of a loop from a value of its variable on. -/
  | loop (bounds : LoopBounds) (value last : Int) (body : List BlockId) (scope : Scope)
  deriving DecidableEq, Repr

/-- How a run ends. -/
inductive Ending
  /-- It goes on, but nobody watches it any longer. -/
  | paused
  | finished
  /-- A block is missing, or the bound of a loop has no value. -/
  | failed (cause : Error)
  /-- A loop without bounds is reached. -/
  | stuck
  deriving DecidableEq, Repr

/-- A step of a run: it is over, or there are visits and something is left to be run. -/
inductive Progress
  | stop (ending : Ending)
  | on (visits : List Visit) (next : List Pending)
  deriving DecidableEq, Repr

namespace Program

variable {α β : Type}

/-- The blocks of a body, one after the other. -/
def inOrder (body : List BlockId) (scope : Scope) : List Pending :=
  body.map fun id => .block id scope

/-- What comes of a block that is run in a scope. -/
def enter (program : Program α) (id : BlockId) (scope : Scope) : Progress :=
  match program.block id with
  | .error cause => .stop (.failed cause)
  | .ok block =>
    if block.kind = .generic then .on [{ block := id, scope }] (inOrder block.children scope)
    else
      match block.bounds with
      | none => .stop .stuck
      | some bounds =>
        match bounds.resolve scope with
        | .error cause => .stop (.failed cause)
        | .ok (first, last) => .on [] [.loop bounds first last block.children scope]

/-- A step that is followed by what else is left to be run. -/
def Progress.andThen : Progress → List Pending → Progress
  | .stop ending, _ => .stop ending
  | .on visits next, rest => .on visits (next ++ rest)

/-- A step of a run. -/
def step (program : Program α) : List Pending → Progress
  | [] => .stop .finished
  | .block id scope :: rest => Progress.andThen (program.enter id scope) rest
  | .loop bounds value last body scope :: rest =>
    if value ≤ last then
      .on [] (inOrder body ((bounds.var, value) :: scope) ++
        .loop bounds (value + bounds.step) last body scope :: rest)
    else .on [] rest

/-- The visits of a run up to the moment at which it is over or no longer watched. -/
inductive Runs (program : Program α) : List Pending → List Visit → Ending → Prop
  | paused (now : List Pending) : Runs program now [] .paused
  | stop {now : List Pending} {ending : Ending} (ends : program.step now = .stop ending) :
      Runs program now [] ending
  | on {now next : List Pending} {visits trace : List Visit} {ending : Ending}
      (goes : program.step now = .on visits next) (rest : Runs program next trace ending) :
      Runs program now (visits ++ trace) ending

variable {program : Program α} {other : Program β} {now next twin : List Pending}
  {visits trace more : List Visit} {ending : Ending}

theorem step_round {bounds : LoopBounds} {value last : Int} (stays : value ≤ last)
    (body : List BlockId) (scope : Scope) (rest : List Pending) :
    program.step (.loop bounds value last body scope :: rest) =
      .on [] (inOrder body ((bounds.var, value) :: scope) ++
        .loop bounds (value + bounds.step) last body scope :: rest) := if_pos stays

theorem step_leave {bounds : LoopBounds} {value last : Int} (leaves : ¬ value ≤ last)
    (body : List BlockId) (scope : Scope) (rest : List Pending) :
    program.step (.loop bounds value last body scope :: rest) = .on [] rest := if_neg leaves

/-- Two traces of the same are beginnings of one sequence, and a run that is over has made all
visits. -/
theorem Runs.comparable {otherEnding : Ending} (runs : program.Runs now trace ending)
    (alsoRuns : program.Runs now more otherEnding) :
    (trace <+: more ∧ (ending = .paused ∨ trace = more ∧ otherEnding = ending)) ∨
      more <+: trace ∧ otherEnding = .paused := by
  induction runs generalizing more with
  | paused now => exact .inl ⟨List.nil_prefix, .inl rfl⟩
  | stop ends =>
    cases alsoRuns with
    | paused now => exact .inr ⟨List.nil_prefix, rfl⟩
    | stop alsoEnds =>
      obtain ⟨⟩ := ends.symm.trans alsoEnds
      exact .inl ⟨List.nil_prefix, .inr ⟨rfl, rfl⟩⟩
    | on goes _ => cases ends.symm.trans goes
  | on goes _ ih =>
    cases alsoRuns with
    | paused now => exact .inr ⟨List.nil_prefix, rfl⟩
    | stop alsoEnds => cases goes.symm.trans alsoEnds
    | on alsoGoes rest =>
      -- The step is the same one, so the traces differ in what follows it at most.
      obtain ⟨⟩ := goes.symm.trans alsoGoes
      obtain ⟨shorter, ends⟩ | ⟨longer, paused⟩ := ih rest
      · refine .inl ⟨(List.prefix_append_right_inj _).mpr shorter, ends.imp_right ?_⟩
        exact fun ⟨same, ending⟩ => ⟨congrArg _ same, ending⟩
      · exact .inr ⟨(List.prefix_append_right_inj _).mpr longer, paused⟩

/-- Whatever is visited next, these visits come first. -/
def LeadsTo (program : Program α) (now : List Pending) (visits : List Visit)
    (next : List Pending) : Prop :=
  ∀ trace ending, program.Runs next trace ending → program.Runs now (visits ++ trace) ending

namespace LeadsTo

theorem refl (program : Program α) (now : List Pending) : program.LeadsTo now [] now :=
  fun _ _ runs => runs

theorem of_step (goes : program.step now = .on visits next) : program.LeadsTo now visits next :=
  fun _ _ runs => .on goes runs

theorem trans {later : List Pending} {laterVisits : List Visit}
    (start : program.LeadsTo now visits next) (rest : program.LeadsTo next laterVisits later) :
    program.LeadsTo now (visits ++ laterVisits) later := by
  intro trace ending runs
  rw [List.append_assoc]
  exact start _ _ (rest _ _ runs)

end LeadsTo

/-- One program does what another one does, as far as `shown` tells of visits, when it matches each
of its steps. -/
theorem Runs.simulate {γ : Type} {shown : Visit → γ} (matched : List Pending → List Pending → Prop)
    (stops : ∀ now twin ending, matched now twin → program.step now = .stop ending →
      other.Runs twin [] ending)
    (on : ∀ now twin visits next, matched now twin → program.step now = .on visits next →
      ∃ twinVisits twinNext, other.LeadsTo twin twinVisits twinNext ∧ matched next twinNext ∧
        twinVisits.map shown = visits.map shown)
    (runs : program.Runs now trace ending) (start : matched now twin) :
    ∃ twinTrace, other.Runs twin twinTrace ending ∧ twinTrace.map shown = trace.map shown := by
  induction runs generalizing twin with
  | paused now => exact ⟨[], .paused twin, rfl⟩
  | stop ends => exact ⟨[], stops _ _ _ start ends, rfl⟩
  | on goes _ ih =>
    obtain ⟨twinVisits, twinNext, leads, stillMatched, same⟩ := on _ _ _ _ start goes
    obtain ⟨twinTrace, twinRuns, sameTrace⟩ := ih stillMatched
    refine ⟨twinVisits ++ twinTrace, leads _ _ twinRuns, ?_⟩
    rw [List.map_append, List.map_append, same, sameTrace]

/-! ## Blocks that stand for others -/

/-- Each block does what the block does for which it stands: it has the same bounds, and its
children stand for the children of that. A block that is visited stands for itself. -/
structure Mimics (other : Program β) (origin : BlockId → BlockId) (program : Program α) : Prop where
  missing : ∀ id cause, other.block id = .error cause → program.block (origin id) = .error cause
  block : ∀ id block, other.block id = .ok block → ∃ held, program.block (origin id) = .ok held ∧
    held.bounds = block.bounds ∧ held.children = block.children.map origin ∧
    (held.kind = .generic ↔ block.kind = .generic) ∧ (block.kind = .generic → origin id = id)

end Program

/-- What is left to be run in terms of the blocks for which blocks stand. -/
def Pending.rename (origin : BlockId → BlockId) : Pending → Pending
  | .block id scope => .block (origin id) scope
  | .loop bounds value last body scope => .loop bounds value last (body.map origin) scope

/-- A step in terms of the blocks for which blocks stand. -/
def Progress.rename (origin : BlockId → BlockId) : Progress → Progress
  | .stop ending => .stop ending
  | .on visits next => .on visits (next.map (Pending.rename origin))

namespace Program

variable {α β : Type} {program : Program α} {other : Program β} {origin : BlockId → BlockId}
  {now : List Pending} {trace : List Visit} {ending : Ending}

theorem map_rename_inOrder (body : List BlockId) (scope : Scope) :
    (inOrder body scope).map (Pending.rename origin) = inOrder (body.map origin) scope := by
  simp [inOrder, Pending.rename]

theorem rename_andThen (progress : Progress) (rest : List Pending) :
    (Progress.andThen progress rest).rename origin =
      Progress.andThen (progress.rename origin) (rest.map (Pending.rename origin)) := by
  cases progress with
  | stop ending => rfl
  | on visits next => simp [Progress.andThen, Progress.rename]

namespace Mimics

variable (mimics : other.Mimics origin program)

include mimics

theorem enter_eq (id : BlockId) (scope : Scope) :
    program.enter (origin id) scope = (other.enter id scope).rename origin := by
  unfold enter
  cases found : other.block id with
  | error cause =>
    rw [mimics.missing id cause found]
    rfl
  | ok block =>
    obtain ⟨held, held_eq, bounds, children, generic, itself⟩ := mimics.block id block found
    rw [held_eq]
    dsimp only
    by_cases kind : block.kind = .generic
    · rw [if_pos kind, if_pos (generic.mpr kind), itself kind, children]
      simp [Progress.rename, map_rename_inOrder]
    · rw [if_neg kind, if_neg (mt generic.mp kind), bounds, children]
      cases block.bounds with
      | none => rfl
      | some bounds =>
        dsimp only
        cases bounds.resolve scope <;> rfl

theorem step_eq (now : List Pending) :
    program.step (now.map (Pending.rename origin)) = (other.step now).rename origin := by
  cases now with
  | nil => rfl
  | cons first rest =>
    cases first with
    | block id scope =>
      change Progress.andThen (program.enter (origin id) scope) _ = _
      rw [mimics.enter_eq, step, rename_andThen]
    | loop bounds value last body scope =>
      simp only [List.map_cons, Pending.rename, step]
      split
      next => simp [Progress.rename, Pending.rename, map_rename_inOrder]
      next => rfl

/-- Programs do the same with blocks that stand for each other. -/
theorem runs_iff :
    other.Runs now trace ending ↔ program.Runs (now.map (Pending.rename origin)) trace ending := by
  constructor
  · intro runs
    induction runs with
    | paused now => exact .paused _
    | stop ends => exact .stop (by rw [mimics.step_eq, ends]; rfl)
    | on goes _ ih => exact .on (by rw [mimics.step_eq, goes]; rfl) ih
  · intro runs
    -- Conversely, each step of the image is what a step of the other program gives.
    generalize renamed : now.map (Pending.rename origin) = image at runs
    induction runs generalizing now with
    | paused image => exact .paused now
    | stop ends =>
      rw [← renamed, mimics.step_eq] at ends
      cases step : other.step now with
      | stop ending =>
        rw [step] at ends
        cases ends
        exact .stop step
      | on visits next =>
        rw [step] at ends
        cases ends
    | on goes _ ih =>
      rw [← renamed, mimics.step_eq] at goes
      cases step : other.step now with
      | stop ending =>
        rw [step] at goes
        cases goes
      | on visits next =>
        rw [step] at goes
        cases goes
        exact .on step (ih rfl)

end Mimics

/-! ## Outlines -/

end Program

/-- What matters of a block when it is run. -/
def Block.outline {α : Type} (block : Block α) : BlockKind × Option LoopBounds × List BlockId :=
  (block.kind, block.bounds, block.children)

namespace Program

variable {α β : Type} {program : Program α} {other : Program β} {now : List Pending}
  {trace : List Visit} {ending : Ending}

/-- What matters of a program when it is run. -/
def outline (program : Program α) : Array (BlockKind × Option LoopBounds × List BlockId) :=
  program.blocks.map Block.outline

theorem exists_block_of_outline {id : BlockId} {block : Block β}
    (same : other.outline = program.outline) (found : other.block id = .ok block) :
    ∃ held, program.block id = .ok held ∧ held.outline = block.outline := by
  have row := congrArg (fun outline => outline[id.index]?) same
  simp only [outline, Array.getElem?_map, getElem?_of_block found, Option.map_some] at row
  obtain ⟨held, there, outline_eq⟩ := Option.map_eq_some_iff.mp row.symm
  exact ⟨held, block_of_getElem? there, outline_eq⟩

theorem mimics_of_outline (same : other.outline = program.outline) : other.Mimics id program where
  missing block cause missing := by
    obtain ⟨absent, rfl⟩ := getElem?_of_block_error missing
    have row := congrArg (fun outline => outline[block.index]?) same
    simp only [outline, Array.getElem?_map, absent, Option.map_none] at row
    exact block_of_getElem?_none (Option.map_eq_none_iff.mp row.symm)
  block _ block found := by
    obtain ⟨held, there, outline_eq⟩ := exists_block_of_outline same found
    simp only [Block.outline, Prod.mk.injEq] at outline_eq
    obtain ⟨kind, bounds, children⟩ := outline_eq
    exact ⟨held, there, bounds, by rw [children, List.map_id], by rw [kind], fun _ => rfl⟩

theorem map_rename_id (now : List Pending) : now.map (Pending.rename id) = now := by
  have itself (pending : Pending) : pending.rename id = pending := by
    cases pending <;> simp [Pending.rename]
  rw [funext itself, List.map_id']

/-- Programs with one outline do the same. -/
theorem runs_iff_of_outline (same : other.outline = program.outline) :
    other.Runs now trace ending ↔ program.Runs now trace ending := by
  rw [(mimics_of_outline same).runs_iff, map_rename_id]

/-! ## Replacing a loop by a sequential one -/

variable {old : BlockId} {block : Block α} {bounds : LoopBounds}

/-- What was there for the blocks of a program after one of them was replaced. -/
def beforeReplacing (program : Program α) (old id : BlockId) : BlockId :=
  if id = program.nextBlock then old else id

/-- A loop may be replaced by a sequential one with its bounds and its body. -/
theorem mimics_replaceBlock (unlisted : ∀ above, ¬ program.Lists above program.nextBlock)
    (found : program.block old = .ok block) (loop : block.kind ≠ .generic)
    (bounds_eq : block.bounds = some bounds) :
    (program.replaceBlock old (.sequential bounds block.children)).Mimics
      (program.beforeReplacing old) program := by
  have absent {id : BlockId} {held : Block α} (there : program.block id = .ok held) :
      ∀ child ∈ held.children, child ≠ program.nextBlock := by
    rintro child listed rfl
    exact unlisted id (by rwa [Lists, listed_of_block there])
  -- Whether or not a list was changed, it stands for the list that was there.
  have patched {body : List BlockId} (absent : ∀ child ∈ body, child ≠ program.nextBlock) :
      body.map (program.beforeReplacing old) = body ∧
        (body.map fun child => if child = old then program.nextBlock else child).map
          (program.beforeReplacing old) = body := by
    rw [List.map_map]
    constructor
    · refine (List.map_congr_left fun child listed => ?_).trans (List.map_id' body)
      rw [beforeReplacing, if_neg (absent child listed)]
    · refine (List.map_congr_left fun child listed => ?_).trans (List.map_id' body)
      dsimp only [Function.comp_apply]
      split
      next same => rw [beforeReplacing, if_pos rfl, same]
      next => rw [beforeReplacing, if_neg (absent child listed)]
  constructor
  · intro id cause missing
    obtain ⟨none, rfl⟩ := getElem?_of_block_error missing
    rw [getElem?_replaceBlock, Option.map_eq_none_iff, getElem?_addBlock] at none
    split at none
    next => cases none
    next other =>
      rw [beforeReplacing, if_neg other]
      exact block_of_getElem?_none none
  · intro id replaced there
    have row := getElem?_of_block there
    rw [getElem?_replaceBlock, getElem?_addBlock] at row
    obtain ⟨raw, raw_eq, rfl⟩ := Option.map_eq_some_iff.mp row
    -- The new block stands for the old one, and all others for themselves.
    have stands : ∃ held, program.block (program.beforeReplacing old id) = .ok held ∧
        held.bounds = raw.bounds ∧ held.children = raw.children ∧
        (held.kind = .generic ↔ raw.kind = .generic) ∧
        (raw.kind = .generic → program.beforeReplacing old id = id) := by
      unfold beforeReplacing
      split at raw_eq
      next fresh =>
        cases raw_eq
        rw [if_pos fresh]
        exact ⟨block, found, bounds_eq, rfl, iff_of_false loop nofun, nofun⟩
      next other =>
        rw [if_neg other]
        exact ⟨raw, block_of_getElem? raw_eq, rfl, rfl, Iff.rfl, fun _ => rfl⟩
    obtain ⟨held, held_eq, bounds, children, generic, itself⟩ := stands
    have same := patched (children ▸ absent held_eq)
    refine ⟨held, held_eq, ?_⟩
    split
    next => exact ⟨bounds, children.trans same.2.symm, generic, itself⟩
    next => exact ⟨bounds, children.trans same.1.symm, generic, itself⟩

/-- The lists name blocks that are there also after a loop was replaced. -/
theorem IsClosed.replaceBlock (closed : program.IsClosed) (found : program.block old = .ok block) :
    (program.replaceBlock old (.sequential bounds block.children)).IsClosed := by
  intro above below lists
  unfold Lists listed at lists
  rw [getElem?_replaceBlock] at lists
  cases row : (program.addBlock (.sequential bounds block.children)).blocks[above.index]? with
  | none =>
    rw [row] at lists
    cases lists
  | some raw =>
    -- Its list is one that was there, up to the new block.
    have before : ∀ child ∈ raw.children, child.index < program.blocks.size := by
      rw [getElem?_addBlock] at row
      intro child listed
      split at row
      next =>
        cases row
        exact closed old child (by rwa [Lists, listed_of_block found])
      next => exact closed above child (by rwa [Lists, Program.listed, row])
    rw [row, Option.map_some, Option.map_some, Option.getD_some] at lists
    rw [size_replaceBlock]
    split at lists
    next =>
      obtain ⟨child, listed, rfl⟩ := List.mem_map.mp lists
      split
      next => exact Nat.lt_succ_self _
      next => exact Nat.lt_succ_of_lt (before child listed)
    next => exact Nat.lt_succ_of_lt (before below lists)

/-- What a block that was there does is not changed when a loop is replaced. -/
theorem runs_replaceBlock_iff {id : BlockId} {scope : Scope}
    (unlisted : ∀ above, ¬ program.Lists above program.nextBlock)
    (found : program.block old = .ok block) (loop : block.kind ≠ .generic)
    (bounds_eq : block.bounds = some bounds) (there : id ≠ program.nextBlock) :
    (program.replaceBlock old (.sequential bounds block.children)).Runs [.block id scope] trace
        ending ↔ program.Runs [.block id scope] trace ending := by
  have same : [Pending.block id scope].map (Pending.rename (program.beforeReplacing old)) =
      [.block id scope] := by
    simp [Pending.rename, beforeReplacing, there]
  rw [(mimics_replaceBlock unlisted found loop bounds_eq).runs_iff, same]

end Program

end ParallelLoop
