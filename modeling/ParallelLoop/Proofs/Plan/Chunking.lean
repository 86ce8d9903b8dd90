/-
# Running a loop in chunks

A loop that is split into chunks does what it did before. The outer loop runs through the
first values of the chunks; the inner one runs from there to the last value of the chunk
or of the whole loop, whichever comes first. So a loop that stands at some value is matched
by a chunk that stands at this value with the further chunks behind it, or by the further
chunks alone when the next one has not been entered.

The variable of the outer loop is there only after the split. It is left out of the scopes
that are compared, and no block may use its name.
-/

import ParallelLoop.Plan.Variables
import ParallelLoop.Proofs.Plan.Nesting
import ParallelLoop.Proofs.Plan.Running

namespace ParallelLoop

open Word (InSigned signed?)

/-! ## Variables that nobody reads -/

variable {hidden : String} {scope twin : Scope}

/-- A scope without the values of one variable. -/
def Scope.without (hidden : String) (scope : Scope) : Scope :=
  scope.filter fun entry => entry.1 != hidden

/-- A visit as it shows without the values of one variable. -/
def Visit.without (hidden : String) (visit : Visit) : Visit :=
  { visit with scope := Scope.without hidden visit.scope }

/-- The bound does not depend on the variable. -/
def Bound.Avoids (hidden : String) : Bound → Prop
  | const _ => True
  | relative var _ _ => var ≠ hidden

instance (bound : Bound) : Decidable (bound.Avoids hidden) := by
  unfold Bound.Avoids
  split <;> infer_instance

/-- The loop neither sets nor reads the variable. -/
structure LoopBounds.Avoids (hidden : String) (bounds : LoopBounds) : Prop where
  var : bounds.var ≠ hidden
  first : bounds.first.Avoids hidden
  last : bounds.last.Avoids hidden

instance (bounds : LoopBounds) : Decidable (bounds.Avoids hidden) :=
  decidable_of_iff
    (bounds.var ≠ hidden ∧ bounds.first.Avoids hidden ∧ bounds.last.Avoids hidden)
    ⟨fun ⟨var, first, last⟩ => ⟨var, first, last⟩, fun ⟨var, first, last⟩ => ⟨var, first, last⟩⟩

/-- No loop of the program sets or reads the variable. -/
def Program.Avoids {α : Type} (hidden : String) (program : Program α) : Prop :=
  ∀ id block bounds, program.block id = .ok block → block.bounds = some bounds →
    bounds.Avoids hidden

/-- Running a block in a scope shows these visits, if the values of one variable are left out. -/
def Program.Shows {α : Type} (program : Program α) (hidden : String) (id : BlockId) (scope : Scope)
    (trace : List Visit) (ending : Ending) : Prop :=
  ∃ full, program.Runs [.block id scope] full ending ∧ full.map (Visit.without hidden) = trace

theorem Program.avoids_of_all {α : Type} {program : Program α}
    (all : ∀ block ∈ program.blocks.toList, ∀ bounds ∈ block.bounds, bounds.Avoids hidden) :
    program.Avoids hidden := by
  intro id block bounds found bounds_eq
  exact all block (Array.mem_toList_iff.mpr (Array.mem_of_getElem? (getElem?_of_block found)))
    bounds bounds_eq

theorem Program.shows_congr {α β : Type} {program : Program α} {other : Program β} {id : BlockId}
    (same : ∀ trace ending, other.Runs [.block id scope] trace ending ↔
      program.Runs [.block id scope] trace ending) (trace : List Visit) (ending : Ending) :
    other.Shows hidden id scope trace ending ↔ program.Shows hidden id scope trace ending :=
  exists_congr fun full => and_congr_left' (same full ending)

theorem Scope.without_cons_self (value : Int) (scope : Scope) :
    Scope.without hidden ((hidden, value) :: scope) = Scope.without hidden scope := by
  simp [Scope.without]

theorem Scope.without_cons_congr (entry : String × Int)
    (same : Scope.without hidden twin = Scope.without hidden scope) :
    Scope.without hidden (entry :: twin) = Scope.without hidden (entry :: scope) := by
  unfold Scope.without at *
  rw [List.filter_cons, List.filter_cons, same]

theorem Bound.resolve_congr {bound : Bound} (avoids : bound.Avoids hidden)
    (same : Scope.without hidden twin = Scope.without hidden scope) :
    bound.resolve twin = bound.resolve scope := by
  cases bound with
  | const value => rfl
  | relative var offset limit =>
    have found : twin.lookup var = scope.lookup var := by
      rw [← Variables.lookup_filter_ne hidden var avoids,
        ← Variables.lookup_filter_ne hidden var avoids scope]
      exact congrArg _ same
    unfold resolve
    dsimp only
    rw [found]

theorem LoopBounds.resolve_congr {bounds : LoopBounds} (avoids : bounds.Avoids hidden)
    (same : Scope.without hidden twin = Scope.without hidden scope) :
    bounds.resolve twin = bounds.resolve scope := by
  unfold resolve
  rw [Bound.resolve_congr avoids.first same, Bound.resolve_congr avoids.last same]

/-! ## A loop and its chunks -/

/-- A loop with constant bounds that is run in chunks. -/
structure ChunkedLoop where
  top : BlockId
  /-- The block of the inner loop. -/
  inner : BlockId
  bounds : LoopBounds
  body : List BlockId
  first : Int
  last : Int
  /-- Number of iterations in a chunk. -/
  chunk : Nat
  /-- The variable of the outer loop. -/
  hidden : String

namespace ChunkedLoop

/-- The steps of the two loops. -/
def steps (loop : ChunkedLoop) : ChunkSteps :=
  { outer := loop.chunk * loop.bounds.step
    reach := loop.chunk * loop.bounds.step - loop.bounds.step }

/-- The bounds of the outer loop. -/
def outerBounds (loop : ChunkedLoop) : LoopBounds := loop.bounds.chunks loop.hidden loop.steps

/-- The bounds of the inner loop. -/
def innerBounds (loop : ChunkedLoop) : LoopBounds :=
  loop.bounds.withinChunk loop.hidden loop.steps

/-- In the one program the loop is whole, in the other one it is split, and nothing else differs. -/
structure IsSplit {α : Type} (loop : ChunkedLoop) (program after : Program α) : Prop where
  first_eq : loop.bounds.first = .const loop.first
  last_eq : loop.bounds.last = .const loop.last
  first_word : InSigned loop.first
  last_word : InSigned loop.last
  step_pos : 0 < loop.bounds.step
  chunk_pos : 1 ≤ loop.chunk
  whole : ∃ block, program.block loop.top = .ok block ∧ block.kind ≠ .generic ∧
    block.bounds = some loop.bounds ∧ block.children = loop.body
  outer : ∃ block, after.block loop.top = .ok block ∧ block.kind ≠ .generic ∧
    block.bounds = some loop.outerBounds ∧ block.children = [loop.inner]
  inner : ∃ block, after.block loop.inner = .ok block ∧ block.kind ≠ .generic ∧
    block.bounds = some loop.innerBounds ∧ block.children = loop.body
  others : ∀ id, id ≠ loop.top → id ≠ loop.inner → after.block id = program.block id
  different : loop.top ≠ loop.inner
  fresh : ∀ id block, program.block id = .ok block → loop.inner ∉ block.children
  avoids : program.Avoids loop.hidden

open Program

variable {α : Type} {loop : ChunkedLoop} {program after : Program α} {value start : Int}
  {now twin : List Pending}

/-- What is left to be run of the program is matched by what is left of the one after the split. -/
inductive Follows (loop : ChunkedLoop) : List Pending → List Pending → Prop
  | nil : Follows loop [] []
  | block {id : BlockId} {scope twinScope : Scope} {rest twinRest : List Pending}
      (there : id ≠ loop.inner)
      (same : Scope.without loop.hidden twinScope = Scope.without loop.hidden scope)
      (follows : Follows loop rest twinRest) :
      Follows loop (.block id scope :: rest) (.block id twinScope :: twinRest)
  | rounds {bounds : LoopBounds} {value last : Int} {body : List BlockId} {scope twinScope : Scope}
      {rest twinRest : List Pending} (there : loop.inner ∉ body)
      (same : Scope.without loop.hidden twinScope = Scope.without loop.hidden scope)
      (follows : Follows loop rest twinRest) :
      Follows loop (.loop bounds value last body scope :: rest)
        (.loop bounds value last body twinScope :: twinRest)
  /-- The next chunk has not been entered, or there is none. -/
  | between {value start : Int} {scope twinScope : Scope} {rest twinRest : List Pending}
      (above : loop.first ≤ start)
      (aligned : value = start ∨ loop.last < value ∧ loop.last < start)
      (same : Scope.without loop.hidden twinScope = Scope.without loop.hidden scope)
      (follows : Follows loop rest twinRest) :
      Follows loop (.loop loop.bounds value loop.last loop.body scope :: rest)
        (.loop loop.outerBounds start loop.last [loop.inner] twinScope :: twinRest)
  /-- The chunk is about to be entered. -/
  | before {start : Int} {scope twinScope : Scope} {rest twinRest : List Pending}
      (above : loop.first ≤ start) (below : start ≤ loop.last)
      (same : Scope.without loop.hidden twinScope = Scope.without loop.hidden scope)
      (follows : Follows loop rest twinRest) :
      Follows loop (.loop loop.bounds start loop.last loop.body scope :: rest)
        (.block loop.inner ((loop.hidden, start) :: twinScope) ::
          .loop loop.outerBounds (start + loop.steps.outer) loop.last [loop.inner] twinScope ::
          twinRest)
  /-- Some iterations of the chunk are over. -/
  | within {start : Int} {done : Nat} {scope twinScope : Scope} {rest twinRest : List Pending}
      (above : loop.first ≤ start) (below : start ≤ loop.last) (bound : done ≤ loop.chunk)
      (same : Scope.without loop.hidden twinScope = Scope.without loop.hidden scope)
      (follows : Follows loop rest twinRest) :
      Follows loop
        (.loop loop.bounds (start + done * loop.bounds.step) loop.last loop.body scope :: rest)
        (.loop loop.innerBounds (start + done * loop.bounds.step)
            (min (start + loop.steps.reach) loop.last) loop.body
            ((loop.hidden, start) :: twinScope) ::
          .loop loop.outerBounds (start + loop.steps.outer) loop.last [loop.inner] twinScope ::
          twinRest)

/-- Steps that end alike, or go on alike as far as visits show it. -/
inductive StepsFollow (loop : ChunkedLoop) : Progress → Progress → Prop
  | stop (ending : Ending) : StepsFollow loop (.stop ending) (.stop ending)
  | on {visits twinVisits : List Visit} {next twinNext : List Pending}
      (shown : twinVisits.map (Visit.without loop.hidden) =
        visits.map (Visit.without loop.hidden))
      (follows : Follows loop next twinNext) :
      StepsFollow loop (.on visits next) (.on twinVisits twinNext)

theorem Follows.inOrder {body : List BlockId} {scope twinScope : Scope} {rest twinRest : List Pending}
    (there : loop.inner ∉ body)
    (same : Scope.without loop.hidden twinScope = Scope.without loop.hidden scope)
    (follows : Follows loop rest twinRest) :
    Follows loop (Program.inOrder body scope ++ rest)
      (Program.inOrder body twinScope ++ twinRest) := by
  induction body with
  | nil => exact follows
  | cons id body ih =>
    rw [List.mem_cons, not_or] at there
    exact .block (Ne.symm there.1) same (ih there.2)

namespace IsSplit

variable (split : loop.IsSplit program after)

include split

theorem reach_nonneg : 0 ≤ loop.steps.reach := by
  have positive := split.step_pos
  have chunk : (1 : Int) ≤ loop.chunk := by exact_mod_cast split.chunk_pos
  have most := Int.mul_le_mul_of_nonneg_right chunk (Int.le_of_lt positive)
  unfold steps
  dsimp only
  omega

/-- The values of the inner loop in a chunk. -/
theorem resolve_innerBounds (above : loop.first ≤ start) (below : start ≤ loop.last)
    (scope : Scope) :
    loop.innerBounds.resolve ((loop.hidden, start) :: scope) =
      .ok (start, min (start + loop.steps.reach) loop.last) := by
  have word : InSigned start :=
    ⟨Int.le_trans split.first_word.1 above, Int.le_trans below split.last_word.2⟩
  have limit : loop.bounds.limit? = some loop.last := by rw [LoopBounds.limit?, split.last_eq]
  have first : loop.innerBounds.first.resolve ((loop.hidden, start) :: scope) = .ok start := by
    simp [innerBounds, LoopBounds.withinChunk, Bound.resolve, signed?, word]
  have last : loop.innerBounds.last.resolve ((loop.hidden, start) :: scope) =
      .ok (min (start + loop.steps.reach) loop.last) := by
    simp only [innerBounds, LoopBounds.withinChunk, limit, Bound.resolve, List.lookup_cons_self]
    by_cases fits : InSigned (start + loop.steps.reach)
    · rw [signed?, if_pos fits]
    · -- The sum is beyond the largest word, so the last value of the loop is the limit.
      have reach := split.reach_nonneg
      have top := split.last_word.2
      rw [signed?, if_neg fits]
      unfold InSigned at fits word
      dsimp only
      rw [if_pos (by omega), Int.min_eq_right (by omega)]
  rw [LoopBounds.resolve, first, last]
  rfl

/-- A block that is there in both programs. -/
theorem enter_follows {id : BlockId} {scope twinScope : Scope} {rest twinRest : List Pending}
    (there : id ≠ loop.inner)
    (same : Scope.without loop.hidden twinScope = Scope.without loop.hidden scope)
    (follows : Follows loop rest twinRest) :
    StepsFollow loop (Progress.andThen (program.enter id scope) rest)
      (Progress.andThen (after.enter id twinScope) twinRest) := by
  unfold enter
  by_cases here : id = loop.top
  · -- Both run through the same range, in steps or in chunks.
    have range : loop.bounds.resolve scope = .ok (loop.first, loop.last) := by
      rw [LoopBounds.resolve, split.first_eq, split.last_eq]
      rfl
    have twinRange : loop.outerBounds.resolve twinScope = .ok (loop.first, loop.last) := by
      rw [LoopBounds.resolve, outerBounds, LoopBounds.chunks, split.first_eq, split.last_eq]
      rfl
    obtain ⟨block, found, kind, bounds, children⟩ := split.whole
    obtain ⟨outer, twinFound, twinKind, twinBounds, twinChildren⟩ := split.outer
    rw [here, found, twinFound]
    dsimp only
    rw [if_neg kind, if_neg twinKind, bounds, twinBounds, children, twinChildren]
    dsimp only
    rw [range, twinRange]
    exact .on rfl (.between (Int.le_refl _) (.inl rfl) same follows)
  · -- Any other block is the same in both, and reads none of the hidden variable.
    rw [split.others id here there]
    cases found : program.block id with
    | error cause => exact .stop _
    | ok block =>
      have fresh := split.fresh id block found
      dsimp only
      split
      next =>
        refine .on ?_ (follows.inOrder fresh same)
        simp only [List.map_cons, List.map_nil, Visit.without, same]
      next =>
        cases held : block.bounds with
        | none => exact .stop _
        | some bounds =>
          dsimp only
          rw [LoopBounds.resolve_congr (split.avoids id block bounds found held) same]
          cases bounds.resolve scope with
          | error cause => exact .stop _
          | ok range => exact .on rfl (.rounds fresh same follows)

/-- A chunk that is not empty is entered at its first value. -/
theorem step_before (above : loop.first ≤ start) (below : start ≤ loop.last) (scope : Scope)
    (rest : List Pending) :
    after.step (.block loop.inner ((loop.hidden, start) :: scope) :: rest) =
      .on [] (.loop loop.innerBounds start (min (start + loop.steps.reach) loop.last) loop.body
        ((loop.hidden, start) :: scope) :: rest) := by
  obtain ⟨block, found, kind, bounds, children⟩ := split.inner
  rw [step, enter, found]
  dsimp only
  rw [if_neg kind, bounds]
  dsimp only
  rw [split.resolve_innerBounds above below, children]
  rfl

/-- The inner loop goes on as long as the chunk and the whole loop do. -/
theorem stays_iff (start : Int) (done : Nat) :
    start + done * loop.bounds.step ≤ min (start + loop.steps.reach) loop.last ↔
      done < loop.chunk ∧ start + done * loop.bounds.step ≤ loop.last := by
  have inChunk : start + done * loop.bounds.step ≤ start + loop.steps.reach ↔
      done < loop.chunk := by
    have reach : loop.steps.reach = ((loop.chunk : Int) - 1) * loop.bounds.step := by
      rw [Int.sub_mul, Int.one_mul]
      rfl
    rw [reach, Int.add_le_add_iff_left, Int.mul_le_mul_iff_of_pos_right split.step_pos]
    omega
  rw [Int.le_min, inChunk]

/-- A round of the inner loop is a round of the whole loop. -/
theorem round_within {done : Nat} {scope twinScope : Scope} {rest twinRest : List Pending}
    (above : loop.first ≤ start) (below : start ≤ loop.last) (bound : done < loop.chunk)
    (same : Scope.without loop.hidden twinScope = Scope.without loop.hidden scope)
    (follows : Follows loop rest twinRest) (value : Int)
    (value_eq : value = start + done * loop.bounds.step) :
    Follows loop
      (Program.inOrder loop.body ((loop.bounds.var, value) :: scope) ++
        .loop loop.bounds (value + loop.bounds.step) loop.last loop.body scope :: rest)
      (Program.inOrder loop.body ((loop.bounds.var, value) :: (loop.hidden, start) :: twinScope) ++
        .loop loop.innerBounds (value + loop.bounds.step)
            (min (start + loop.steps.reach) loop.last) loop.body
            ((loop.hidden, start) :: twinScope) ::
          .loop loop.outerBounds (start + loop.steps.outer) loop.last [loop.inner] twinScope ::
          twinRest) := by
  obtain ⟨block, found, -, -, children⟩ := split.whole
  have fresh : loop.inner ∉ loop.body := children ▸ split.fresh _ block found
  -- One iteration more of the chunk is over.
  have next : value + loop.bounds.step = start + (done + 1 : Nat) * loop.bounds.step := by
    rw [value_eq, Int.natCast_succ, Int.add_mul, Int.one_mul, Int.add_assoc]
  rw [next]
  refine .inOrder fresh (Scope.without_cons_congr _ ?_) (.within above below bound same follows)
  rw [Scope.without_cons_self, same]

/-- Where the inner loop is left, the next chunk starts or the whole loop is over. -/
theorem next_chunk {done : Nat} (above : loop.first ≤ start) (bound : done ≤ loop.chunk)
    (leaves : ¬ (done < loop.chunk ∧ start + done * loop.bounds.step ≤ loop.last)) :
    loop.first ≤ start + loop.steps.outer ∧
      (start + done * loop.bounds.step = start + loop.steps.outer ∨
        loop.last < start + done * loop.bounds.step ∧ loop.last < start + loop.steps.outer) := by
  have positive := split.step_pos
  have reach := split.reach_nonneg
  have outer : loop.steps.outer = loop.chunk * loop.bounds.step := rfl
  have reach_eq : loop.steps.reach = loop.steps.outer - loop.bounds.step := rfl
  refine ⟨by omega, ?_⟩
  obtain rfl | earlier := Nat.eq_or_lt_of_le bound
  · exact .inl rfl
  · have beyond : loop.last < start + done * loop.bounds.step :=
      Int.not_le.mp fun stays => leaves ⟨earlier, stays⟩
    have before := Int.mul_le_mul_of_nonneg_right (Int.ofNat_le.mpr bound) (Int.le_of_lt positive)
    exact .inr ⟨beyond, by omega⟩

/-- Between two chunks, a round of the whole loop is the first one of the next chunk. -/
theorem forward_between {scope twinScope : Scope} {rest twinRest : List Pending}
    {visits : List Visit} {next : List Pending} (above : loop.first ≤ start)
    (aligned : value = start ∨ loop.last < value ∧ loop.last < start)
    (same : Scope.without loop.hidden twinScope = Scope.without loop.hidden scope)
    (follows : Follows loop rest twinRest)
    (goes : program.step (.loop loop.bounds value loop.last loop.body scope :: rest) =
      .on visits next) :
    ∃ twinNext, visits = [] ∧ Follows loop next twinNext ∧
      after.LeadsTo (.loop loop.outerBounds start loop.last [loop.inner] twinScope :: twinRest) []
        twinNext := by
  rw [step] at goes
  split at goes
  next stays =>
    cases goes
    obtain rfl | ⟨beyond, -⟩ := aligned
    · have chunk := split.chunk_pos
      refine ⟨_, rfl, split.round_within above stays chunk same follows value (by simp), ?_⟩
      -- The outer loop takes a round, the chunk is entered, and the inner loop takes one.
      refine .trans (.of_step (step_round stays ..))
        (.trans (.of_step (split.step_before above stays ..)) (.of_step (step_round ?_ ..)))
      have inner := (split.stays_iff value 0).mpr ⟨chunk, by simpa using stays⟩
      simpa using inner
    · omega
  next leaves =>
    cases goes
    have beyond : ¬ start ≤ loop.last := by omega
    exact ⟨_, rfl, follows, .of_step (step_leave beyond ..)⟩

/-- Whatever the whole loop does next, the split one does, too. -/
theorem forward {visits : List Visit} {next : List Pending} (matched : Follows loop now twin)
    (goes : program.step now = .on visits next) :
    ∃ twinVisits twinNext, after.LeadsTo twin twinVisits twinNext ∧ Follows loop next twinNext ∧
      twinVisits.map (Visit.without loop.hidden) = visits.map (Visit.without loop.hidden) := by
  cases matched with
  | nil => cases goes
  | block there same follows =>
    -- The two are at the same block and step together.
    have both := split.enter_follows there same follows
    rw [step] at goes
    rw [goes] at both
    cases twinStep : Progress.andThen (after.enter _ _) _ with
    | stop ending => rw [twinStep] at both; cases both
    | on twinVisits twinNext =>
      rw [twinStep] at both
      cases both with
      | on shown follows => exact ⟨twinVisits, twinNext, .of_step twinStep, follows, shown⟩
  | rounds there same follows =>
    rw [step] at goes
    split at goes
    next stays =>
      cases goes
      exact ⟨[], _, .of_step (step_round stays ..),
        .inOrder there (Scope.without_cons_congr _ same) (.rounds there same follows), rfl⟩
    next leaves =>
      cases goes
      exact ⟨[], _, .of_step (step_leave leaves ..), follows, rfl⟩
  | between above aligned same follows =>
    obtain ⟨twinNext, rfl, matched, leads⟩ :=
      split.forward_between above aligned same follows goes
    exact ⟨[], twinNext, leads, matched, rfl⟩
  | @before start scope twinScope rest twinRest above below same follows =>
    -- The split loop enters the chunk before it takes the round.
    have chunk := split.chunk_pos
    rw [step_round below] at goes
    cases goes
    refine ⟨[], _, .trans (.of_step (split.step_before above below ..))
      (.of_step (step_round ?_ ..)), split.round_within above below chunk same follows start
        (by simp), rfl⟩
    have inner := (split.stays_iff start 0).mpr ⟨chunk, by simpa using below⟩
    simpa using inner
  | @within start done scope twinScope rest twinRest above below bound same follows =>
    by_cases stays : done < loop.chunk ∧ start + done * loop.bounds.step ≤ loop.last
    · rw [step_round stays.2] at goes
      cases goes
      exact ⟨[], _, .of_step (step_round ((split.stays_iff start done).mpr stays) ..),
        split.round_within above below stays.1 same follows _ rfl, rfl⟩
    · -- The inner loop is left first, and then the loops are between two chunks.
      obtain ⟨next, aligned⟩ := split.next_chunk above bound stays
      obtain ⟨twinNext, rfl, matched, leads⟩ := split.forward_between next aligned same follows goes
      have leaves := mt (split.stays_iff start done).mp stays
      exact ⟨[], twinNext, .trans (.of_step (step_leave leaves ..)) leads, matched, rfl⟩

/-- Whatever the split loop does next, the whole one does at this moment or has done before. -/
theorem backward {visits : List Visit} {next : List Pending} (matched : Follows loop now twin)
    (goes : after.step twin = .on visits next) :
    ∃ nowVisits nowNext, program.LeadsTo now nowVisits nowNext ∧ Follows loop nowNext next ∧
      nowVisits.map (Visit.without loop.hidden) = visits.map (Visit.without loop.hidden) := by
  cases matched with
  | nil => cases goes
  | block there same follows =>
    have both := split.enter_follows there same follows
    rw [step] at goes
    rw [goes] at both
    cases nowStep : Progress.andThen (program.enter _ _) _ with
    | stop ending => rw [nowStep] at both; cases both
    | on nowVisits nowNext =>
      rw [nowStep] at both
      cases both with
      | on shown follows => exact ⟨nowVisits, nowNext, .of_step nowStep, follows, shown.symm⟩
  | rounds there same follows =>
    rw [step] at goes
    split at goes
    next stays =>
      cases goes
      exact ⟨[], _, .of_step (step_round stays ..),
        .inOrder there (Scope.without_cons_congr _ same) (.rounds there same follows), rfl⟩
    next leaves =>
      cases goes
      exact ⟨[], _, .of_step (step_leave leaves ..), follows, rfl⟩
  | between above aligned same follows =>
    rw [step] at goes
    split at goes
    next stays =>
      -- Only the outer loop moves.
      cases goes
      obtain rfl | ⟨-, beyond⟩ := aligned
      · exact ⟨[], _, .refl program _, .before above stays same follows, rfl⟩
      · omega
    next leaves =>
      cases goes
      have beyond := Int.not_le.mpr (aligned.elim (fun same => same ▸ Int.not_le.mp leaves) And.left)
      exact ⟨[], _, .of_step (step_leave beyond ..), follows, rfl⟩
  | @before start scope twinScope rest twinRest above below same follows =>
    -- Entering the chunk is not noticed by the whole loop.
    rw [split.step_before above below] at goes
    cases goes
    have within := Follows.within above below (Nat.zero_le _) same follows
    refine ⟨[], _, .refl program _, ?_, rfl⟩
    simpa using within
  | @within start done scope twinScope rest twinRest above below bound same follows =>
    by_cases stays : done < loop.chunk ∧ start + done * loop.bounds.step ≤ loop.last
    · rw [step_round ((split.stays_iff start done).mpr stays)] at goes
      cases goes
      exact ⟨[], _, .of_step (step_round stays.2 ..),
        split.round_within above below stays.1 same follows _ rfl, rfl⟩
    · -- The inner loop is left, which the whole loop does not notice.
      obtain ⟨next, aligned⟩ := split.next_chunk above bound stays
      rw [step_leave (mt (split.stays_iff start done).mp stays)] at goes
      cases goes
      exact ⟨[], _, .refl program _, .between next aligned same follows, rfl⟩

/-- Runs that are over in one program are over in the other. -/
theorem stop_iff {ending : Ending} (matched : Follows loop now twin) :
    program.step now = .stop ending ↔ after.step twin = .stop ending := by
  cases matched with
  | nil => exact Iff.rfl
  | block there same follows =>
    have both := split.enter_follows there same follows
    rw [step, step]
    generalize Progress.andThen (program.enter _ _) _ = ahead at both ⊢
    generalize Progress.andThen (after.enter _ _) _ = twinAhead at both ⊢
    cases both <;> simp
  | rounds there same follows =>
    rw [step, step]
    split <;> simp
  | between above aligned same follows =>
    rw [step, step]
    split <;> split <;> simp
  | before above below same follows =>
    rw [split.step_before above below, step_round below]
    simp
  | within above below bound same follows =>
    rw [step, step]
    split <;> split <;> simp

/-- A block shows the same before and after the split. -/
theorem shows_iff {id : BlockId} {scope : Scope} {trace : List Visit} {ending : Ending}
    (there : id ≠ loop.inner) :
    after.Shows loop.hidden id scope trace ending ↔
      program.Shows loop.hidden id scope trace ending := by
  have start : Follows loop [.block id scope] [.block id scope] := .block there rfl .nil
  constructor
  · rintro ⟨full, runs, rfl⟩
    exact Runs.simulate (fun twin now => Follows loop now twin)
      (fun _ _ _ matched ends => .stop ((split.stop_iff matched).mpr ends))
      (fun _ _ _ _ matched goes => split.backward matched goes) runs start
  · rintro ⟨full, runs, rfl⟩
    exact Runs.simulate (Follows loop)
      (fun _ _ _ matched ends => .stop ((split.stop_iff matched).mp ends))
      (fun _ _ _ _ matched goes => split.forward matched goes) runs start

end IsSplit

end ChunkedLoop

end ParallelLoop
