/-
# Iterations whose values are in reach

The iterations of a range are counted on unbounded integers, so a range may stretch over nearly all
signed words and still be accepted, as long as its count is an unsigned one. Its values are computed
on signed words: first the distance from the first value, and then the value itself. The value lies
between the bounds and is a signed word, but the distance to it need not be one.

`IterationRange.InReach` says that it is. `IterationRange.computes_iff_inReach` says that this is
all that matters: an iteration in reach is computed exactly, as is a slice or a task whose last
iteration is in reach, and all others stop with an overflow. When the bounds themselves are no
further apart than a signed word, every iteration is in reach.
-/

import ParallelLoop.Proofs.Task.Creation

namespace ParallelLoop

/-! ## Computations that overflow -/

/-- Nothing but an overflow stops the computation. -/
def StopsAtOverflow {α : Type} (outcome : Except Failure α) : Prop :=
  ∀ cause, outcome = .error cause → cause = .abort .overflow

namespace StopsAtOverflow

variable {α β : Type} {outcome : Except Failure α}

theorem ok (value : α) : StopsAtOverflow (.ok value) := nofun

theorem orOverflow (value : Option α) : StopsAtOverflow (ParallelLoop.orOverflow value) := by
  rintro cause stopped
  cases value with
  | none =>
    cases stopped
    rfl
  | some value => cases stopped

theorem bind {next : α → Except Failure β} (first : StopsAtOverflow outcome)
    (later : ∀ value, StopsAtOverflow (next value)) : StopsAtOverflow (outcome >>= next) := by
  intro cause stopped
  cases outcome with
  | error own =>
    cases stopped
    exact first _ rfl
  | ok value => exact later value cause stopped

theorem map (change : α → β) (only : StopsAtOverflow outcome) :
    StopsAtOverflow (change <$> outcome) := by
  intro cause stopped
  cases outcome with
  | error own =>
    cases stopped
    exact only _ rfl
  | ok value => cases stopped

/-- A computation that does not succeed stops with an overflow. -/
theorem eq_overflow (only : StopsAtOverflow outcome) (fails : ∀ value, outcome ≠ .ok value) :
    outcome = .error (.abort .overflow) := by
  cases outcome with
  | error cause => rw [only cause rfl]
  | ok value => exact absurd rfl (fails value)

end StopsAtOverflow

namespace IterationRange

variable {range : IterationRange} {start count index : Nat}

theorem stopsAtOverflow_valueAt (range : IterationRange) (index : Nat) :
    StopsAtOverflow (range.valueAt index) :=
  .bind (.orOverflow _) fun _ => .orOverflow _

theorem stopsAtOverflow_slice (range : IterationRange) (start count : Nat) :
    StopsAtOverflow (range.slice start count) :=
  .bind (.orOverflow _) fun _ => .bind (range.stopsAtOverflow_valueAt _) fun _ =>
    .bind (range.stopsAtOverflow_valueAt _) fun _ => .ok _

theorem stopsAtOverflow_valuesFrom (range : IterationRange) (start count : Nat) :
    StopsAtOverflow (range.valuesFrom start count) := by
  induction count generalizing start with
  | zero => exact .ok _
  | succ count ih =>
    exact .bind (range.stopsAtOverflow_valueAt _) fun _ => .bind (ih _) fun _ => .ok _

end IterationRange

theorem Partitioner.stopsAtOverflow_taskAt (partitioner : Partitioner) (start : Nat)
    (shape : TaskShape) : StopsAtOverflow (partitioner.taskAt start shape) := by
  unfold taskAt
  dsimp only
  split
  · exact .bind (.map _ (partitioner.space.range.stopsAtOverflow_slice _ _)) fun _ => .ok _
  · exact .bind (.map _ (partitioner.space.range.stopsAtOverflow_valuesFrom _ _)) fun _ => .ok _

/-! ## Iterations in reach -/

namespace IterationRange

variable {range : IterationRange} {start count index : Nat} {first last step : Int}

/-- The distance from the first value to the one of this iteration is a signed word. -/
def InReach (range : IterationRange) (index : Nat) : Prop := index * range.step ≤ Word.maxSigned

instance (range : IterationRange) (index : Nat) : Decidable (range.InReach index) :=
  Int.decLe ..

/-- The iteration is computed as on unbounded integers. Its index reads as it is, the distance is a
signed word, and the value lies between the bounds. -/
structure ComputesAt (range : IterationRange) (index : Nat) : Prop where
  read : Word.reinterpret index = index
  distance : Word.InSigned (index * range.step)
  first_le : range.first ≤ range.point index
  le_last : range.point index ≤ range.last
  value : range.valueAt index = .ok (range.point index)

/-- What was accepted is the range with these bounds, and it is counted. -/
theorem of_ofBounds (accepted : ofBounds first last step = .ok range) :
    range = { first, last, step } ∧ range.IsCounted := by
  obtain ⟨count, counted, rfl⟩ := Outcome.of_map accepted
  exact ⟨rfl, step_pos_of_iterationCount counted, count, counted⟩

namespace IsCounted

variable (counted : range.IsCounted) (firstSigned : Word.InSigned range.first)
  (lastSigned : Word.InSigned range.last)
include counted

/-- In a range between bounds that are a signed word apart, every iteration is in reach. -/
theorem inReach_of_span (span : range.last - range.first ≤ Word.maxSigned)
    (within : index < range.size) : range.InReach index := by
  have reached := counted.lt_size_iff.mp within
  unfold point at reached
  unfold InReach
  omega

include firstSigned lastSigned

theorem computesAt (within : index < range.size) (near : range.InReach index) :
    range.ComputesAt index := by
  have forward := counted.step_pos
  have wide : (index : Int) * 1 ≤ index * range.step :=
    Int.mul_le_mul_of_nonneg_left forward (by omega)
  have narrow := IsNarrow.of_near counted firstSigned lastSigned within near
  unfold InReach at near
  exact {
    read := Word.reinterpret_of_le (by omega)
    distance := ⟨by unfold Word.minSigned; omega, near⟩
    first_le := by unfold point; omega
    le_last := counted.lt_size_iff.mp within
    value := narrow.valueAt_eq narrow.lt_size_of_near }

omit firstSigned in
theorem valueAt_of_not_inReach (within : index < range.size) (far : ¬ range.InReach index) :
    range.valueAt index = .error (.abort .overflow) :=
  (range.stopsAtOverflow_valueAt index).eq_overflow fun _ computed =>
    far (counted.of_valueAt lastSigned within computed).2.2

/-- A slice is found from its first and its last value. -/
theorem slice_eq_ite (within : start + max count 1 ≤ range.size) :
    range.slice start count =
      if range.InReach (start + max count 1 - 1) then
        .ok { first := range.point start, last := range.point (start + max count 1 - 1)
              step := range.step }
      else .error (.abort .overflow) := by
  have inside : start + max count 1 - 1 < range.size := by omega
  split
  next near =>
    have narrow := IsNarrow.of_near counted firstSigned lastSigned inside near
    have whole := narrow.lt_size_of_near
    have same : range.slice start count = range.slice start (max count 1) := by
      rw [slice, slice, Nat.max_eq_left (Nat.le_max_right count 1)]
    rw [same]
    exact narrow.slice_eq (Nat.le_max_right count 1) (by omega)
  next far =>
    refine (range.stopsAtOverflow_slice start count).eq_overflow fun _ sliced => ?_
    obtain ⟨value, computed⟩ := Partitioner.exists_valueAt_of_slice sliced
    exact far (counted.of_valueAt lastSigned inside computed).2.2

/-- A task is created from the values of its iterations, or from a slice. -/
theorem nextTask_of_nextCut {partitioner : Partitioner} {cursor next : TaskCursor}
    {shape : TaskShape} (range_eq : partitioner.space.range = range)
    (cut : partitioner.nextCut cursor = .ok (some (shape, next))) :
    if range.InReach (next.handedOut - 1) then
      ∃ task, partitioner.nextTask cursor = .ok (some (task, next)) ∧
        task.Covers range cursor.handedOut shape.size
    else partitioner.nextTask cursor = .error (.abort .overflow) := by
  subst range_eq
  obtain ⟨nonempty, advance, within⟩ := Partitioner.of_nextCut cut
  rw [advance] at within
  rw [advance, Partitioner.nextTask, cut, Outcome.ok_bind]
  dsimp only
  split
  next near =>
    obtain ⟨task, created, covers⟩ :=
      Partitioner.taskAt_of_near counted firstSigned lastSigned nonempty within near
    rw [created]
    exact ⟨task, rfl, covers⟩
  next far =>
    -- The last value of the task is out of reach, and nothing but an overflow can stop it.
    have stopped : partitioner.taskAt cursor.handedOut shape = .error (.abort .overflow) := by
      refine (partitioner.stopsAtOverflow_taskAt _ _).eq_overflow fun task created => ?_
      obtain ⟨value, computed⟩ := Partitioner.exists_last_of_taskAt nonempty created
      exact far (counted.of_valueAt lastSigned
        (show cursor.handedOut + shape.size - 1 < partitioner.total by omega) computed).2.2
    rw [stopped]
    rfl

end IsCounted

/-- An iteration of an accepted range is computed exactly if the distance to it is a signed word,
and stops with an overflow otherwise. The same holds of a slice with its last iteration, and of
every task of every partitioner with the last iteration of the task, up to the values that the task
runs. -/
theorem computes_iff_inReach (firstSigned : Word.InSigned first) (lastSigned : Word.InSigned last)
    (accepted : ofBounds first last step = .ok range) :
    (∀ index < range.size,
      if range.InReach index then range.ComputesAt index
      else range.valueAt index = .error (.abort .overflow)) ∧
    (∀ start count, start + max count 1 ≤ range.size →
      range.slice start count =
        if range.InReach (start + max count 1 - 1) then
          .ok { first := range.point start, last := range.point (start + max count 1 - 1), step }
        else .error (.abort .overflow)) ∧
    ∀ (partitioner : Partitioner) (cursor next : TaskCursor) (shape : TaskShape),
      partitioner.space.range = range →
      partitioner.nextCut cursor = .ok (some (shape, next)) →
      if range.InReach (next.handedOut - 1) then
        ∃ task, partitioner.nextTask cursor = .ok (some (task, next)) ∧
          task.Covers range cursor.handedOut shape.size
      else partitioner.nextTask cursor = .error (.abort .overflow) := by
  obtain ⟨rfl, counted⟩ := of_ofBounds accepted
  refine ⟨fun index within => ?_, fun start count within => ?_, ?_⟩
  · split
    next near => exact counted.computesAt firstSigned lastSigned within near
    next far => exact counted.valueAt_of_not_inReach lastSigned within far
  · exact counted.slice_eq_ite firstSigned lastSigned within
  · intro partitioner cursor next shape range_eq cut
    exact counted.nextTask_of_nextCut firstSigned lastSigned range_eq cut

/-- Every second signed word. -/
def everySecond : IterationRange := { first := -2 ^ 63, last := 2 ^ 63 - 1, step := 2 }

/-- The last value in reach is minus two. -/
theorem computes_iff_inReach_everySecond :
    ofBounds (-2 ^ 63) (2 ^ 63 - 1) 2 = .ok everySecond ∧
      everySecond.valueAt (2 ^ 62 - 1) = .ok (-2) ∧
      everySecond.slice (2 ^ 62 - 2) 3 = .error (.abort .overflow) := by
  have accepted : ofBounds (-2 ^ 63) (2 ^ 63 - 1) 2 = .ok everySecond := rfl
  obtain ⟨values, slices, -⟩ := computes_iff_inReach (by decide) (by decide) accepted
  have computed := values (2 ^ 62 - 1) (by decide)
  rw [if_pos (by decide)] at computed
  exact ⟨accepted, computed.value, slices (2 ^ 62 - 2) 3 (by decide)⟩

/-- The value in the middle is zero, but the distance to it is no signed word. -/
theorem not_computesAt_everySecond :
    ofBounds (-2 ^ 63) (2 ^ 63 - 1) 2 = .ok everySecond ∧ 2 ^ 62 < everySecond.size ∧
      everySecond.point (2 ^ 62) = 0 ∧
      everySecond.valueAt (2 ^ 62) = .error (.abort .overflow) :=
  ⟨rfl, by decide, by decide, by decide⟩

end IterationRange

end ParallelLoop
