/-
# The values of a loop

`loopValues` runs the loop `for v from first to last by step` and collects the values
of its variable. A range stands for such a loop, and computes single values by
multiplication on words. As long as the distance between the bounds is a signed word,
no intermediate result leaves the words: the values computed for the indices below the
size are those of the loop, in its order, and so are the values of every slice.
-/

import Mathlib.Tactic.Positivity
import Mathlib.Tactic.Ring
import ParallelLoop.Proofs.Change
import ParallelLoop.Task.Iteration

namespace ParallelLoop

/-- A count with the sign bit set reads as a negative word. -/
theorem Word.reinterpret_of_lt {count : Nat} (few : count < 2 ^ 64)
    (large : maxSigned < count) : reinterpret count = count - (2 ^ 64 : Int) := by
  unfold maxSigned at large
  have shifted := Int.sub_bmod_right count (2 ^ 64)
  have small : Int.bmod (count - (2 ^ 64 : Nat)) (2 ^ 64) = count - (2 ^ 64 : Nat) :=
    Int.bmod_eq_of_le (by omega) (by omega)
  exact shifted.symm.trans small

theorem Word.of_orOverflow {value word : Int} (done : orOverflow (signed? value) = .ok word) :
    InSigned value ∧ word = value := by
  cases fits : signed? value with
  | none =>
    rw [fits] at done
    cases done
  | some result =>
    rw [fits] at done
    cases done
    exact signed?_eq_some_iff.mp fits

/-- A loop that is counted moves forward. -/
theorem step_pos_of_iterationCount {first last step : Int} {count : Nat}
    (counted : iterationCount first last step = .ok count) : 0 < step := by
  by_contra backward
  rw [iterationCount, if_pos (Int.not_lt.mp backward)] at counted
  cases counted

theorem le_maxCount_of_iterationCount {first last step : Int} {count : Nat}
    (counted : iterationCount first last step = .ok count) : count ≤ Word.maxCount := by
  unfold iterationCount at counted
  split at counted
  next => cases counted
  next =>
    split at counted
    next =>
      cases counted
      exact Nat.zero_le _
    next =>
      dsimp only at counted
      split at counted
      next fits =>
        cases counted
        exact fits
      next => cases counted

/-- The values that the variable of a loop takes. A loop that does not move forward has none. -/
def loopValues (first last step : Int) : List Int :=
  if 0 < step ∧ first ≤ last then first :: loopValues (first + step) last step else []
termination_by (last - first + 1).toNat
decreasing_by omega

namespace IterationRange

variable {range : IterationRange} {start count index : Nat}

/-- The value of an iteration on unbounded integers. -/
def point (range : IterationRange) (index : Nat) : Int := range.first + index * range.step

/-- A range that moves forward and whose iterations can be counted. -/
structure IsCounted (range : IterationRange) : Prop where
  step_pos : 0 < range.step
  counted : ∃ count, iterationCount range.first range.last range.step = .ok count

/-- A range that moves forward between signed bounds whose distance is a signed word. -/
structure IsNarrow (range : IterationRange) : Prop where
  step_pos : 0 < range.step
  first_inSigned : Word.InSigned range.first
  last_inSigned : Word.InSigned range.last
  span_le : range.last - range.first ≤ Word.maxSigned

theorem point_zero (range : IterationRange) : range.point 0 = range.first := by
  simp [point]

theorem point_succ (range : IterationRange) (index : Nat) :
    range.point (index + 1) = range.point index + range.step := by
  unfold point
  push_cast
  ring

namespace IsCounted

theorem size_eq (counted : range.IsCounted) :
    range.size =
      if range.last < range.first then 0
      else ((range.last - range.first) / range.step + 1).toNat := by
  obtain ⟨forward, count, done⟩ := counted
  rw [size, done]
  rw [iterationCount, if_neg (by omega)] at done
  dsimp only at done ⊢
  split at done
  next empty =>
    rw [if_pos empty]
    exact (Except.ok.inj done).symm
  next nonempty =>
    split at done
    next =>
      rw [if_neg nonempty]
      exact (Except.ok.inj done).symm
    next => cases done

/-- The indices of a range are those whose values do not exceed the last bound. -/
theorem lt_size_iff (counted : range.IsCounted) :
    index < range.size ↔ range.point index ≤ range.last := by
  have forward := counted.step_pos
  rw [counted.size_eq]
  unfold point
  split
  next empty =>
    have : (0 : Int) ≤ index * range.step := by positivity
    omega
  next nonempty =>
    have nonneg : 0 ≤ (range.last - range.first) / range.step :=
      Int.ediv_nonneg (by omega) (by omega)
    have reached := Int.le_ediv_iff_mul_le (a := (index : Int))
      (b := range.last - range.first) forward
    omega

/-- The value of an iteration, if it can be computed. The distance to it is a signed word then, so
iterations that are too many to be counted with one have no value. -/
theorem of_valueAt (counted : range.IsCounted) (lastSigned : Word.InSigned range.last)
    (within : index < range.size) {value : Int}
    (computed : range.valueAt index = .ok value) :
    value = range.point index ∧ Word.InSigned value ∧ index * range.step ≤ Word.maxSigned := by
  have forward := counted.step_pos
  have reached := counted.lt_size_iff.mp within
  have few : index < 2 ^ 64 := by
    obtain ⟨-, count, done⟩ := counted
    have most := le_maxCount_of_iterationCount done
    unfold Word.maxCount at most
    rw [size, done] at within
    dsimp only at within
    omega
  obtain ⟨distance, product, sum⟩ := Outcome.of_bind computed
  obtain ⟨productSigned, distance_eq⟩ := Word.of_orOverflow product
  obtain ⟨sumSigned, value_eq⟩ := Word.of_orOverflow sum
  unfold point at reached ⊢
  -- Read as a signed word, an index with the top bit set leads below all signed words.
  have plain : Word.reinterpret index = index := by
    apply Word.reinterpret_of_le
    by_contra large
    rw [distance_eq, Word.reinterpret_of_lt few (by omega), sub_mul] at sumSigned
    simp only [Word.InSigned, Word.minSigned, Word.maxSigned] at *
    omega
  rw [plain] at distance_eq productSigned
  rw [distance_eq] at value_eq sumSigned
  exact ⟨value_eq, value_eq ▸ sumSigned, productSigned.2⟩

end IsCounted

namespace IsNarrow

/-- A narrow range can be counted. -/
theorem iterationCount_eq (narrow : range.IsNarrow) :
    iterationCount range.first range.last range.step =
      .ok (if range.last < range.first then 0
        else ((range.last - range.first) / range.step + 1).toNat) := by
  have forward := narrow.step_pos
  have span := narrow.span_le
  unfold iterationCount
  rw [if_neg (by omega)]
  split
  next => rfl
  next ordered =>
    have quotient : (range.last - range.first) / range.step ≤ range.last - range.first :=
      Int.ediv_le_self _ (by omega)
    have fits : ((range.last - range.first) / range.step + 1).toNat ≤ Word.maxCount := by
      unfold Word.maxSigned at span
      unfold Word.maxCount
      omega
    dsimp only
    rw [if_pos fits]

theorem isCounted (narrow : range.IsNarrow) : range.IsCounted :=
  ⟨narrow.step_pos, _, narrow.iterationCount_eq⟩

theorem size_le (narrow : range.IsNarrow) : range.size ≤ 2 ^ 63 := by
  have forward := narrow.step_pos
  have span := narrow.span_le
  rw [narrow.isCounted.size_eq]
  unfold Word.maxSigned at span
  split
  · exact Nat.zero_le _
  · have quotient : (range.last - range.first) / range.step ≤ range.last - range.first :=
      Int.ediv_le_self _ (by omega)
    omega

/-- Computing the value of an iteration stays within the words. -/
theorem valueAt_eq (narrow : range.IsNarrow) (within : index < range.size) :
    range.valueAt index = .ok (range.point index) := by
  have forward := narrow.step_pos
  have reached := narrow.isCounted.lt_size_iff.mp within
  have bounds := narrow.size_le
  have firstSigned := narrow.first_inSigned
  have lastSigned := narrow.last_inSigned
  have span := narrow.span_le
  have nonneg : (0 : Int) ≤ index * range.step := by positivity
  unfold point at reached
  simp only [Word.InSigned, Word.minSigned, Word.maxSigned] at firstSigned lastSigned span
  -- The index, its product with the step and the sum are all words, so nothing wraps around.
  have plain : Word.reinterpret index = index :=
    Word.reinterpret_of_le (by unfold Word.maxSigned; omega)
  have product : Word.signed? (index * range.step) = some (index * range.step) :=
    Word.signed?_eq_some_iff.mpr
      ⟨⟨by unfold Word.minSigned; omega, by unfold Word.maxSigned; omega⟩, rfl⟩
  have sum : Word.signed? (range.first + index * range.step) =
      some (range.first + index * range.step) :=
    Word.signed?_eq_some_iff.mpr
      ⟨⟨by unfold Word.minSigned; omega, by unfold Word.maxSigned; omega⟩, rfl⟩
  rw [valueAt, plain, product, Outcome.orOverflow_some, Outcome.ok_bind, sum]
  rfl

theorem valuesFrom_eq (narrow : range.IsNarrow) (within : start + count ≤ range.size) :
    range.valuesFrom start count = .ok ((List.range' start count).map range.point) := by
  induction count generalizing start with
  | zero => rfl
  | succ count ih =>
    have value := narrow.valueAt_eq (show start < range.size by omega)
    have others := ih (show start + 1 + count ≤ range.size by omega)
    rw [valuesFrom, value, Outcome.ok_bind, others]
    rfl

theorem values_eq (narrow : range.IsNarrow) :
    range.values = .ok ((List.range range.size).map range.point) := by
  unfold values valuesUpTo
  rw [Nat.min_self, narrow.valuesFrom_eq (by omega), List.range_eq_range']

/-- Up to an iteration whose distance from the first one is a signed word, a range is narrow. -/
theorem of_near (counted : range.IsCounted) (firstSigned : Word.InSigned range.first)
    (lastSigned : Word.InSigned range.last) (within : index < range.size)
    (near : index * range.step ≤ Word.maxSigned) :
    IsNarrow { range with last := range.point index } := by
  have forward := counted.step_pos
  have reached := counted.lt_size_iff.mp within
  have nonneg : (0 : Int) ≤ index * range.step := by positivity
  have point_eq : range.point index = range.first + index * range.step := rfl
  refine ⟨forward, firstSigned, ⟨?_, reached.trans lastSigned.2⟩, ?_⟩
  · have lower := firstSigned.1
    dsimp only
    omega
  · dsimp only
    omega

/-- Up to an iteration, a range has this iteration and those before it. -/
theorem lt_size_of_near (narrow : IsNarrow { range with last := range.point index }) :
    index < IterationRange.size { range with last := range.point index } :=
  narrow.isCounted.lt_size_iff.mpr (Int.le_refl _)

/-! ## Slices -/

/-- The range that a slice of a narrow range is. -/
theorem slice_eq (narrow : range.IsNarrow) (nonempty : 0 < count)
    (within : start + count ≤ range.size) :
    range.slice start count =
      .ok { first := range.point start, last := range.point (start + count - 1)
            step := range.step } := by
  have bounds := narrow.size_le
  have least : max count 1 = count := by omega
  have counted : Word.count? (start + count) = some (start + count) :=
    Word.count?_eq_some_iff.mpr ⟨by unfold Word.maxCount; omega, rfl⟩
  have first := narrow.valueAt_eq (show start < range.size by omega)
  have last := narrow.valueAt_eq (show start + count - 1 < range.size by omega)
  rw [IterationRange.slice, least, counted, Outcome.orOverflow_some, Outcome.ok_bind, first,
    Outcome.ok_bind, last]
  rfl

/-- A slice is narrow again, as long as its iterations are. -/
theorem slice (narrow : range.IsNarrow) (nonempty : 0 < count)
    (within : start + count ≤ range.size) :
    IsNarrow { first := range.point start, last := range.point (start + count - 1)
               step := range.step } := by
  have forward := narrow.step_pos
  have reached := narrow.isCounted.lt_size_iff.mp (show start + count - 1 < range.size by omega)
  have firstSigned := narrow.first_inSigned
  have lastSigned := narrow.last_inSigned
  have span := narrow.span_le
  -- Both ends of the slice lie between the bounds of the whole range.
  have ordered : range.point start ≤ range.point (start + count - 1) := by
    unfold point
    have : ((start : Nat) : Int) * range.step ≤ ((start + count - 1 : Nat) : Int) * range.step :=
      Int.mul_le_mul_of_nonneg_right (by omega) (by omega)
    omega
  have above : range.first ≤ range.point start := by
    unfold point
    have : (0 : Int) ≤ start * range.step := by positivity
    omega
  simp only [Word.InSigned] at firstSigned lastSigned
  exact ⟨forward, ⟨by dsimp only; omega, by dsimp only; omega⟩,
    ⟨by dsimp only; omega, by dsimp only; omega⟩, by dsimp only; omega⟩

/-- A slice counts its iterations. -/
theorem size_slice (narrow : range.IsNarrow) (nonempty : 0 < count)
    (within : start + count ≤ range.size) :
    IterationRange.size { first := range.point start, last := range.point (start + count - 1)
                          step := range.step } = count := by
  have forward := narrow.step_pos
  have inner := narrow.slice nonempty within
  have distance : range.point (start + count - 1) - range.point start =
      ((count - 1 : Nat) : Int) * range.step := by
    obtain ⟨rest, rfl⟩ : ∃ rest, count = rest + 1 := ⟨count - 1, by omega⟩
    unfold point
    simp only [Nat.add_succ_sub_one]
    push_cast
    ring
  -- Both bounds lie on the grid of the steps, so the division leaves no remainder.
  have quotient : ((count - 1 : Nat) : Int) * range.step / range.step = (count - 1 : Nat) :=
    Int.mul_ediv_cancel _ (by omega)
  have nonneg : (0 : Int) ≤ ((count - 1 : Nat) : Int) * range.step := by positivity
  rw [inner.isCounted.size_eq]
  dsimp only
  rw [if_neg (by omega), distance, quotient]
  omega

/-- The values of a slice are those of its iterations in the whole range. -/
theorem values_slice (narrow : range.IsNarrow) (nonempty : 0 < count)
    (within : start + count ≤ range.size) :
    IterationRange.values { first := range.point start, last := range.point (start + count - 1)
                            step := range.step } =
      .ok ((List.range' start count).map range.point) := by
  rw [(narrow.slice nonempty within).values_eq, narrow.size_slice nonempty within,
    List.range'_eq_map_range, List.map_map]
  congr 2
  funext index
  simp only [Function.comp_apply, point]
  push_cast
  ring

end IsNarrow

end IterationRange

/-- The values of a loop are those of its iterations, as many as do not exceed the last bound. -/
theorem loopValues_eq_map {range : IterationRange} (counted : range.IsCounted) :
    loopValues range.first range.last range.step = (List.range range.size).map range.point := by
  have suffix (index : Nat) (within : index ≤ range.size) :
      loopValues (range.point index) range.last range.step =
        (List.range' index (range.size - index)).map range.point := by
    -- From the end of the range backwards, one value in front of those that follow it.
    induction left : range.size - index generalizing index with
    | zero =>
      have stop : ¬ range.point index ≤ range.last := by
        rw [← counted.lt_size_iff]
        omega
      rw [loopValues, if_neg (by omega)]
      rfl
    | succ rest ih =>
      have reached := counted.lt_size_iff.mp (show index < range.size by omega)
      rw [loopValues, if_pos ⟨counted.step_pos, reached⟩, ← IterationRange.point_succ,
        ih (index + 1) (by omega) (by omega), List.range'_succ, List.map_cons]
  -- The suffix from the first index on is the whole loop.
  have whole := suffix 0 (Nat.zero_le _)
  rwa [IterationRange.point_zero, Nat.sub_zero, ← List.range_eq_range'] at whole

end ParallelLoop
