/-
# Iteration ranges

The loop `for v from first to last by step` runs through the values `first`,
`first + step`, `first + 2 * step` and so on up to the last one that does not
exceed `last`. This module counts these values and computes single ones.

A range that was checked has a positive step and a count that fits a word. A range
that reached the program without the check counts as endless when it has no count.
-/

import ParallelLoop.Word
import ParallelLoop.Error

namespace ParallelLoop

/-- Number of iterations of the loop that runs from `first` to `last` by `step`. -/
def iterationCount (first last step : Int) : Except Error Nat :=
  if step ≤ 0 then .error (.stepNotPositive first last step)
  else if last < first then .ok 0
  else
    let count := ((last - first) / step + 1).toNat
    if count ≤ Word.maxCount then .ok count
    else .error (.tooManyIterations first last step)

/-- The values from `first` up to `last` in steps of `step`. -/
structure IterationRange where
  first : Int
  last : Int
  step : Int
  deriving DecidableEq, Repr

namespace IterationRange

/-- The range with these bounds, if its iterations can be counted. -/
def ofBounds (first last step : Int) : Except Error IterationRange :=
  (iterationCount first last step).map fun _ => { first, last, step }

/-- Number of iterations; the largest count for a range that has none. -/
def size (range : IterationRange) : Nat :=
  match iterationCount range.first range.last range.step with
  | .ok count => count
  | .error _ => Word.maxCount

/-- The range has no iteration. -/
def isEmpty (range : IterationRange) : Bool := range.size == 0

/-- Value of the iteration with this index, counted from zero. Every intermediate result has
to be a signed word. -/
def valueAt (range : IterationRange) (index : Nat) : Except Failure Int := do
  let distance ← orOverflow (Word.signed? (Word.reinterpret index * range.step))
  orOverflow (Word.signed? (range.first + distance))

/-- The range of the `count` iterations that follow the first `start` ones. -/
def slice (range : IterationRange) (start count : Nat) : Except Failure IterationRange := do
  let lastIndex ← orOverflow (Word.count? (start + max count 1))
  return {
    first := ← range.valueAt start
    last := ← range.valueAt (lastIndex - 1)
    step := range.step
  }

/-- Values of the `count` iterations that follow the first `start` ones. -/
def valuesFrom (range : IterationRange) (start : Nat) : Nat → Except Failure (List Int)
  | 0 => .ok []
  | count + 1 => do
    let value ← range.valueAt start
    return value :: (← range.valuesFrom (start + 1) count)

/-- Values of the first iterations, `limit` of them or as many as there are. -/
def valuesUpTo (range : IterationRange) (limit : Nat) : Except Failure (List Int) :=
  range.valuesFrom 0 (min limit range.size)

/-- Values of all iterations in order. -/
def values (range : IterationRange) : Except Failure (List Int) := range.valuesUpTo range.size

/-- The value is one of the range. It is found by its distance from the first one, so no value
is computed. -/
def contains (range : IterationRange) (value : Int) : Bool :=
  let distance := value - range.first
  decide (0 ≤ distance) && distance % range.step == 0 &&
    decide ((distance / range.step).toNat < range.size)

end IterationRange

end ParallelLoop
