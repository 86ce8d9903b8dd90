/-
# The values of a loop in chunks

A loop over chunks takes the first values of the chunks, and the loop within a chunk goes on
from there in the steps of the whole loop. What the two take together, one chunk after the
other, are again the values of one loop, and `flatMap_chunks` says where it ends: at the end of
the last chunk, or at the limit that no chunk exceeds.

Whether this is where the loop ended before depends on the limit. For a loop with a constant
end, the limit is this end. For one whose end depends on another variable, only the limit of the
end is known when the loop is split, and in a scope where the loop ends below it the last chunk
goes too far unless the chunks come out even. `LoopBounds.splitsInto_iff` is the exact condition.
-/

import ParallelLoop.Plan.Nesting
import ParallelLoop.Proofs.Plan.Running
import ParallelLoop.Proofs.Task.Values

namespace ParallelLoop

open Word (InSigned maxSigned minSigned signed?)

/-! ## Values by their positions -/

section Positions

variable {first last other step : Int} {index : Nat}

theorem loopValues_of_lt (empty : last < first) : loopValues first last step = [] := by
  rw [loopValues, if_neg]
  omega

theorem loopValues_of_not_pos (still : ¬ 0 < step) : loopValues first last step = [] := by
  rw [loopValues, if_neg]
  omega

theorem loopValues_cons (forward : 0 < step) (nonempty : first ≤ last) :
    loopValues first last step = first :: loopValues (first + step) last step := by
  rw [loopValues, if_pos ⟨forward, nonempty⟩]

theorem getElem?_loopValues (forward : 0 < step) :
    (loopValues first last step)[index]? =
      if first + index * step ≤ last then some (first + index * step) else none := by
  have ahead (count : Nat) : 0 ≤ (count : Int) * step := by positivity
  induction index generalizing first with
  | zero =>
    by_cases nonempty : first ≤ last
    · simp [loopValues_cons forward nonempty, nonempty]
    · simp [loopValues_of_lt (Int.not_le.mp nonempty), nonempty]
  | succ index ih =>
    have next : first + step + index * step = first + (index + 1 : Nat) * step := by
      push_cast
      ring
    by_cases nonempty : first ≤ last
    · rw [loopValues_cons forward nonempty, List.getElem?_cons_succ, ih, next]
    · have beyond := ahead (index + 1)
      rw [loopValues_of_lt (Int.not_le.mp nonempty), List.getElem?_nil, if_neg (by omega)]

theorem lt_length_loopValues_iff (forward : 0 < step) :
    index < (loopValues first last step).length ↔ first + index * step ≤ last := by
  rw [← not_iff_not, Nat.not_lt, ← List.getElem?_eq_none_iff, getElem?_loopValues forward]
  simp

/-- Loops with the same first value take the same values when they go equally far. -/
theorem loopValues_eq_iff (forward : 0 < step) :
    loopValues first last step = loopValues first other step ↔
      ∀ index : Nat, first + index * step ≤ last ↔ first + index * step ≤ other := by
  constructor
  · intro same index
    rw [← lt_length_loopValues_iff forward, ← lt_length_loopValues_iff forward, same]
  · intro same
    ext1 index
    rw [getElem?_loopValues forward, getElem?_loopValues forward]
    simp only [same index]

/-- A loop can be interrupted after any number of iterations. -/
theorem loopValues_append (forward : 0 < step) (first last : Int) (count : Nat) :
    loopValues first last step =
      loopValues first (min (first + (count * step - step)) last) step ++
        loopValues (first + count * step) last step := by
  induction count generalizing first with
  | zero =>
    rw [loopValues_of_lt (show min (first + ((0 : Nat) * step - step)) last < first by omega)]
    simp
  | succ count ih =>
    have ahead : 0 ≤ (count : Int) * step := by positivity
    have next : first + (count + 1 : Nat) * step = first + step + count * step := by
      push_cast
      ring
    have reach : first + ((count + 1 : Nat) * step - step) =
        first + step + (count * step - step) := by omega
    rw [next, reach]
    -- One value moves from the second part to the first with each step of the count.
    by_cases nonempty : first ≤ last
    · have inner : first ≤ min (first + step + (count * step - step)) last := by omega
      rw [loopValues_cons forward nonempty, loopValues_cons forward inner, List.cons_append]
      exact congrArg _ (ih (first + step))
    · rw [loopValues_of_lt (Int.not_le.mp nonempty), loopValues_of_lt (by omega),
        loopValues_of_lt (by omega), List.append_nil]

theorem le_of_mem_loopValues {value : Int} (member : value ∈ loopValues first last step) :
    first ≤ value ∧ value ≤ last := by
  by_cases forward : 0 < step
  · obtain ⟨index, found⟩ := List.mem_iff_getElem?.mp member
    have ahead : 0 ≤ (index : Int) * step := by positivity
    rw [getElem?_loopValues forward] at found
    split at found
    next within =>
      obtain rfl := Option.some.inj found
      exact ⟨by omega, within⟩
    next => cases found
  · rw [loopValues_of_not_pos forward] at member
    cases member

theorem length_loopValues_of_iterationCount {count : Nat}
    (counted : iterationCount first last step = .ok count) :
    (loopValues first last step).length = count := by
  let range : IterationRange := { first, last, step }
  have isCounted : range.IsCounted := ⟨step_pos_of_iterationCount counted, count, counted⟩
  have size : range.size = count := by
    rw [IterationRange.size, counted]
  have values := loopValues_eq_map isCounted
  rw [size] at values
  rw [values, List.length_map, List.length_range]

/-- The iterations of a loop are counted, unless there are too many. -/
theorem iterationCount_eq_length (forward : 0 < step)
    (few : (loopValues first last step).length ≤ Word.maxCount) :
    iterationCount first last step = .ok (loopValues first last step).length := by
  rw [iterationCount, if_neg (Int.not_le.mpr forward)]
  split
  next empty => rw [loopValues_of_lt empty, List.length_nil]
  next nonempty =>
    have quotient : 0 ≤ (last - first) / step := Int.ediv_nonneg (by omega) (by omega)
    have count : ((last - first) / step + 1).toNat = (loopValues first last step).length := by
      refine eq_of_forall_lt_iff fun index => ?_
      have reached := Int.le_ediv_iff_mul_le (a := (index : Int)) (b := last - first) forward
      rw [lt_length_loopValues_iff forward]
      omega
    dsimp only
    rw [count, if_pos few]

end Positions

/-! ## Chunks of a loop -/

section Chunks

variable {first last step value : Int} {chunk : Nat} {limit? : Option Int}

/-- The value, or the limit if there is one that is smaller. -/
def atMost (limit? : Option Int) (value : Int) : Int := (limit?.map (min value)).getD value

theorem le_atMost_iff {other : Int} :
    value ≤ atMost limit? other ↔ value ≤ other ∧ ∀ limit ∈ limit?, value ≤ limit := by
  cases limit? <;> simp [atMost]

theorem min_atMost {other : Int} (above : value ≤ other) :
    min value (atMost limit? other) = atMost limit? value := by
  cases limit? with
  | none => exact min_eq_left above
  | some limit =>
    change min value (min other limit) = min value limit
    rw [← min_assoc, min_eq_left above]

/-- The values that the loop within a chunk takes from the first value of the chunk on. -/
def chunkValues (limit? : Option Int) (chunk : Nat) (step start : Int) : List Int :=
  loopValues start (atMost limit? (start + (chunk * step - step))) step

/-- The chunks of a loop, one after the other, go on to the end of the last one or to the limit. -/
theorem flatMap_chunks (forward : 0 < step) (positive : 1 ≤ chunk) (limit? : Option Int)
    (first last : Int) :
    (loopValues first last (chunk * step)).flatMap (chunkValues limit? chunk step) =
      loopValues first (atMost limit? (first +
        ((loopValues first last (chunk * step)).length * (chunk * step) - step))) step := by
  have wide : 0 < (chunk : Int) * step := by positivity
  -- One chunk after the other, as many as there are.
  induction count : (loopValues first last (chunk * step)).length generalizing first with
  | zero =>
    have stop : atMost limit? (first + ((0 : Nat) * (chunk * step) - step)) < first := by
      rw [← Int.not_le, le_atMost_iff]
      omega
    rw [List.length_eq_zero_iff.mp count, loopValues_of_lt stop]
    rfl
  | succ rest ih =>
    have nonempty : first ≤ last := by
      by_contra empty
      rw [loopValues_of_lt (Int.not_le.mp empty)] at count
      cases count
    rw [loopValues_cons wide nonempty, List.length_cons, Nat.add_right_cancel_iff] at count
    have ahead : 0 ≤ (rest : Int) * (chunk * step) := by positivity
    have total : first + (((rest + 1 : Nat) : Int) * (chunk * step) - step) =
        first + chunk * step + (rest * (chunk * step) - step) := by
      push_cast
      ring
    have interrupted := loopValues_append forward first
      (atMost limit? (first + chunk * step + (rest * (chunk * step) - step))) chunk
    rw [min_atMost (by omega)] at interrupted
    rw [loopValues_cons wide nonempty, List.flatMap_cons, ih _ count, total, interrupted,
      chunkValues]

theorem lt_divideUp_iff {num den index : Nat} (positive : 1 ≤ den) :
    index < divideUp num den ↔ index * den < num := by
  have next : (index + 1) * den = index * den + den := Nat.succ_mul index den
  rw [divideUp, ← Nat.succ_le_iff, Nat.le_div_iff_mul_le positive, Nat.succ_eq_add_one, next]
  omega

theorem le_divideUp_mul (num : Nat) {den : Nat} (positive : 1 ≤ den) :
    num ≤ divideUp num den * den := by
  have last : ¬ divideUp num den * den < num := by
    rw [← lt_divideUp_iff positive]
    exact Nat.lt_irrefl _
  exact Nat.not_lt.mp last

theorem divideUp_mul_eq_iff {num den : Nat} (positive : 1 ≤ den) :
    divideUp num den * den = num ↔ den ∣ num := by
  constructor
  · intro even
    exact ⟨divideUp num den, by rw [Nat.mul_comm, even]⟩
  · rintro ⟨share, rfl⟩
    have exact_share : divideUp (den * share) den = share := by
      refine eq_of_forall_lt_iff fun index => ?_
      rw [lt_divideUp_iff positive, Nat.mul_comm den, Nat.mul_lt_mul_right positive]
    rw [exact_share, Nat.mul_comm]

/-- There are as many chunks as it takes for all iterations. -/
theorem length_loopValues_chunks (forward : 0 < step) (positive : 1 ≤ chunk) (first last : Int) :
    (loopValues first last (chunk * step)).length =
      divideUp (loopValues first last step).length chunk := by
  have wide : 0 < (chunk : Int) * step := by positivity
  refine eq_of_forall_lt_iff fun index => ?_
  have same : ((index * chunk : Nat) : Int) * step = index * (chunk * step) := by
    push_cast
    ring
  rw [lt_divideUp_iff positive, lt_length_loopValues_iff wide, lt_length_loopValues_iff forward,
    same]

/-- The chunks take the values of the loop exactly if they come out even, or the limit is below
what would come next. -/
theorem flatMap_chunks_eq_iff (forward : 0 < step) (positive : 1 ≤ chunk)
    (above : ∀ limit ∈ limit?, last ≤ limit) :
    (loopValues first last (chunk * step)).flatMap (chunkValues limit? chunk step) =
        loopValues first last step ↔
      chunk ∣ (loopValues first last step).length ∨
        ∃ limit, limit? = some limit ∧
          limit < first + (loopValues first last step).length * step := by
  rw [flatMap_chunks forward positive, length_loopValues_chunks forward positive, eq_comm,
    loopValues_eq_iff forward]
  have within (index : Nat) : first + index * step ≤ last ↔
      index < (loopValues first last step).length := (lt_length_loopValues_iff forward).symm
  generalize (loopValues first last step).length = count at within
  -- So many iterations fit into the chunks.
  have room (index : Nat) : first + index * step ≤
      first + ((divideUp count chunk : Nat) * (chunk * step) - step) ↔
        index < divideUp count chunk * chunk := by
    have total : ((divideUp count chunk * chunk : Nat) : Int) * step =
        divideUp count chunk * (chunk * step) := by
      push_cast
      ring
    have scaled : ((index + 1 : Nat) : Int) * step ≤
        (divideUp count chunk * chunk : Nat) * step ↔
          ((index + 1 : Nat) : Int) ≤ (divideUp count chunk * chunk : Nat) :=
      mul_le_mul_iff_of_pos_right forward
    rw [total, Int.ofNat_le, Int.natCast_succ, add_mul, one_mul] at scaled
    omega
  simp only [le_atMost_iff, room, within]
  have enough := le_divideUp_mul count positive
  constructor
  · intro same
    by_contra neither
    rw [not_or, not_exists] at neither
    have further : ∀ limit ∈ limit?, first + count * step ≤ limit := fun limit given =>
      Int.not_lt.mp fun below => neither.2 limit ⟨given, below⟩
    -- One more iteration would be among the chunks, but it is not one of the loop.
    have more := Nat.lt_of_le_of_ne enough fun even =>
      neither.1 ((divideUp_mul_eq_iff positive).mp even.symm)
    exact Nat.lt_irrefl count ((same count).mpr ⟨more, further⟩)
  · intro ends index
    have inside (lower : index < count) : ∀ limit ∈ limit?, first + index * step ≤ limit :=
      fun limit given => ((within index).mpr lower).trans (above limit given)
    refine ⟨fun lower => ⟨Nat.lt_of_lt_of_le lower enough, inside lower⟩, fun taken => ?_⟩
    rcases ends with even | ⟨limit, given, below⟩
    · rw [(divideUp_mul_eq_iff positive).mpr even] at taken
      exact taken.1
    · by_contra beyond
      have reached := taken.2 limit given
      have further : (count : Int) * step ≤ index * step :=
        Int.mul_le_mul_of_nonneg_right (Int.ofNat_le.mpr (Nat.not_lt.mp beyond)) forward.le
      omega

/-- Without a limit, a run within a chunk takes the value at the end of the chunk. -/
theorem chunkEnd_mem (forward : 0 < step) (positive : 1 ≤ chunk) (start : Int) :
    start + (chunk * step - step) ∈ chunkValues none chunk step start := by
  obtain ⟨rest, rfl⟩ := Nat.exists_eq_add_of_le' positive
  have reach : ((rest + 1 : Nat) : Int) * step - step = rest * step := by
    push_cast
    ring
  apply List.mem_of_getElem? (i := rest)
  rw [chunkValues, getElem?_loopValues forward, reach]
  exact if_pos (le_refl _)

/-- A run within a chunk has an iteration, and no more than the chunk. -/
theorem length_chunkValues (forward : 0 < step) (positive : 1 ≤ chunk)
    (above : ∀ limit ∈ limit?, value ≤ limit) :
    1 ≤ (chunkValues limit? chunk step value).length ∧
      (chunkValues limit? chunk step value).length ≤ chunk := by
  have wide : step ≤ chunk * step :=
    le_mul_of_one_le_left forward.le (Int.ofNat_le.mpr positive)
  constructor
  · refine (lt_length_loopValues_iff forward).mpr (le_atMost_iff.mpr ⟨by omega, ?_⟩)
    simpa using above
  · refine Nat.not_lt.mp fun longer => ?_
    have reached := (le_atMost_iff.mp ((lt_length_loopValues_iff forward).mp longer)).1
    omega

end Chunks

/-! ## Chunks of loop bounds -/

/-- The steps for chunks of this many iterations, on unbounded integers. -/
def ChunkSteps.plain (chunk : Nat) (step : Int) : ChunkSteps :=
  { outer := chunk * step, reach := chunk * step - step }

/-- The steps of a split are found when the larger one is a signed word. -/
theorem ChunkSteps.ofChunk_eq {chunk : Nat} {step : Int} (forward : 0 < step)
    (positive : 1 ≤ chunk) (fits : InSigned (chunk * step)) :
    ofChunk chunk step = .ok (.plain chunk step) := by
  have atLeastChunk : (chunk : Int) * 1 ≤ chunk * step :=
    Int.mul_le_mul_of_nonneg_left forward (Int.natCast_nonneg chunk)
  have atLeastStep : 1 * step ≤ chunk * step :=
    Int.mul_le_mul_of_nonneg_right (Int.ofNat_le.mpr positive) (Int.le_of_lt forward)
  have reach : InSigned (chunk * step - step) := by
    unfold InSigned minSigned maxSigned at *
    omega
  have word : Word.reinterpret chunk = chunk :=
    Word.reinterpret_of_le ((Int.mul_one _ ▸ atLeastChunk).trans fits.2)
  unfold ofChunk
  rw [word, Word.signed?_eq_some_iff.mpr ⟨fits, rfl⟩, Outcome.orOverflow_some, Outcome.ok_bind,
    Word.signed?_eq_some_iff.mpr ⟨reach, rfl⟩]
  rfl

/-- A product that is a word, both with the count and with the count as it reads, is the same: a
count that reads as a negative word makes a step that moves back move forward, and too far. -/
theorem Word.reinterpret_mul_eq {chunk : Nat} {step : Int} (fits : InSigned (chunk * step))
    (word : InSigned (reinterpret chunk * step)) : reinterpret chunk * step = chunk * step := by
  -- A chunk that wraps around would be too large for its product with the step to be a word.
  by_cases small : (chunk : Int) ≤ maxSigned
  · rw [reinterpret_of_le small]
  · rcases lt_trichotomy step 0 with backward | rfl | forward
    · have most : (chunk : Int) * step ≤ chunk * (-1) :=
        Int.mul_le_mul_of_nonneg_left (by omega) (Int.natCast_nonneg chunk)
      have lower := fits.1
      unfold minSigned at lower
      have few : chunk < 2 ^ 64 := by omega
      rw [reinterpret_of_lt few (Int.not_le.mp small), sub_mul] at word
      have upper := word.2
      unfold maxSigned at upper
      omega
    · rw [Int.mul_zero, Int.mul_zero]
    · have most : (chunk : Int) * 1 ≤ chunk * step :=
        Int.mul_le_mul_of_nonneg_left forward (Int.natCast_nonneg chunk)
      have upper := fits.2
      omega

/-- The steps that are found are these when the larger one is a signed word. -/
theorem ChunkSteps.of_ofChunk {chunk : Nat} {step : Int} {steps : ChunkSteps}
    (fits : InSigned (chunk * step)) (done : ofChunk chunk step = .ok steps) :
    steps = .plain chunk step := by
  obtain ⟨outer, outer_eq, reached⟩ := Outcome.of_bind done
  obtain ⟨reach, reach_eq, returned⟩ := Outcome.of_bind reached
  obtain ⟨word, outer_val⟩ := Word.of_orOverflow outer_eq
  obtain ⟨-, reach_val⟩ := Word.of_orOverflow reach_eq
  cases returned
  rw [reach_val, outer_val, Word.reinterpret_mul_eq fits word]
  rfl

/-- The constants of a bound are signed words. -/
def Bound.IsWord : Bound → Prop
  | const value => InSigned value
  | relative _ _ limit => ∀ most ∈ limit, InSigned most

/-- The value of a bound that depends on a variable is at most the limit, and a word. -/
theorem Bound.of_resolve_relative {var : String} {offset value : Int} {limit : Option Int}
    {scope : Scope} (resolved : (relative var offset limit).resolve scope = .ok value) :
    (∀ most ∈ limit, value ≤ most) ∧ ((relative var offset limit).IsWord → InSigned value) := by
  unfold resolve at resolved
  dsimp only at resolved
  split at resolved
  next => cases resolved
  next base _ =>
    cases sum : signed? (base + offset) with
    | some total =>
      obtain ⟨word, rfl⟩ := Word.signed?_eq_some_iff.mp sum
      cases limit with
      | some most =>
        simp only [sum, Except.ok.injEq] at resolved
        refine ⟨?_, fun words => ?_⟩
        · simp [← resolved]
        · have limited : InSigned most := words most rfl
          unfold InSigned at *
          omega
      | none =>
        simp only [sum, Except.ok.injEq] at resolved
        exact ⟨nofun, fun _ => resolved ▸ word⟩
    | none =>
      cases limit with
      | some most =>
        simp only [sum] at resolved
        split at resolved
        next =>
          cases resolved
          exact ⟨by simp, fun words => words _ rfl⟩
        next => cases resolved
      | none => simp [sum] at resolved

theorem Bound.inSigned_of_resolve {bound : Bound} {scope : Scope} {value : Int}
    (word : bound.IsWord) (resolved : bound.resolve scope = .ok value) : InSigned value := by
  cases bound with
  | const constant =>
    obtain rfl := Except.ok.inj resolved
    exact word
  | relative var offset limit => exact (of_resolve_relative resolved).2 word

namespace LoopBounds

variable {bounds : LoopBounds} {scope : Scope} {var : String} {steps : ChunkSteps} {chunk : Nat}
  {first last start : Int} {runs : List (List Int)}

/-- The constants of both bounds are signed words. -/
structure IsWord (bounds : LoopBounds) : Prop where
  first : bounds.first.IsWord
  last : bounds.last.IsWord

/-- The values that the variable of a loop takes when the loop is entered in a scope. -/
def values (bounds : LoopBounds) (scope : Scope) : Except Error (List Int) := do
  let (first, last) ← bounds.resolve scope
  return loopValues first last bounds.step

/-- The values that the variable of a loop takes for each value of the loop around it. -/
def valuesWithin (inner outer : LoopBounds) (scope : Scope) : Except Error (List (List Int)) := do
  (← outer.values scope).mapM fun value => inner.values ((outer.var, value) :: scope)

/-- In a scope, a loop takes the values that the loop `within` takes for each value of `outer`, in
the same order. -/
def SplitsInto (bounds outer within : LoopBounds) (scope : Scope) : Prop :=
  ∃ runs, within.valuesWithin outer scope = .ok runs ∧ bounds.values scope = .ok runs.flatten

theorem values_eq (resolved : bounds.resolve scope = .ok (first, last)) :
    bounds.values scope = .ok (loopValues first last bounds.step) := by
  rw [values, resolved]
  rfl

theorem of_resolve (resolved : bounds.resolve scope = .ok (first, last)) :
    bounds.first.resolve scope = .ok first ∧ bounds.last.resolve scope = .ok last := by
  obtain ⟨start, first_eq, rest⟩ := Outcome.of_bind resolved
  obtain ⟨stop, last_eq, returned⟩ := Outcome.of_bind rest
  cases returned
  exact ⟨first_eq, last_eq⟩

/-- The last value is at most the limit. -/
theorem le_limit (resolved : bounds.last.resolve scope = .ok last) :
    ∀ limit ∈ bounds.limit?, last ≤ limit := by
  unfold limit?
  cases given : bounds.last with
  | const value =>
    rw [given] at resolved
    obtain rfl := Except.ok.inj resolved
    simp
  | relative var offset most =>
    rw [given] at resolved
    exact (Bound.of_resolve_relative resolved).1

theorem inSigned_limit (word : bounds.IsWord) : ∀ limit ∈ bounds.limit?, InSigned limit := by
  have last := word.last
  unfold limit?
  cases given : bounds.last with
  | const value =>
    rw [given] at last
    rintro limit ⟨⟩
    exact last
  | relative var offset most =>
    rw [given] at last
    exact last

/-! ### The end of a chunk -/

/-- Where a chunk ends, unless the end is too large for a word and there is no limit. -/
theorem resolve_chunkEnd {limit? : Option Int} {reach : Int} (start_word : InSigned start)
    (ahead : 0 ≤ reach) (limits : ∀ limit ∈ limit?, InSigned limit) :
    (Bound.relative var reach limit?).resolve ((var, start) :: scope) =
      if limit? = none ∧ maxSigned < start + reach then .error (.boundOverflow var reach start)
      else .ok (atMost limit? (start + reach)) := by
  rw [Bound.resolve, List.lookup_cons_self]
  by_cases fits : start + reach ≤ maxSigned
  · have sum : signed? (start + reach) = some (start + reach) :=
      Word.signed?_eq_some_iff.mpr ⟨⟨by unfold InSigned at start_word; omega, fits⟩, rfl⟩
    rw [if_neg fun overflow => Int.not_lt.mpr fits overflow.2]
    cases limit? <;> simp [sum, atMost]
  · have sum : signed? (start + reach) = none := if_neg fun word => fits word.2
    cases limit? with
    | none => simp [sum, Int.not_le.mp fits]
    | some limit =>
      -- The limit is a word, so it is what the end that is too large comes to.
      have limited : InSigned limit := limits limit rfl
      have forward : 0 < reach := by
        unfold InSigned at start_word
        omega
      have least : min (start + reach) limit = limit := by
        unfold InSigned at limited
        omega
      simp [sum, atMost, forward, least]

theorem values_withinChunk (start_word : InSigned start) (ahead : 0 ≤ steps.reach)
    (limits : ∀ limit ∈ bounds.limit?, InSigned limit) :
    (bounds.withinChunk var steps).values ((var, start) :: scope) =
      if bounds.limit? = none ∧ maxSigned < start + steps.reach then
        .error (.boundOverflow var steps.reach start)
      else .ok (loopValues start (atMost bounds.limit? (start + steps.reach)) bounds.step) := by
  have base : (Bound.relative var 0 none).resolve ((var, start) :: scope) = .ok start := by
    rw [Bound.resolve, List.lookup_cons_self]
    simp [Word.signed?_eq_some_iff.mpr ⟨start_word, rfl⟩]
  unfold values resolve withinChunk
  dsimp only
  rw [base, Outcome.ok_bind, resolve_chunkEnd start_word ahead limits]
  split <;> rfl

section Within

variable (word : bounds.IsWord) (resolved : bounds.resolve scope = .ok (first, last))
  (positive : 1 ≤ chunk)
include word resolved positive

/-- What is run from the first value of a chunk on. -/
theorem values_of_mem (var : String)
    (member : start ∈ loopValues first last (chunk * bounds.step)) :
    (bounds.withinChunk var (.plain chunk bounds.step)).values ((var, start) :: scope) =
      if bounds.limit? = none ∧ maxSigned < start + (chunk * bounds.step - bounds.step) then
        .error (.boundOverflow var (chunk * bounds.step - bounds.step) start)
      else .ok (chunkValues bounds.limit? chunk bounds.step start) := by
  obtain ⟨first_eq, last_eq⟩ := of_resolve resolved
  have lower := Bound.inSigned_of_resolve word.first first_eq
  have upper := Bound.inSigned_of_resolve word.last last_eq
  obtain ⟨above, below⟩ := le_of_mem_loopValues member
  have start_word : InSigned start := by
    unfold InSigned at *
    omega
  -- There is no value unless the loop moves forward.
  have wide : 0 < (chunk : Int) * bounds.step := by
    by_contra still
    rw [loopValues_of_not_pos still] at member
    cases member
  have forward : 0 < bounds.step := (pos_iff_pos_of_mul_pos wide).mp (by omega)
  have ahead : bounds.step ≤ chunk * bounds.step :=
    le_mul_of_one_le_left forward.le (Int.ofNat_le.mpr positive)
  exact values_withinChunk start_word (Int.sub_nonneg.mpr ahead) (inSigned_limit word)

omit word positive in
theorem valuesWithin_eq (var : String) :
    (bounds.withinChunk var (.plain chunk bounds.step)).valuesWithin
        (bounds.chunks var (.plain chunk bounds.step)) scope =
      (loopValues first last (chunk * bounds.step)).mapM fun start =>
        (bounds.withinChunk var (.plain chunk bounds.step)).values ((var, start) :: scope) := by
  have outer : (bounds.chunks var (.plain chunk bounds.step)).values scope =
      .ok (loopValues first last (chunk * bounds.step)) := values_eq resolved
  rw [valuesWithin, outer]
  rfl

/-- The runs within the chunks are those of the chunks of the loop. -/
theorem of_valuesWithin {var : String}
    (done : (bounds.withinChunk var (.plain chunk bounds.step)).valuesWithin
      (bounds.chunks var (.plain chunk bounds.step)) scope = .ok runs) :
    runs = (loopValues first last (chunk * bounds.step)).map
      (chunkValues bounds.limit? chunk bounds.step) := by
  rw [valuesWithin_eq resolved] at done
  refine Outcome.eq_map_of_mapM done fun start member run entered => ?_
  rw [values_of_mem word resolved positive var member] at entered
  split at entered
  next => cases entered
  next => exact (Except.ok.inj entered).symm

/-- Every run within a chunk has an iteration, and no more than the chunk. -/
theorem length_of_valuesWithin {var : String} (forward : 0 < bounds.step)
    (done : (bounds.withinChunk var (.plain chunk bounds.step)).valuesWithin
      (bounds.chunks var (.plain chunk bounds.step)) scope = .ok runs) :
    ∀ run ∈ runs, 1 ≤ run.length ∧ run.length ≤ chunk := by
  intro run there
  rw [of_valuesWithin word resolved positive done] at there
  obtain ⟨start, member, rfl⟩ := List.mem_map.mp there
  refine length_chunkValues forward positive fun limit given => ?_
  exact (le_of_mem_loopValues member).2.trans (le_limit (of_resolve resolved).2 limit given)

/-- In a scope in which its bounds have values, a loop takes the same values in chunks exactly if
the chunks come out even or no chunk exceeds a limit that is below what would come next. -/
theorem splitsInto_iff (var : String) :
    bounds.SplitsInto (bounds.chunks var (.plain chunk bounds.step))
        (bounds.withinChunk var (.plain chunk bounds.step)) scope ↔
      chunk ∣ (loopValues first last bounds.step).length ∨
        ∃ limit, bounds.limit? = some limit ∧
          limit < first + (loopValues first last bounds.step).length * bounds.step := by
  have last_eq := (of_resolve resolved).2
  unfold SplitsInto
  rw [values_eq resolved]
  by_cases forward : 0 < bounds.step
  · rw [← flatMap_chunks_eq_iff forward positive (le_limit last_eq), List.flatMap_def]
    constructor
    · rintro ⟨runs, done, same⟩
      rw [← of_valuesWithin word resolved positive done]
      exact (Except.ok.inj same).symm
    · intro same
      refine ⟨_, ?_, congrArg _ same.symm⟩
      rw [valuesWithin_eq resolved]
      refine Outcome.mapM_eq_map fun start member => ?_
      rw [values_of_mem word resolved positive var member, if_neg]
      rintro ⟨unlimited, overflow⟩
      -- Without a limit the value at the end of the chunk is one of the loop, so it is a word.
      have taken : start + (chunk * bounds.step - bounds.step) ∈
          loopValues first last bounds.step := by
        rw [← same, unlimited]
        exact List.mem_flatMap.mpr ⟨start, member, chunkEnd_mem forward positive start⟩
      have upper := Bound.inSigned_of_resolve word.last last_eq
      exact Int.not_lt.mpr ((le_of_mem_loopValues taken).2.trans upper.2) overflow
  · have still : ¬ 0 < (chunk : Int) * bounds.step := by
      intro wide
      exact forward ((pos_iff_pos_of_mul_pos wide).mp (by omega))
    rw [valuesWithin_eq resolved, loopValues_of_not_pos still,
      loopValues_of_not_pos forward]
    simp

end Within

end LoopBounds

end ParallelLoop
