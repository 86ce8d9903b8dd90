/-
# Chunk sizes that a loop can be split into

The step of the loop over chunks is the product of the chunk size, which is a count, and the step
of the loop. It is computed on signed words, and a count with the sign bit set reads as a negative
word. So a split into chunks is safe as long as the product is a signed word, and
`LoopAt.splitsSafely_iff` says that it is safe for no other size.

What happens for the other sizes depends on how far the count is from the largest one. Mostly the
product overflows, which stops the split before it changes anything. Near the largest count it does
not overflow: it is negative, the split succeeds, and the loop over chunks goes backwards. Its
iterations cannot be counted any more, while its node still records a count.
-/

import ParallelLoop.Proofs.Plan.Splitting

namespace ParallelLoop

open Word (InSigned maxSigned minSigned)

/-! ## Steps for chunks that are too large -/

namespace ChunkSteps

variable {chunk : Nat} {step : Int}

/-- The steps for a chunk size with the sign bit set, as it reads. -/
def wrapped (chunk : Nat) (step : Int) : ChunkSteps :=
  { outer := (chunk - 2 ^ 64) * step, reach := (chunk - 2 ^ 64) * step - step }

/-- The chunk size is so close to the largest count that its negative reading gives words. -/
def Wraps (chunk : Nat) (step : Int) : Prop := minSigned ≤ (wrapped chunk step).reach

instance (chunk : Nat) (step : Int) : Decidable (Wraps chunk step) :=
  inferInstanceAs (Decidable (_ ≤ _))

theorem ofChunk_eq_ok {outer : Int} (product : Word.reinterpret chunk * step = outer)
    (word : InSigned outer) (reach : InSigned (outer - step)) :
    ofChunk chunk step = .ok { outer, reach := outer - step } := by
  unfold ofChunk
  rw [product, Word.signed?, if_pos word, Outcome.orOverflow_some, Outcome.ok_bind, Word.signed?,
    if_pos reach]
  rfl

theorem ofChunk_eq_error {outer : Int} (product : Word.reinterpret chunk * step = outer)
    (beyond : InSigned outer → ¬ InSigned (outer - step)) :
    ofChunk chunk step = .error (.abort .overflow) := by
  unfold ofChunk
  rw [product]
  by_cases word : InSigned outer
  · rw [Word.signed?, if_pos word, Outcome.orOverflow_some, Outcome.ok_bind, Word.signed?,
      if_neg (beyond word)]
    rfl
  · rw [Word.signed?, if_neg word]
    rfl

section Large

variable (forward : 0 < step) (few : chunk < 2 ^ 64)
include forward few

theorem wrapped_outer_le : (wrapped chunk step).outer ≤ -step := by
  have negative : ((chunk : Int) - 2 ^ 64) * step ≤ -1 * step :=
    Int.mul_le_mul_of_nonneg_right (by omega) forward.le
  rwa [neg_one_mul] at negative

theorem ofChunk_of_wraps (wraps : Wraps chunk step) :
    ofChunk chunk step = .ok (wrapped chunk step) := by
  have lower : minSigned ≤ (chunk - 2 ^ 64) * step - step := wraps
  have upper : (chunk - 2 ^ 64) * step ≤ -step := wrapped_outer_le forward few
  -- A chunk that is a word itself would not have wrapped around.
  have large : maxSigned < chunk := by
    by_contra small
    have most : (chunk - 2 ^ 64) * step ≤ (chunk - 2 ^ 64) * 1 :=
      Int.mul_le_mul_of_nonpos_left (by omega) forward
    unfold minSigned maxSigned at *
    omega
  have word : InSigned ((chunk - 2 ^ 64) * step) := by
    unfold InSigned maxSigned
    omega
  have reach : InSigned ((chunk - 2 ^ 64) * step - step) := by
    unfold InSigned maxSigned
    omega
  exact ofChunk_eq_ok (by rw [Word.reinterpret_of_lt few large]) word reach

omit forward in
theorem ofChunk_of_not_wraps (large : maxSigned < chunk * step) (stays : ¬ Wraps chunk step) :
    ofChunk chunk step = .error (.abort .overflow) := by
  by_cases small : (chunk : Int) ≤ maxSigned
  · refine ofChunk_eq_error (by rw [Word.reinterpret_of_le small]) fun word => ?_
    exact absurd word.2 (Int.not_le.mpr large)
  · refine ofChunk_eq_error (by rw [Word.reinterpret_of_lt few (Int.not_le.mp small)]) ?_
    exact fun _ reach => stays reach.1

end Large

end ChunkSteps

namespace Plan

variable {α : Type} {plan after : Plan α} {id inner : NodeId} {chunk count : Nat} {var : String}
  {first last : Int} {steps : ChunkSteps}

namespace LoopAt

variable (loop : plan.LoopAt id)

/-! ## Splits that are safe, and splits that go backwards -/

/-- A safe split of a loop. The chunk size reads as it is and the bounds of the two loops are those
on unbounded integers, the outer loop goes forward, and it has as many iterations as its node
records. -/
structure IsSafe (chunk : Nat) (var : String) (inner : NodeId) (after : Plan α) : Prop where
  read : Word.reinterpret chunk = chunk
  outer : after.bounds? id = some (loop.outer chunk var)
  within : after.bounds? inner = some (loop.within chunk var)
  words : InSigned (chunk * loop.bounds.step) ∧
    InSigned (chunk * loop.bounds.step - loop.bounds.step)
  forward : 0 < (loop.outer chunk var).step
  counted : ∃ node chunks, after.node id = .ok node ∧ node.tripCount = .ok chunks ∧
    (loop.outer chunk var).constantTripCount? = .ok (some chunks)

/-- The loop is split safely, or the split is refused with an error and changes nothing. -/
def SplitsSafely (chunk : Nat) (var : String) : Prop :=
  (∃ cause, (splitLoop id chunk var).result plan = (.error (.error cause), plan)) ∨
    ∃ inner after, (splitLoop id chunk var).result plan = (.ok inner, after) ∧
      loop.IsSafe (max chunk 1) var inner after

/-- The bounds of the outer loop have the step that was found. -/
theorem bounds?_splitLoop (numbered : plan.tree.IsNumbered)
    (steps_eq : ChunkSteps.ofChunk (max chunk 1) loop.bounds.step = .ok steps)
    (done : (splitLoop id chunk var).result plan = (.ok inner, after)) :
    after.bounds? id = some (loop.bounds.chunks var steps) := by
  obtain ⟨blockId, block, node, count, bounds, settings, found, bound, held, -, -, bounds_eq, -,
    found_eq, tree_eq, program_eq⟩ := Plan.of_splitLoop done
  obtain rfl := Except.ok.inj (loop.blockOf_eq.symm.trans bound)
  obtain rfl := Except.ok.inj (loop.block_eq.symm.trans held)
  obtain rfl := Option.some.inj (loop.bounds_eq.symm.trans bounds_eq)
  obtain rfl := Except.ok.inj (steps_eq.symm.trans found_eq)
  have fresh : (plan.innerNode (max chunk 1)).id ∉ plan.tree.ids := numbered.freshId_not_mem
  have row := plan.tree.row?_alter_wedge id (id_outerNode count (max chunk 1)) fresh id
  rw [if_pos rfl, loop.row_eq, ← PlanTree.update_insertBelow, ← tree_eq] at row
  have top : after.program.block loop.top =
      .ok (plan.outerBlock (loop.bounds.chunks var steps) loop.block) := by
    rw [program_eq, Program.block_addBlock_modifyBlock loop.block_eq, if_pos rfl]
  exact bounds?_of_row? row loop.top_eq top

/-- A split stops without changing anything when the steps of the two loops are not found. -/
theorem result_splitLoop_of_error {cause : Failure} (recorded : loop.node.tripCount = .ok count)
    (stopped : ChunkSteps.ofChunk (max chunk 1) loop.bounds.step = .error cause) (var : String) :
    (splitLoop id chunk var).result plan = (.error cause, plan) := by
  have limits : boundsOf id loop.block = .ok loop.bounds := by rw [boundsOf, loop.bounds_eq]
  refine (Change.result_inspect_bind (fun plan : Plan α => plan.blockOf id)
    loop.blockOf_eq).trans ?_
  refine (Change.result_bind (Change.result_get plan)).trans ?_
  refine (Change.result_ofOutcome_bind loop.node_eq).trans ?_
  refine (Change.result_ofExcept_bind recorded).trans ?_
  refine (Change.result_inspect_bind (fun plan : Plan α => plan.program.block loop.top)
    loop.block_eq).trans ?_
  refine (Change.result_ofExcept_bind limits).trans ?_
  refine (Change.result_inspect_bind (fun plan : Plan α => plan.settings id) loop.read_eq).trans ?_
  exact Change.result_bind_error (by rw [Change.result_ofOutcome, stopped])

section Counted

variable (numbered : plan.tree.IsNumbered)
  (first_eq : loop.bounds.first = .const first) (last_eq : loop.bounds.last = .const last)
  (counted : iterationCount first last loop.bounds.step = .ok count)
  (recorded : loop.node.tripCount = .ok count)
include numbered first_eq last_eq counted recorded

/-- Chunks whose step is a signed word are safe. -/
theorem exists_isSafe (fits : (max chunk 1 : Nat) * loop.bounds.step ≤ maxSigned) (var : String) :
    ∃ inner after, (splitLoop id chunk var).result plan = (.ok inner, after) ∧
      loop.IsSafe (max chunk 1) var inner after := by
  have forward := step_pos_of_iterationCount counted
  have positive : 1 ≤ max chunk 1 := Nat.le_max_right chunk 1
  have least : ((max chunk 1 : Nat) : Int) * 1 ≤ (max chunk 1 : Nat) * loop.bounds.step :=
    Int.mul_le_mul_of_nonneg_left forward (by omega)
  have wide : 1 * loop.bounds.step ≤ (max chunk 1 : Nat) * loop.bounds.step :=
    Int.mul_le_mul_of_nonneg_right (by omega) forward.le
  -- Both the step from chunk to chunk and the offset of the last value in one are words.
  have words : InSigned ((max chunk 1 : Nat) * loop.bounds.step) ∧
      InSigned ((max chunk 1 : Nat) * loop.bounds.step - loop.bounds.step) := by
    unfold InSigned minSigned
    omega
  have few : divideUp count (max chunk 1) ≤ Word.maxCount :=
    (divideUp_le positive).trans (le_maxCount_of_iterationCount counted)
  have divided := loop.isDivided_divided numbered count (max chunk 1) var
  have node_eq := PlanTree.node?_of_row? ((divided.rows id).trans (if_pos rfl))
  refine ⟨_, _, loop.result_splitLoop_of_le recorded forward fits var, ?_⟩
  exact {
    read := Word.reinterpret_of_le (by omega)
    outer := divided.bounds?_outer
    within := divided.bounds?_inner numbered
    words
    forward := forward.trans_le (one_mul loop.bounds.step ▸ wide)
    counted := ⟨_, _, by rw [Plan.node, node_eq], PlanNode.tripCount_eq few rfl,
      LoopBounds.constantTripCount?_chunks first_eq last_eq counted positive var⟩ }

omit first_eq last_eq in
/-- Larger chunks overflow, or they make the outer loop go backwards. -/
theorem splitLoop_of_lt (few : chunk ≤ Word.maxCount)
    (large : maxSigned < (max chunk 1 : Nat) * loop.bounds.step) (var : String) :
    if ChunkSteps.Wraps (max chunk 1) loop.bounds.step then
      ∃ after outer, (splitLoop id chunk var).result plan = (.ok plan.tree.freshId, after) ∧
        after.bounds? id = some outer ∧ outer.step < 0
    else (splitLoop id chunk var).result plan = (.error (.abort .overflow), plan) := by
  have forward := step_pos_of_iterationCount counted
  have atMost : max chunk 1 < 2 ^ 64 := by
    unfold Word.maxCount at few
    omega
  split
  next wraps =>
    have steps_eq := ChunkSteps.ofChunk_of_wraps forward atMost wraps
    have done := Plan.result_splitLoop loop.blockOf_eq loop.block_eq loop.node_eq recorded
      loop.bounds_eq loop.read_eq steps_eq var
    have below : (ChunkSteps.wrapped (max chunk 1) loop.bounds.step).outer ≤ -loop.bounds.step :=
      ChunkSteps.wrapped_outer_le forward atMost
    refine ⟨_, _, done, loop.bounds?_splitLoop numbered steps_eq done, ?_⟩
    change (ChunkSteps.wrapped (max chunk 1) loop.bounds.step).outer < 0
    omega
  next stays =>
    exact loop.result_splitLoop_of_error recorded
      (ChunkSteps.ofChunk_of_not_wraps atMost large stays) var

/-- A split into chunks is safe exactly if the step of a whole chunk is a signed word. -/
theorem splitsSafely_iff (few : chunk ≤ Word.maxCount) (var : String) :
    loop.SplitsSafely chunk var ↔ (max chunk 1 : Nat) * loop.bounds.step ≤ maxSigned := by
  constructor
  · intro safe
    by_contra large
    have unsafely := loop.splitLoop_of_lt numbered counted recorded few (Int.not_le.mp large) var
    split at unsafely
    next =>
      obtain ⟨after, outer, done, bounds, backward⟩ := unsafely
      rcases safe with ⟨cause, refused⟩ | ⟨inner, other, alsoDone, isSafe⟩
      · rw [done] at refused
        cases refused
      · rw [done] at alsoDone
        cases alsoDone
        obtain rfl := Option.some.inj (bounds.symm.trans isSafe.outer)
        exact Int.lt_asymm backward isSafe.forward
    next =>
      rcases safe with ⟨cause, refused⟩ | ⟨inner, other, done, -⟩
      · rw [unsafely] at refused
        cases refused
      · rw [unsafely] at done
        cases done
  · intro fits
    exact .inr (loop.exists_isSafe numbered first_eq last_eq counted recorded fits var)

end Counted

end LoopAt

/-- The loop from one to ten can be split into chunks of four, and into no more than fit into a
signed word. -/
theorem splitsSafely_tenTimes : loopTenTimes.SplitsSafely 4 "p" ∧
    ¬ loopTenTimes.SplitsSafely (2 ^ 63) "p" := by
  have counted : iterationCount 1 10 1 = .ok 10 := by decide
  have recorded : loopTenTimes.node.tripCount = .ok 10 := PlanNode.tripCount_eq (by decide) rfl
  have safe (chunk : Nat) (few : chunk ≤ Word.maxCount) :=
    loopTenTimes.splitsSafely_iff isNumbered_tenTimes rfl rfl counted recorded few "p"
  exact ⟨(safe 4 (by decide)).mpr (by decide), mt (safe (2 ^ 63) (by decide)).mp (by decide)⟩

/-- Split into chunks of the largest size that a count can have, it goes backwards. Its node records
one chunk, but its bounds have no count. -/
theorem not_splitsSafely_tenTimes : ∃ after outer node,
    (splitLoop ⟨0⟩ Word.maxCount "p").result tenTimes = (.ok ⟨1⟩, after) ∧
      after.bounds? ⟨0⟩ = some outer ∧ outer.step = -1 ∧
      outer.constantTripCount? = .error (.stepNotPositive 1 10 (-1)) ∧
      after.node ⟨0⟩ = .ok node ∧ node.tripCount = .ok 1 ∧
      ¬ loopTenTimes.SplitsSafely Word.maxCount "p" := by
  have recorded : loopTenTimes.node.tripCount = .ok 10 := PlanNode.tripCount_eq (by decide) rfl
  have steps_eq : ChunkSteps.ofChunk (max Word.maxCount 1) loopTenTimes.bounds.step =
      .ok (.wrapped Word.maxCount 1) :=
    ChunkSteps.ofChunk_of_wraps (by decide) (by decide) (by decide)
  have done := Plan.result_splitLoop loopTenTimes.blockOf_eq loopTenTimes.block_eq
    loopTenTimes.node_eq recorded loopTenTimes.bounds_eq loopTenTimes.read_eq steps_eq "p"
  have bounds := loopTenTimes.bounds?_splitLoop isNumbered_tenTimes steps_eq done
  refine ⟨_, _, _, done, bounds, by decide, by decide, rfl, PlanNode.tripCount_eq (by decide) rfl,
    ?_⟩
  rintro (⟨cause, refused⟩ | ⟨inner, after, alsoDone, safe⟩)
  · rw [done] at refused
    cases refused
  · rw [done] at alsoDone
    cases alsoDone
    exact absurd (safe.outer.symm.trans bounds) (by decide)

end Plan

end ParallelLoop
