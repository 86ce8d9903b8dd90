/-
# Trip counts

A node records the trip count of its loop as a text, and a count is read back as it was
written. A plan that is built for a loop between constants has a trip count, and its
topmost node records it. As long as no loop uses the variable that counts chunks, a plan
is not taken for one that was split before.
-/

import ParallelLoop.Proofs.Plan.Building
import ParallelLoop.Proofs.Plan.Chunking
import ParallelLoop.Proofs.Task.Values

namespace ParallelLoop

namespace Text

theorem readDigits_eq {digits : List Char} (all : ∀ c ∈ digits, c.isDigit = true) (value : Nat) :
    readDigits value digits = some (Nat.ofDigitChars 10 digits value) := by
  induction digits generalizing value with
  | nil => simp [readDigits]
  | cons c rest ih =>
    rw [List.forall_mem_cons] at all
    rw [readDigits, digit?, if_pos all.1, Option.bind_some, ih all.2, Nat.ofDigitChars_cons]

theorem isBlank_of_isDigit {c : Char} (digit : c.isDigit = true) : isBlank c = false := by
  have range : 48 ≤ c.toNat ∧ c.toNat ≤ 57 := by
    simpa [Char.isDigit, UInt32.le_iff_toNat_le] using digit
  simp only [isBlank, Bool.or_eq_false_iff, Bool.and_eq_false_imp, decide_eq_true_eq,
    decide_eq_false_iff_not, beq_eq_false_iff_ne]
  omega

theorem trimChars_eq_self {chars : List Char} (none : ∀ c ∈ chars, isBlank c = false) :
    trimChars chars = chars := by
  have kept {chars : List Char} (none : ∀ c ∈ chars, isBlank c = false) :
      chars.dropWhile isBlank = chars := by
    cases chars with
    | nil => rfl
    | cons c rest => exact List.dropWhile_cons_of_neg (by simp [none c])
  unfold trimChars
  rw [kept none, kept (by simpa using none), List.reverse_reverse]

/-- A count is read as it was written. -/
theorem count?_toString {count : Nat} (fits : count ≤ Word.maxCount) :
    count? (trim (toString count)) = some count := by
  have digits : ∀ c ∈ Nat.toDigits 10 count, c.isDigit = true := fun c there =>
    Nat.isDigit_of_mem_toDigits (by decide) (by decide) there
  have trimmed : (trim (toString count)).toList = Nat.toDigits 10 count := by
    rw [trim, String.toList_ofList, Nat.toString_eq_repr, Nat.toList_repr]
    exact trimChars_eq_self fun c there => isBlank_of_isDigit (digits c there)
  have number : readNumber? (Nat.toDigits 10 count) = some count := by
    unfold readNumber?
    split
    next nothing => exact absurd nothing Nat.toDigits_ne_nil
    next => rw [readDigits_eq digits, Nat.ofDigitChars_ten_toDigits]
  unfold count?
  rw [trimmed]
  split
  next signed =>
    -- The text does not start with a plus sign.
    exact absurd (digits '+' (signed ▸ List.mem_cons_self ..)) (by decide)
  next =>
    dsimp only
    rw [number]
    exact Word.count?_eq_some_iff.mpr ⟨fits, rfl⟩

end Text

theorem LoopBounds.constantTripCount?_eq {bounds : LoopBounds} {first last : Int}
    (first_eq : bounds.first = .const first) (last_eq : bounds.last = .const last) :
    bounds.constantTripCount? = (iterationCount first last bounds.step).map some := by
  rw [constantTripCount?, first_eq, last_eq]

/-- A node whose text is a count records this count. -/
theorem PlanNode.tripCount_eq {node : PlanNode} {count : Nat} (fits : count ≤ Word.maxCount)
    (recorded : node.parameters.numIterations = some (toString count)) :
    node.tripCount = .ok count := by
  have text : node.param? .numIterations = some (toString count) := recorded
  rw [tripCount, text]
  dsimp only
  rw [Text.count?_toString fits]

namespace Plan

variable {α : Type} {plan : Plan α} {id : NodeId} {top : BlockId} {bounds : LoopBounds}
  {count : Nat}

/-- The loop of the plan runs between constants, and so often. -/
structure HasConstantBounds (plan : Plan α) (top : BlockId) (bounds : LoopBounds) (count : Nat) :
    Prop where
  root : plan.tree.root.block = some top
  block : ∃ block, plan.program.block top = .ok block ∧ block.bounds = some bounds
  constant : ∃ first last, bounds.first = .const first ∧ bounds.last = .const last ∧
    Word.InSigned first ∧ Word.InSigned last
  counted : bounds.constantTripCount? = .ok (some count)

/-- A count is recorded for a block with constant bounds. -/
theorem recorded_of_nodeOfBlock {blockId : BlockId} {block : Block α} {node : PlanNode}
    (done : nodeOfBlock id blockId block = .ok node) (bounds_eq : block.bounds = some bounds) :
    ∃ found, bounds.constantTripCount? = .ok found ∧
      node.parameters.numIterations = found.map toString := by
  unfold nodeOfBlock at done
  rw [bounds_eq] at done
  split at done
  next =>
    obtain ⟨found, counted, returned⟩ := Outcome.of_bind done
    cases returned
    exact ⟨found, counted, rfl⟩

/-- The topmost node of a plan that is built records the count of its block. -/
theorem IsBuilt.recorded_root (built : plan.IsBuilt) {block : Block α}
    (root : plan.tree.root.block = some top) (found : plan.program.block top = .ok block)
    (bounds_eq : block.bounds = some bounds) :
    ∃ found, bounds.constantTripCount? = .ok found ∧
      plan.tree.root.parameters.numIterations = found.map toString := by
  -- The root is made from its block at the start, and nothing that is added later changes it.
  induction built with
  | ofLoop done =>
    obtain ⟨held, held_eq, chosen⟩ := Outcome.of_bind done
    split at chosen
    next => cases chosen
    next =>
      obtain ⟨node, node_eq, returned⟩ := Outcome.of_bind chosen
      cases returned
      obtain ⟨-, block_eq, -⟩ := of_nodeOfBlock node_eq
      obtain rfl := Option.some.inj (block_eq.symm.trans root)
      obtain rfl := Except.ok.inj (held_eq.symm.trans found)
      exact recorded_of_nodeOfBlock node_eq bounds_eq
  | addBlockNode _ done ih =>
    obtain ⟨_, _, -, -, -, rfl⟩ := of_addBlockNode done
    rw [PlanTree.root_addChild] at root ⊢
    exact ih root found
  | addHopNode _ done ih =>
    obtain ⟨_, -, -, -, -, rfl⟩ := of_addHopNode done
    rw [PlanTree.root_addChild] at root ⊢
    exact ih root found

/-- A plan that is built for a loop between constants records its trip count. -/
theorem IsBuilt.hasConstantBounds (built : plan.IsBuilt) {block : Block α} {first last : Int}
    (root : plan.tree.root.block = some top) (found : plan.program.block top = .ok block)
    (bounds_eq : block.bounds = some bounds)
    (constant : bounds.first = .const first ∧ bounds.last = .const last)
    (words : Word.InSigned first ∧ Word.InSigned last) :
    ∃ count, plan.HasConstantBounds top bounds count ∧ plan.tree.root.tripCount = .ok count := by
  obtain ⟨counted, counted_eq, recorded⟩ := built.recorded_root root found bounds_eq
  have some_eq := LoopBounds.constantTripCount?_eq constant.1 constant.2
  cases iterations : iterationCount first last bounds.step with
  | error cause =>
    rw [some_eq, iterations] at counted_eq
    cases counted_eq
  | ok count =>
    rw [some_eq, iterations] at counted_eq
    cases counted_eq
    refine ⟨count, ⟨root, ⟨block, found, bounds_eq⟩,
      ⟨first, last, constant.1, constant.2, words⟩, ?_⟩,
      PlanNode.tripCount_eq (le_maxCount_of_iterationCount iterations) recorded⟩
    rw [some_eq, iterations]
    rfl

/-- The count is that of the values between the constants. -/
theorem HasConstantBounds.iterationCount_eq (constant : plan.HasConstantBounds top bounds count)
    {first last : Int} (first_eq : bounds.first = .const first)
    (last_eq : bounds.last = .const last) : iterationCount first last bounds.step = .ok count := by
  have counted := constant.counted
  rw [LoopBounds.constantTripCount?_eq first_eq last_eq] at counted
  cases found : iterationCount first last bounds.step with
  | error cause =>
    rw [found] at counted
    cases counted
  | ok iterations =>
    rw [found] at counted
    cases counted
    rfl

/-- A loop that is counted moves forward. -/
theorem HasConstantBounds.step_pos (constant : plan.HasConstantBounds top bounds count) :
    0 < bounds.step := by
  obtain ⟨first, last, first_eq, last_eq, -, -⟩ := constant.constant
  exact step_pos_of_iterationCount (constant.iterationCount_eq first_eq last_eq)

theorem HasConstantBounds.fits (constant : plan.HasConstantBounds top bounds count) :
    count ≤ Word.maxCount := by
  obtain ⟨first, last, first_eq, last_eq, -, -⟩ := constant.constant
  exact le_maxCount_of_iterationCount (constant.iterationCount_eq first_eq last_eq)

/-- Where no loop uses the variable that counts chunks, no loop is taken for one that was split. -/
theorem splitTripCount_eq_none {outerVar : String} {split : Option Nat}
    (avoids : plan.program.Avoids outerVar)
    (done : plan.splitTripCount id outerVar = .ok split) : split = none := by
  unfold splitTripCount at done
  split at done
  next tree _ =>
    split at done
    next inner _ =>
      split at done
      next =>
        cases done
        rfl
      next =>
        obtain ⟨outerId, -, outerFound⟩ := Outcome.of_bind (Outcome.of_orFailure done)
        obtain ⟨outer, outer_eq, nestedIdFound⟩ := Outcome.of_bind outerFound
        obtain ⟨nestedId, -, nestedFound⟩ := Outcome.of_bind nestedIdFound
        obtain ⟨nested, -, chosen⟩ := Outcome.of_bind nestedFound
        split at chosen
        next bounds_eq _ =>
          split at chosen
          next counts =>
            -- An outer loop of a split has the variable, which no block of the program has.
            exact absurd counts.1 (avoids outerId outer _ outer_eq bounds_eq).var
          next =>
            cases chosen
            rfl
        next =>
          cases chosen
          rfl
    next =>
      cases done
      rfl
  next => cases done

end Plan

end ParallelLoop
