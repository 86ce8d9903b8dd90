/-
# Matrices by weight

The third rule collects the names of matrices that operators read by slices at the value of a
variable, in the order of the operators. It sorts them, and takes the first of the heaviest ones.

What it takes depends on the set of names alone (`isChoice_of_heaviest`): it is the matrix with most
nonzero cells, and the one with the least name of those that have as many. Which names it collects
is told operator by operator (`ReadsAt`).
-/

import Mathlib.Data.Set.Insert
import ParallelLoop.Proofs.Optimizer.Placing

namespace ParallelLoop

open Change (Respects SameView)

variable {α : Type}

/-! ## The heaviest of some matrices -/

section

variable {vars : Variables} {names seen : Set String} {name other : String} {matrix : MatrixMeta}

/-- All of these matrices are live. This one has most nonzero cells, and the least name of those
that have as many. -/
structure IsHeaviest (vars : Variables) (names : Set String) (name : String) : Prop where
  mem : name ∈ names
  outweighs : ∃ matrix, vars.get? name = some matrix ∧ ∀ other ∈ names, ∃ twin,
    vars.get? other = some twin ∧
      (twin.nonzeros < matrix.nonzeros ∨ twin.nonzeros = matrix.nonzeros ∧ name ≤ other)

theorem IsHeaviest.unique (first : IsHeaviest vars names name)
    (second : IsHeaviest vars names other) : name = other := by
  obtain ⟨own, own_eq, outweighs⟩ := first.outweighs
  obtain ⟨its, its_eq, alsoOutweighs⟩ := second.outweighs
  obtain ⟨_, alsoIts, ahead⟩ := outweighs other second.mem
  obtain ⟨_, alsoOwn, behind⟩ := alsoOutweighs name first.mem
  obtain rfl := Option.some.inj (alsoIts.symm.trans its_eq)
  obtain rfl := Option.some.inj (alsoOwn.symm.trans own_eq)
  rcases ahead with lighter | ⟨same, before⟩ <;> rcases behind with heavier | ⟨alsoSame, after⟩
  · omega
  · omega
  · omega
  · exact String.le_antisymm before after

theorem isHeaviest_singleton (live : vars.get? name = some matrix) :
    IsHeaviest vars {name} name where
  mem := rfl
  outweighs := ⟨matrix, live, by
    rintro _ rfl
    exact ⟨matrix, live, .inr ⟨rfl, String.le_refl _⟩⟩⟩

/-- A heavier matrix takes over. -/
theorem IsHeaviest.insert_heavier {best : MatrixMeta} (heaviest : IsHeaviest vars names name)
    (known : vars.get? name = some best) (live : vars.get? other = some matrix)
    (heavier : best.nonzeros < matrix.nonzeros) : IsHeaviest vars (insert other names) other where
  mem := Set.mem_insert ..
  outweighs := by
    obtain ⟨own, own_eq, outweighs⟩ := heaviest.outweighs
    obtain rfl := Option.some.inj (own_eq.symm.trans known)
    refine ⟨matrix, live, ?_⟩
    rintro third (rfl | there)
    · exact ⟨matrix, live, .inr ⟨rfl, String.le_refl _⟩⟩
    · obtain ⟨twin, twin_eq, most⟩ := outweighs third there
      exact ⟨twin, twin_eq, .inl (by omega)⟩

/-- Any other matrix with a later name does not. -/
theorem IsHeaviest.insert_lighter {best : MatrixMeta} (heaviest : IsHeaviest vars names name)
    (known : vars.get? name = some best) (live : vars.get? other = some matrix)
    (lighter : ¬ best.nonzeros < matrix.nonzeros) (later : name ≤ other) :
    IsHeaviest vars (insert other names) name where
  mem := Set.mem_insert_of_mem _ heaviest.mem
  outweighs := by
    obtain ⟨own, own_eq, outweighs⟩ := heaviest.outweighs
    obtain rfl := Option.some.inj (own_eq.symm.trans known)
    refine ⟨own, own_eq, ?_⟩
    rintro third (rfl | there)
    · refine ⟨matrix, live, ?_⟩
      rcases (Nat.le_of_not_lt lighter).lt_or_eq with less | same
      · exact .inl less
      · exact .inr ⟨same, later⟩
    · exact outweighs third there

/-- The heaviest of these matrices is chosen, and none is if there are none. -/
def IsChoice (vars : Variables) (names : Set String) : Option String → Prop
  | none => names = ∅
  | some name => IsHeaviest vars names name

theorem IsChoice.unique {first second : Option String} (one : IsChoice vars names first)
    (another : IsChoice vars names second) : first = second := by
  match first, second with
  | none, none => rfl
  | none, some _ => exact absurd another.mem (by simp [show names = ∅ from one])
  | some _, none => exact absurd one.mem (by simp [show names = ∅ from another])
  | some _, some _ => rw [IsHeaviest.unique one another]

/-- All matrices are live among which one was chosen. -/
theorem IsChoice.live {choice : Option String} (chosen : IsChoice vars names choice)
    (there : name ∈ names) : (vars.get? name).isSome = true := by
  cases choice with
  | none => exact absurd there (by simp [show names = ∅ from chosen])
  | some best =>
    obtain ⟨_, _, outweighs⟩ := IsHeaviest.outweighs chosen
    obtain ⟨twin, twin_eq, -⟩ := outweighs name there
    exact Option.isSome_of_eq_some twin_eq

namespace PlanningRule

/-- A matrix that was the heaviest so far is compared to others in order. -/
theorem of_heaviest_some {later : List String} {best : String} {chosen : Option (String × Nat)}
    (heaviest_best : IsHeaviest vars seen best) (live : vars.get? best = some matrix)
    (sorted : later.Pairwise (· ≤ ·)) (before : ∀ name ∈ later, best ≤ name)
    (done : heaviest vars (some (best, matrix.nonzeros)) later = .ok chosen) :
    IsChoice vars (seen ∪ {name | name ∈ later}) (chosen.map Prod.fst) := by
  induction later generalizing seen best matrix with
  | nil =>
    cases done
    simpa [IsChoice] using heaviest_best
  | cons name rest ih =>
    rw [List.pairwise_cons] at sorted
    rw [List.forall_mem_cons] at before
    -- The name that is looked at next joins those that were seen.
    have together : seen ∪ {other | other ∈ name :: rest} =
        insert name seen ∪ {other | other ∈ rest} := by
      ext other
      simp only [List.mem_cons, Set.mem_union, Set.mem_ofPred_eq, Set.mem_insert_iff]
      tauto
    rw [together]
    rw [heaviest] at done
    split at done
    next => cases done
    next twin found =>
      dsimp only at done
      by_cases heavier : matrix.nonzeros < twin.nonzeros
      · rw [decide_eq_true heavier, if_pos rfl] at done
        exact ih (heaviest_best.insert_heavier live found heavier) found sorted.2 sorted.1 done
      · rw [decide_eq_false heavier, if_neg Bool.false_ne_true] at done
        exact ih (heaviest_best.insert_lighter live found heavier before.1) live sorted.2 before.2
          done

/-- Which of some matrices is chosen does not depend on their order, nor on how often each is
there. -/
theorem isChoice_of_heaviest {listed : List String} {chosen : Option (String × Nat)}
    (done : heaviest vars none (listed.mergeSort fun a b => decide (a ≤ b)) = .ok chosen) :
    IsChoice vars {name | name ∈ listed} (chosen.map Prod.fst) := by
  have sorted : (listed.mergeSort fun a b => decide (a ≤ b)).Pairwise
      fun a b => decide (a ≤ b) = true := by
    apply List.pairwise_mergeSort
    · intro a b c
      simpa using String.le_trans
    · intro a b
      simpa using String.le_total a b
  have same : {name | name ∈ listed} =
      {name | name ∈ listed.mergeSort fun a b => decide (a ≤ b)} := by
    ext name
    exact List.mem_mergeSort.symm
  -- Sorting does not change which names there are, and the fold takes them in order.
  rw [same]
  generalize listed.mergeSort _ = ordered at done sorted
  cases ordered with
  | nil =>
    cases done
    simp [IsChoice]
  | cons name rest =>
    simp only [List.pairwise_cons, decide_eq_true_eq] at sorted
    rw [heaviest] at done
    split at done
    next => cases done
    next matrix live =>
      have chosen := of_heaviest_some (isHeaviest_singleton live) live sorted.2 sorted.1 done
      have all : {other | other ∈ name :: rest} = {name} ∪ {other | other ∈ rest} := by
        ext other
        simp
      rwa [all]

end PlanningRule

end

/-! ## What is read at the value of a variable -/

namespace PlanningRule

variable {plan : Plan α} {tree : PlanTree} {var : String} {operand : Nat}

/-- The tree is an indexing operator that reads slices which run along this operand: rows along the
lower row, columns along the lower column. -/
def RunsAlong (operand : Nat) (tree : PlanTree) : Prop :=
  isOperator rightIndexing tree = true ∧
    (tree.root.param? .dataPartitionFormat = some PartitionFormat.rowWise.name ∧ operand = 1 ∨
      tree.root.param? .dataPartitionFormat = some PartitionFormat.columnWise.name ∧ operand = 3)

/-- The tree is an operator that reads this matrix by slices, and the operand that they run along is
a plain read of the variable. -/
def ReadsAt (plan : Plan α) (var : String) (tree : PlanTree) (name : String) : Prop :=
  ∃ operand hop, RunsAlong operand tree ∧ plan.readHop tree.id = .ok hop ∧
    hop.inputs[operand]? = some ⟨var, true⟩ ∧ hop.inputName? 0 = some name

/-- The operand that slices run along, if they do, is looked up in the format. -/
theorem runsAlong_iff (operator : isOperator rightIndexing tree = true) :
    RunsAlong operand tree ↔ ((tree.root.param? .dataPartitionFormat).bind
      PartitionFormat.ofName?).bind indexOperand? = some operand := by
  rw [RunsAlong, and_iff_right operator]
  constructor
  · rintro (⟨format, rfl⟩ | ⟨format, rfl⟩) <;> rw [format, Option.bind_some,
      PartitionFormat.ofName?_name] <;> rfl
  · intro found
    obtain ⟨format, named, along⟩ := Option.bind_eq_some_iff.mp found
    obtain ⟨text, recorded, spelled⟩ := Option.bind_eq_some_iff.mp named
    have text_eq : format.name = text := by simpa using List.find?_some spelled
    rw [recorded, ← text_eq]
    cases format <;> cases along
    · exact .inl ⟨rfl, rfl⟩
    · exact .inr ⟨rfl, rfl⟩

theorem RunsAlong.unique {another : Nat} (along : RunsAlong operand tree)
    (alsoAlong : RunsAlong another tree) : operand = another := by
  have first := (runsAlong_iff along.1).mp along
  have second := (runsAlong_iff along.1).mp alsoAlong
  exact Option.some.inj (first.symm.trans second)

/-- An operator that was looked at could be read if slices run along an operand, and gave the matrix
that it reads. -/
theorem of_directlyIndexed {matrix : Option String}
    (done : (directlyIndexed var tree).result plan = (.ok matrix, plan)) :
    (∀ operand, RunsAlong operand tree → ∃ hop, plan.readHop tree.id = .ok hop) ∧
      ∀ name, matrix = some name ↔ ReadsAt plan var tree name := by
  unfold directlyIndexed at done
  split at done
  next operator =>
    split at done
    next none =>
      cases done
      have never {operand : Nat} : ¬ RunsAlong operand tree := by
        rw [runsAlong_iff operator, none]
        exact nofun
      exact ⟨fun _ along => absurd along never, fun name =>
        ⟨nofun, fun ⟨_, _, along, _⟩ => absurd along never⟩⟩
    next own along =>
      have along := (runsAlong_iff operator).mpr along
      obtain ⟨hop, read, chosen⟩ := Plan.of_readHop_bind done
      cases chosen
      refine ⟨fun _ _ => ⟨hop, read⟩, fun name => ?_⟩
      -- The input along which the loop runs is the variable itself, and not computed from it.
      have direct : hop.inputs[own]?.any (fun input => input.isData && input.name == var) = true ↔
          hop.inputs[own]? = some ⟨var, true⟩ := by
        rcases hop.inputs[own]? with _ | ⟨read, isData⟩ <;> simp [and_comm]
      simp only [direct, Option.ite_none_right_eq_some]
      constructor
      · rintro ⟨plain, first⟩
        exact ⟨own, hop, along, read, plain, first⟩
      · rintro ⟨operand, twin, alsoAlong, alsoRead, plain, first⟩
        obtain rfl := along.unique alsoAlong
        obtain rfl := Except.ok.inj (read.symm.trans alsoRead)
        exact ⟨plain, first⟩
  next other =>
    cases done
    exact ⟨fun _ along => absurd along.1 other, fun name =>
      ⟨nofun, fun ⟨_, _, along, _⟩ => absurd along.1 other⟩⟩

theorem succeeds_directlyIndexed
    (readable : ∀ operand, RunsAlong operand tree → ∃ hop, plan.readHop tree.id = .ok hop)
    (var : String) : ∃ matrix, (directlyIndexed var tree).result plan = (.ok matrix, plan) := by
  unfold directlyIndexed
  split
  next operator =>
    split
    next => exact ⟨none, rfl⟩
    next operand along =>
      obtain ⟨hop, read⟩ := readable operand ((runsAlong_iff operator).mpr along)
      rw [Plan.result_readHop_bind read]
      exact ⟨_, rfl⟩
  next => exact ⟨none, rfl⟩

/-- The same for several operators. -/
theorem of_directlyIndexedAll {trees : List PlanTree} {names : List String}
    (done : (directlyIndexedAll var trees).result plan = (.ok names, plan)) :
    (∀ tree ∈ trees, ∀ operand, RunsAlong operand tree → ∃ hop, plan.readHop tree.id = .ok hop) ∧
      ∀ name, name ∈ names ↔ ∃ tree ∈ trees, ReadsAt plan var tree name := by
  induction trees generalizing names with
  | nil =>
    cases done
    simp
  | cons tree rest ih =>
    obtain ⟨matrix, mid, first, later⟩ := Change.of_bind done
    obtain rfl : mid = plan :=
      (respects_directlyIndexed var tree : Respects (SameView id) _).of_result first
    obtain ⟨others, last, steps, returned⟩ := Change.of_bind later
    cases returned
    obtain ⟨readable, reads⟩ := of_directlyIndexed first
    obtain ⟨alsoReadable, alsoReads⟩ := ih steps
    refine ⟨List.forall_mem_cons.mpr ⟨readable, alsoReadable⟩, fun name => ?_⟩
    rw [List.mem_append, Option.mem_toList, reads, alsoReads, List.exists_mem_cons_iff]

theorem succeeds_directlyIndexedAll {trees : List PlanTree} (readable : ∀ tree ∈ trees, ∀ operand,
    RunsAlong operand tree → ∃ hop, plan.readHop tree.id = .ok hop) (var : String) :
    ∃ names, (directlyIndexedAll var trees).result plan = (.ok names, plan) := by
  induction trees with
  | nil => exact ⟨[], rfl⟩
  | cons tree rest ih =>
    rw [List.forall_mem_cons] at readable
    obtain ⟨matrix, done⟩ := succeeds_directlyIndexed readable.1 var
    obtain ⟨names, others⟩ := ih readable.2
    refine ⟨matrix.toList ++ names, ?_⟩
    rw [directlyIndexedAll, Change.result_bind done, Change.result_bind others]
    rfl

end PlanningRule

end ParallelLoop
