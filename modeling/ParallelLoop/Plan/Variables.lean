/-
# Live matrices

The variables in the scope of a loop that hold matrices, and what is known about
each: its dimensions, the number of its nonzero cells and its storage format.
-/

import ParallelLoop.Plan.Kind

namespace ParallelLoop

/-- What is known about a live matrix. -/
structure MatrixMeta where
  rows : Nat
  columns : Nat
  nonzeros : Nat
  format : MatrixFormat
  deriving DecidableEq, Repr

/-- Live matrices by name; a name occurs once. -/
structure Variables where
  entries : List (String × MatrixMeta)
  deriving DecidableEq, Repr

namespace Variables

/-- No live matrix. -/
def empty : Variables := { entries := [] }

/-- The matrix of this name. -/
def get? (vars : Variables) (name : String) : Option MatrixMeta := vars.entries.lookup name

/-- Makes the matrix live under this name, in place of any other. -/
def insert (vars : Variables) (name : String) (matrix : MatrixMeta) : Variables :=
  { entries := (name, matrix) :: vars.entries.filter fun entry => entry.1 != name }

/-- Number of live matrices. -/
def size (vars : Variables) : Nat := vars.entries.length

/-- The matrices of a list, inserted one after the other. -/
def ofList (matrices : List (String × MatrixMeta)) : Variables :=
  matrices.foldl (fun vars matrix => vars.insert matrix.1 matrix.2) empty

/-- Leaving out the entries of one name does not show at another. -/
theorem lookup_filter_ne {α : Type} (name other : String) (different : other ≠ name)
    (entries : List (String × α)) :
    (entries.filter fun entry => entry.1 != name).lookup other = entries.lookup other := by
  induction entries with
  | nil => rfl
  | cons entry rest ih =>
    obtain ⟨key, value⟩ := entry
    by_cases same : key = name
    · have skip : (other == key) = false := beq_false_of_ne (same ▸ different)
      rw [List.filter_cons_of_neg (by simp [same]), ih, List.lookup_cons, skip]
    · rw [List.filter_cons_of_pos (by simp [same]), List.lookup_cons, List.lookup_cons, ih]

theorem get?_insert (vars : Variables) (name other : String) (matrix : MatrixMeta) :
    (vars.insert name matrix).get? other =
      if other = name then some matrix else vars.get? other := by
  unfold get? insert
  split
  · next same => simp [same]
  · next different =>
    rw [List.lookup_cons, beq_false_of_ne different]
    exact lookup_filter_ne name other different vars.entries

end Variables

end ParallelLoop
