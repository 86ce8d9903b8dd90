/-
# Kinds of task partitioners

The five ways to cut an iteration space into tasks, and their names.
-/

import ParallelLoop.Text.Blank

namespace ParallelLoop

/-- A way to cut an iteration space into tasks. -/
inductive PartitionerKind
  /-- One iteration per task. -/
  | naive
  /-- Tasks of one given size. -/
  | fixed
  /-- One task per worker. -/
  | static
  /-- Batches of shrinking tasks, each batch covering half of what is left. -/
  | factoring
  /-- Factoring whose task size has a lower limit. -/
  | constrainedFactoring
  deriving DecidableEq, Repr

namespace PartitionerKind

/-- All kinds. -/
def all : List PartitionerKind := [naive, fixed, static, factoring, constrainedFactoring]

/-- The canonical name. -/
def name : PartitionerKind → String
  | naive => "NAIVE"
  | fixed => "FIXED"
  | static => "STATIC"
  | factoring => "FACTORING"
  | constrainedFactoring => "FACTORING_CMIN"

/-- The name that a text spells: without blanks around it, in capital ASCII letters. -/
def spelled (text : String) : String := (Text.trim text).toUpper

/-- The kind of a canonical name. -/
def ofName? (name : String) : Option PartitionerKind :=
  all.find? fun kind => kind.name == name

/-- The kind divides work among a number of workers. -/
def needsWorkers : PartitionerKind → Bool
  | static | factoring | constrainedFactoring => true
  | naive | fixed => false

/-- The kind needs a task size. -/
def needsSize : PartitionerKind → Bool
  | fixed | constrainedFactoring => true
  | naive | static | factoring => false

theorem ofName?_name (kind : PartitionerKind) : ofName? kind.name = some kind := by
  cases kind <;> decide

end PartitionerKind

end ParallelLoop
