/-
# Tasks

A task is a piece of a loop for one worker: some of the values of the iteration
variable. The values are listed one by one, or described by a range when listing
them would be wasteful.
-/

import ParallelLoop.Task.Iteration

namespace ParallelLoop

/-- The iterations of a task. -/
inductive Iterations
  /-- The values one by one. -/
  | listed (values : List Int)
  /-- All values of a range. -/
  | ranged (range : IterationRange)
  deriving DecidableEq, Repr

/-- A part of a loop, to be run by one worker. -/
structure Task where
  /-- The iteration variable. -/
  var : String
  iterations : Iterations
  deriving DecidableEq, Repr

namespace Task

/-- The name of the way in which the iterations are given. -/
def typeName (task : Task) : String :=
  match task.iterations with
  | .listed _ => "SET"
  | .ranged _ => "RANGE"

/-- The numbers that describe the task: the values themselves, or the bounds and the step of
their range. -/
def numbers (task : Task) : List Int :=
  match task.iterations with
  | .listed values => values
  | .ranged range => [range.first, range.last, range.step]

/-- Number of iterations. -/
def size (task : Task) : Nat :=
  match task.iterations with
  | .listed values => values.length
  | .ranged range => range.size

/-- The task has no iteration. -/
def isEmpty (task : Task) : Bool := task.size == 0

/-- Values of the first iterations in order of execution, `limit` of them or as many as there
are. -/
def valuesUpTo (task : Task) (limit : Nat) : Except Failure (List Int) :=
  match task.iterations with
  | .listed values => .ok (values.take limit)
  | .ranged range => range.valuesUpTo limit

/-- Values of all iterations in order of execution. -/
def values (task : Task) : Except Failure (List Int) :=
  match task.iterations with
  | .listed values => .ok values
  | .ranged range => range.values

/-- The value is one of those that the task runs. -/
def contains (task : Task) (value : Int) : Bool :=
  match task.iterations with
  | .listed values => values.contains value
  | .ranged range => range.contains value

/-- The task as it is written in listings. -/
def render (task : Task) : String :=
  let numbers := String.intercalate "," (task.numbers.map toString)
  "task (type=" ++ task.typeName ++ ", " ++ task.var ++ "=[" ++ numbers ++ "])"

end Task

end ParallelLoop
