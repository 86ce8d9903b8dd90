/-
# Changes

A change works on a state step by step and may stop early. It is no transaction:
when it stops, the state keeps what the steps before did.
-/

import ParallelLoop.Error

namespace ParallelLoop

/-- A computation that changes a state of type `σ` and gives an `α` unless it stops. -/
abbrev Change (σ α : Type) := ExceptT Failure (StateM σ) α

namespace Change

variable {σ α : Type}

/-- What the change gives, and the state it leaves. -/
def result (change : Change σ α) (state : σ) : Except Failure α × σ := change.run.run state

/-- Stops with an error. -/
def fail (cause : Error) : Change σ α := throw (.error cause)

/-- Stops without an error. -/
def abort (cause : Abort) : Change σ α := throw (.abort cause)

/-- An outcome that does not depend on the state. -/
def ofExcept : Except Error α → Change σ α
  | .ok value => pure value
  | .error cause => fail cause

/-- The value of an operation that may also stop without an error. -/
def ofOutcome : Except Failure α → Change σ α
  | .ok value => pure value
  | .error cause => throw cause

/-- An outcome that depends on the state. -/
def inspect (look : σ → Except Error α) : Change σ α := do ofExcept (look (← get))

end Change

end ParallelLoop
