/-
# Settings in the environment

Three variables of the environment change defaults. A switch is on for four words and
off for all others; a variable of blanks does not count as set.
-/

import ParallelLoop.Settings.Basic
import ParallelLoop.Text.Blank

namespace ParallelLoop.Overrides

/-- The word in a variable: no blanks around it, and small letters. -/
def word (text : String) : String := (Text.trim text).map Char.toLower

/-- The switch that a variable holds. -/
def switch? (text : String) : Option Bool :=
  let word := word text
  if word.isEmpty then none else some (["1", "true", "yes", "on"].contains word)

/-- The policy that a variable names. -/
def policy? (text : String) : Option EvictionPolicy :=
  match word text with
  | "lru" => some .lru
  | "fifo" => some .fifo
  | _ => none

/-- The overrides of an environment, given by the values of its variables. -/
def ofEnvironment (value? : String → Option String) : Overrides :=
  { nestedParallelism := (value? "PARFOR_NESTED_PARALLELISM").bind switch?
    rangeTasks := (value? "PARFOR_RANGE_TASKS").bind switch?
    policy := (value? "PARFOR_BUFFER_POLICY").bind policy? }

end ParallelLoop.Overrides
