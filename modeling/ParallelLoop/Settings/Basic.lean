/-
# Settings

The thresholds and switches of planning, of task creation and of the write buffer.
Numbers that scale quantities are of the type of these quantities.

Three of the defaults can be overridden by the environment of the process; see
`Settings.Environment`.
-/

import ParallelLoop.Quantity
import ParallelLoop.Task.Partitioner

namespace ParallelLoop

/-- Settings of the optimizer. -/
structure OptimizerSettings (α : Type) where
  /-- Trip count from which a loop is large. -/
  sizeThreshold : α
  /-- A loop with a nested loop this many thresholds long is large, too. -/
  nestedSizeFactor : α
  /-- Scales the parallelism of the machine and of the cluster for local operators. -/
  workerFactor : α
  /-- Scales the parallelism of the machine for plans with distributed operators. -/
  mixedWorkerFactor : α
  /-- The share of the memory that operators may use. -/
  memoryShare : α
  /-- Remote loops may be split into one chunk per cluster node. -/
  nestedParallelism : Bool
  /-- Results in cell formats that hold no nonzero yet may be merged by copying. -/
  copyCellFiles : Bool
  /-- Rows and columns of a partition block. -/
  blockSize : Nat
  /-- The variable of the outer loop of a split. -/
  nestedVar : String
  deriving BEq, DecidableEq, Repr

/-- Settings of task creation. -/
structure TaskSettings where
  rangeTasks : Bool
  /-- Only tasks with more iterations than this are given as a range. -/
  rangeMinSize : Nat
  /-- Bound of the task queue. -/
  queueCapacity : Option Nat
  deriving BEq, DecidableEq, Repr

/-- The encoding that the settings ask for. -/
def TaskSettings.encoding (settings : TaskSettings) : RangeEncoding :=
  { enabled := settings.rangeTasks, minSize := settings.rangeMinSize }

/-- Which entry leaves a full write buffer first. -/
inductive EvictionPolicy
  /-- The entry written longest ago. -/
  | fifo
  /-- The entry neither written nor read for the longest time. -/
  | lru
  deriving BEq, DecidableEq, Repr

namespace EvictionPolicy

/-- The name of the policy in settings. -/
def name : EvictionPolicy → String
  | fifo => "FIFO"
  | lru => "LRU"

/-- The name of the policy in the log. -/
def logName : EvictionPolicy → String
  | fifo => "Fifo"
  | lru => "Lru"

end EvictionPolicy

/-- Settings of the write buffer. -/
structure BufferSettings (α : Type) where
  /-- The share of the memory that the buffer may fill. -/
  fraction : α
  policy : EvictionPolicy
  /-- Pages of removed entries are kept for later ones. -/
  pageCache : Bool
  /-- Larger blocks are never buffered. -/
  maxEntryBytes : Nat
  deriving BEq, DecidableEq, Repr

/-- All settings. -/
structure Settings (α : Type) where
  optimizer : OptimizerSettings α
  tasks : TaskSettings
  buffer : BufferSettings α
  deriving BEq, DecidableEq, Repr

/-- What the environment overrides. -/
structure Overrides where
  nestedParallelism : Option Bool := none
  rangeTasks : Option Bool := none
  policy : Option EvictionPolicy := none
  deriving BEq, DecidableEq, Repr

namespace Overrides

variable {α : Type} [OfScientific α]

/-- The default settings of the optimizer. -/
def optimizer (overrides : Overrides) : OptimizerSettings α :=
  { sizeThreshold := 100.0
    nestedSizeFactor := 10.0
    workerFactor := 1.0
    mixedWorkerFactor := 2.0
    memoryShare := 0.7
    nestedParallelism := overrides.nestedParallelism.getD false
    copyCellFiles := true
    blockSize := 1000
    nestedVar := "__pixi" }

/-- The default settings of task creation. -/
def tasks (overrides : Overrides) : TaskSettings :=
  { rangeTasks := overrides.rangeTasks.getD true, rangeMinSize := 3, queueCapacity := none }

/-- The default settings of the write buffer. -/
def buffer (overrides : Overrides) : BufferSettings α :=
  { fraction := 0.15
    policy := overrides.policy.getD .fifo
    pageCache := true
    maxEntryBytes := 0x7FFF_FFFF }

/-- All defaults. -/
def settings (overrides : Overrides) : Settings α :=
  { optimizer := overrides.optimizer, tasks := overrides.tasks, buffer := overrides.buffer }

end Overrides

end ParallelLoop
