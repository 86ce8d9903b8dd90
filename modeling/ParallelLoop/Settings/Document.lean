/-
# Settings as documents

A document gives settings in three groups, each an object of fields or an array of
them in a fixed order. Fields that are missing have their defaults; fields that are
not known are passed over.
-/

import ParallelLoop.Json.Value
import ParallelLoop.Settings.Error

namespace ParallelLoop

open Json (Value readField writeBool writeOptionalCount writeObject quote)

namespace OptimizerSettings

/-- The fields of the group, in their order. -/
def fieldNames : List String :=
  ["prob_size_threshold", "max_prob_size_factor", "par_k_factor", "par_k_mr_factor",
    "mem_util_factor", "apply_nested_parallelism", "allow_copy_cell_files", "block_size",
    "nested_iter_var"]

/-- Reads the group. -/
def ofValue? (default : OptimizerSettings Float) (value : Value) :
    Option (OptimizerSettings Float) := do
  let fields ← value.fields? fieldNames
  let number := fun name => readField fields name Value.float?
  let switch := fun name => readField fields name Value.bool?
  return {
    sizeThreshold := ← number "prob_size_threshold" default.sizeThreshold
    nestedSizeFactor := ← number "max_prob_size_factor" default.nestedSizeFactor
    workerFactor := ← number "par_k_factor" default.workerFactor
    mixedWorkerFactor := ← number "par_k_mr_factor" default.mixedWorkerFactor
    memoryShare := ← number "mem_util_factor" default.memoryShare
    nestedParallelism := ← switch "apply_nested_parallelism" default.nestedParallelism
    copyCellFiles := ← switch "allow_copy_cell_files" default.copyCellFiles
    blockSize := ← readField fields "block_size" Value.count? default.blockSize
    nestedVar := ← readField fields "nested_iter_var" Value.string? default.nestedVar }

/-- Writes the group. -/
def render (settings : OptimizerSettings Float) : String :=
  writeObject [
    ("prob_size_threshold", Decimal.literal settings.sizeThreshold),
    ("max_prob_size_factor", Decimal.literal settings.nestedSizeFactor),
    ("par_k_factor", Decimal.literal settings.workerFactor),
    ("par_k_mr_factor", Decimal.literal settings.mixedWorkerFactor),
    ("mem_util_factor", Decimal.literal settings.memoryShare),
    ("apply_nested_parallelism", writeBool settings.nestedParallelism),
    ("allow_copy_cell_files", writeBool settings.copyCellFiles),
    ("block_size", toString settings.blockSize),
    ("nested_iter_var", quote settings.nestedVar)]

end OptimizerSettings

namespace TaskSettings

/-- The fields of the group, in their order. -/
def fieldNames : List String := ["use_range_tasks", "range_task_min_size", "queue_capacity"]

/-- Reads the group. -/
def ofValue? (default : TaskSettings) (value : Value) : Option TaskSettings := do
  let fields ← value.fields? fieldNames
  return {
    rangeTasks := ← readField fields "use_range_tasks" Value.bool? default.rangeTasks
    rangeMinSize := ← readField fields "range_task_min_size" Value.count? default.rangeMinSize
    queueCapacity :=
      ← readField fields "queue_capacity" Value.optionalCount? default.queueCapacity }

/-- Writes the group. -/
def render (settings : TaskSettings) : String :=
  writeObject [
    ("use_range_tasks", writeBool settings.rangeTasks),
    ("range_task_min_size", toString settings.rangeMinSize),
    ("queue_capacity", writeOptionalCount settings.queueCapacity)]

end TaskSettings

namespace BufferSettings

/-- The fields of the group, in their order. -/
def fieldNames : List String := ["buffer_fraction", "policy", "page_cache", "max_entry_bytes"]

/-- Reads the group. -/
def ofValue? (default : BufferSettings Float) (value : Value) :
    Option (BufferSettings Float) := do
  let fields ← value.fields? fieldNames
  return {
    fraction := ← readField fields "buffer_fraction" Value.float? default.fraction
    policy := ← readField fields "policy" (Value.constant? [.fifo, .lru] EvictionPolicy.name)
      default.policy
    pageCache := ← readField fields "page_cache" Value.bool? default.pageCache
    maxEntryBytes := ← readField fields "max_entry_bytes" Value.count? default.maxEntryBytes }

/-- Writes the group. -/
def render (settings : BufferSettings Float) : String :=
  writeObject [
    ("buffer_fraction", Decimal.literal settings.fraction),
    ("policy", quote settings.policy.name),
    ("page_cache", writeBool settings.pageCache),
    ("max_entry_bytes", toString settings.maxEntryBytes)]

end BufferSettings

namespace Settings

/-- The groups, in their order. -/
def groupNames : List String := ["optimizer", "tasks", "buffer_pool"]

/-- Reads all groups. -/
def ofValue? (default : Settings Float) (value : Value) : Option (Settings Float) := do
  let groups ← value.fields? groupNames
  return {
    optimizer := ← readField groups "optimizer" (OptimizerSettings.ofValue? default.optimizer)
      default.optimizer
    tasks := ← readField groups "tasks" (TaskSettings.ofValue? default.tasks) default.tasks
    buffer := ← readField groups "buffer_pool" (BufferSettings.ofValue? default.buffer)
      default.buffer }

/-- Writes all groups. -/
def render (settings : Settings Float) : String :=
  writeObject [
    ("optimizer", settings.optimizer.render),
    ("tasks", settings.tasks.render),
    ("buffer_pool", settings.buffer.render)]

/-- Settings from a text. The defaults fill in what the text does not give. -/
def parse (default : Settings Float) (text : String) : Except SettingsError (Settings Float) :=
  match (Value.parse? text).bind (ofValue? default) with
  | some settings => do
    settings.check
    return settings
  | none => .error .malformed

/-- Settings from the contents of a file, if it exists. -/
def load (default : Settings Float) (path : String) (contents : Option ByteArray) :
    Except SettingsError (Settings Float) :=
  match contents.bind String.fromUTF8? with
  | some text => (parse default text).mapError (.inFile path)
  | none => .error (.unreadable path)

/-- What was written reads back as settings with the same values. Numbers are compared, so a zero
keeps its value without its sign. -/
def readsBack (settings default : Settings Float) : Bool :=
  match parse default settings.render with
  | .ok copy => copy == settings
  | .error _ => false

end Settings

end ParallelLoop
