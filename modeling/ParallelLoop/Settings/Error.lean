/-
# Refused settings

Settings are refused when they cannot be read or when a number in them makes no
sense. The numbers are checked in a fixed order, and the first bad one is named.
-/

import ParallelLoop.Settings.Basic

namespace ParallelLoop

/-- Why settings were refused. -/
inductive SettingsError
  /-- The text is no document, or a field has the wrong type. -/
  | malformed
  /-- The share of the memory for the write buffer is no share. -/
  | bufferFraction (value : Float)
  /-- Operators may use no memory. -/
  | memoryShare (value : Float)
  /-- A partition block has no rows. -/
  | blockSize
  /-- The task queue has no room. -/
  | queueCapacity
  /-- The file is missing or holds no text. -/
  | unreadable (path : String)
  /-- The settings in a file were refused. -/
  | inFile (path : String) (cause : SettingsError)

/-- What is said about the refusal, from the outermost circumstance to the cause. -/
def SettingsError.messages : SettingsError → List String
  | malformed => ["invalid parfor config"]
  | bufferFraction value =>
    ["buffer_pool.buffer_fraction must be in [0.0, 1.0], got " ++ Decimal.plain value]
  | memoryShare value => ["optimizer.mem_util_factor must be positive, got " ++ Decimal.plain value]
  | blockSize => ["optimizer.block_size must be positive"]
  | queueCapacity => ["tasks.queue_capacity must be positive when set"]
  | unreadable path => ["failed to read config " ++ path]
  | inFile path cause => ("in " ++ path) :: cause.messages

namespace Settings

/-- Refuses settings with a number that makes no sense. -/
def check (settings : Settings Float) : Except SettingsError Unit := do
  let fraction := settings.buffer.fraction
  unless 0 ≤ fraction ∧ fraction ≤ 1 do throw (.bufferFraction fraction)
  let share := settings.optimizer.memoryShare
  unless 0 < share do throw (.memoryShare share)
  if settings.optimizer.blockSize = 0 then throw .blockSize
  if settings.tasks.queueCapacity = some 0 then throw .queueCapacity

end Settings

end ParallelLoop
