/-
# Buffer statistics

Four counters of the traffic of a write buffer: blocks written into it and to storage,
and reads that found their block in it and in storage.
-/

namespace ParallelLoop

/-- Counters of the traffic of a write buffer. -/
structure BufferStatistics where
  bufferWrites : Nat
  /-- Blocks written to storage, around the buffer or out of it. -/
  storageWrites : Nat
  bufferHits : Nat
  storageHits : Nat
  deriving DecidableEq, Repr

namespace BufferStatistics

/-- No traffic yet. -/
def zero : BufferStatistics :=
  { bufferWrites := 0, storageWrites := 0, bufferHits := 0, storageHits := 0 }

/-- The counters in words. -/
def render (statistics : BufferStatistics) : String :=
  s!"Cache writes (WB, FS):\t{statistics.bufferWrites}/{statistics.storageWrites}.\n" ++
    s!"Cache hits (WB, FS):\t{statistics.bufferHits}/{statistics.storageHits}."

end BufferStatistics

end ParallelLoop
