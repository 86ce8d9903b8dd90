/-
# Infrastructure

Planning looks at the machine and the cluster through five metrics. A probe may not
know all of them; planning needs every one.
-/

import ParallelLoop.Error

namespace ParallelLoop

/-- Resources of the local machine and of the cluster. -/
structure Infrastructure where
  localParallelism : Nat
  /-- Bytes, before a share is set aside. -/
  localMemory : Nat
  remoteNodes : Nat
  /-- Tasks that run at once across the cluster. -/
  remoteParallelism : Nat
  /-- Bytes of one remote task, before a share is set aside. -/
  remoteMemory : Nat
  deriving DecidableEq, Repr

/-- The metrics that are known. -/
structure Probe where
  localParallelism : Option Nat
  localMemory : Option Nat
  remoteNodes : Option Nat
  remoteParallelism : Option Nat
  remoteMemory : Option Nat
  deriving DecidableEq, Repr

namespace Probe

/-- A metric that has to be known. -/
def require (metric : String) : Option Nat → Except Error Nat
  | some value => .ok value
  | none => .error (.metricUnavailable metric)

/-- All metrics, or the first one that is unknown. -/
def resolve (probe : Probe) : Except Error Infrastructure := do
  return {
    localParallelism := ← require "local_parallelism" probe.localParallelism
    localMemory := ← require "local_max_memory" probe.localMemory
    remoteNodes := ← require "remote_nodes" probe.remoteNodes
    remoteParallelism := ← require "remote_parallelism" probe.remoteParallelism
    remoteMemory := ← require "remote_max_memory" probe.remoteMemory
  }

end Probe

namespace Infrastructure

/-- The probe that knows these resources. -/
def probe (infrastructure : Infrastructure) : Probe :=
  { localParallelism := some infrastructure.localParallelism
    localMemory := some infrastructure.localMemory
    remoteNodes := some infrastructure.remoteNodes
    remoteParallelism := some infrastructure.remoteParallelism
    remoteMemory := some infrastructure.remoteMemory }

/-- A machine without a cluster. -/
def localOnly (parallelism memory : Nat) : Infrastructure :=
  { localParallelism := parallelism
    localMemory := memory
    remoteNodes := 0
    remoteParallelism := 0
    remoteMemory := 0 }

theorem resolve_probe (infrastructure : Infrastructure) :
    infrastructure.probe.resolve = .ok infrastructure := rfl

end Infrastructure

end ParallelLoop
