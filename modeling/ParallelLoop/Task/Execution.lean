/-
# Local execution

A parallel loop runs in the local process as one producer and some workers around
a task queue. The producer streams the tasks of a partitioner into the queue and
then closes it; every worker takes tasks and runs the loop body on them until the
queue has ended. After the first failure of a body the remaining tasks are taken
but not run. A worker whose body crashes closes the queue, so that nobody waits
for it.

Threads interleave in any way. The module describes one step of one thread: a
thread that cannot step is waiting or has ended, and a schedule is the list of the
threads that step. `run` is one particular schedule, in which the first thread
that can step does; it computes what every schedule of a loop without failing
bodies gives.
-/

import ParallelLoop.Log
import ParallelLoop.Task.Partitioner
import ParallelLoop.Task.Queue

namespace ParallelLoop

/-- What a loop body does with a task. -/
inductive BodyOutcome
  | success
  | failure (cause : Error)
  | crash
  deriving DecidableEq, Repr

/-- What the producer is doing. -/
inductive ProducerState
  /-- The tasks from this point on are still to be streamed; `created` ones have been. -/
  | streaming (cursor : TaskCursor) (created : Nat)
  /-- All tasks were streamed, or the queue was closed too early. -/
  | ended (outcome : Except Error Nat)
  /-- Creating a task stopped the thread. -/
  | crashed (cause : Failure)

/-- What a worker is doing. -/
inductive WorkerState
  /-- About to take a task. -/
  | idle
  /-- Holding a task, about to look for an earlier failure. -/
  | holding (task : Task)
  /-- Running the body on a task. -/
  | running (task : Task)
  /-- Out of tasks. -/
  | ended
  /-- Stopped by its body. -/
  | crashed
  deriving DecidableEq, Repr

/-- The state that the threads of a local execution share, and what each is doing. -/
structure Execution where
  producer : ProducerState
  workers : List WorkerState
  queue : TaskQueue Task
  /-- Set by the first body that fails. -/
  failed : Bool
  /-- The error of that body. -/
  firstError : Option Error
  /-- The tasks whose body succeeded, the one that finished last first. -/
  completed : List Task
  log : Log

/-- The threads of a local execution. -/
inductive ExecutionThread
  | producer
  | worker (index : Nat)
  deriving DecidableEq, Repr

/-- What a finished loop has run. -/
structure ExecutionSummary where
  tasks : Nat
  iterations : Nat
  deriving DecidableEq, Repr

namespace Execution

/-- Before the first step: all tasks of the partitioner are to be streamed into the queue. -/
def start (partitioner : Partitioner) (workers : Nat) (queue : TaskQueue Task) : Execution :=
  { producer := .streaming partitioner.start 0
    workers := List.replicate workers .idle
    queue
    failed := false
    firstError := none
    completed := []
    log := [] }

/-- The line that reports the end of the stream. -/
def streamedLine (partitioner : Partitioner) (created : Nat) : LogLine :=
  { level := .debug
    text := s!"{partitioner.kind.name} partitioner: streamed {created} tasks for " ++
      s!"{partitioner.total} iterations of '{partitioner.space.var}'" }

/-- The line that reports a crashed worker. -/
def crashLine : LogLine :=
  { level := .warn, text := "local parfor: worker panicked, closing the task queue" }

/-- A step of the producer: it streams the next task, or closes the queue after the last one.
A producer that finds the queue closed gives up. -/
def produce? (partitioner : Partitioner) (state : Execution) : Option Execution :=
  match state.producer with
  | .ended _ | .crashed _ => none
  | .streaming cursor created =>
    match partitioner.nextTask cursor with
    | .error cause => some { state with producer := .crashed cause }
    | .ok none =>
      some { state with
        producer := .ended (.ok created)
        queue := state.queue.close
        log := state.log ++ [streamedLine partitioner created] }
    | .ok (some (task, rest)) =>
      match state.queue.offer task with
      | .blocked => none
      | .accepted queue =>
        some { state with producer := .streaming rest (created + 1), queue }
      -- The queue was closed while there were tasks to stream.
      | .rejected _ =>
        some { state with
          producer := .ended (.error (.queueClosed created partitioner.kind))
          queue := state.queue.close }

/-- A step of the worker with this index. -/
def work? (body : Task → BodyOutcome) (index : Nat) (state : Execution) : Option Execution :=
  match state.workers[index]? with
  | none | some .ended | some .crashed => none
  | some .idle =>
    match state.queue.take with
    | .blocked => none
    | .ended => some { state with workers := state.workers.set index .ended }
    | .item task queue =>
      some { state with workers := state.workers.set index (.holding task), queue }
  | some (.holding task) =>
    -- After a failure the remaining tasks are taken but not run.
    let next := if state.failed then .idle else .running task
    some { state with workers := state.workers.set index next }
  | some (.running task) =>
    match body task with
    | .success =>
      some { state with
        workers := state.workers.set index .idle
        completed := task :: state.completed }
    | .failure cause =>
      some { state with
        workers := state.workers.set index .idle
        failed := true
        firstError := state.firstError.or (some cause) }
    -- Closing the queue wakes up whoever waits for this worker.
    | .crash =>
      some { state with
        workers := state.workers.set index .crashed
        queue := state.queue.close
        log := if state.queue.closed then state.log else state.log ++ [crashLine] }

/-- A step of a thread, if it can step. -/
def step? (partitioner : Partitioner) (body : Task → BodyOutcome) (state : Execution) :
    ExecutionThread → Option Execution
  | .producer => state.produce? partitioner
  | .worker index => state.work? body index

/-- All threads, the producer first. -/
def threads (state : Execution) : List ExecutionThread :=
  .producer :: (List.range state.workers.length).map .worker

/-- The producer has ended, in whatever way. -/
def producerEnded (state : Execution) : Bool :=
  match state.producer with
  | .streaming _ _ => false
  | .ended _ | .crashed _ => true

/-- The worker has ended, in whatever way. -/
def workerEnded : WorkerState → Bool
  | .ended | .crashed => true
  | .idle | .holding _ | .running _ => false

/-- All threads have ended. -/
def finished (state : Execution) : Bool := state.producerEnded && state.workers.all workerEnded

/-- The thread has ended. -/
def hasEnded (state : Execution) : ExecutionThread → Bool
  | .producer => state.producerEnded
  | .worker index => state.workers[index]?.all workerEnded

/-- Lets the first of these threads step that can, `steps` times or until none can. Threads in
front that have ended are not looked at again. -/
def runFor (partitioner : Partitioner) (body : Task → BodyOutcome)
    (threads : List ExecutionThread) : Nat → Execution → Execution
  | 0, state => state
  | steps + 1, state =>
    match threads.findSome? (state.step? partitioner body) with
    | none => state
    | some next => next.runFor partitioner body (threads.dropWhile next.hasEnded) steps

/-- Runs until no thread can step. Every task is streamed, taken, looked at and run once, and
every thread ends once. -/
def run (partitioner : Partitioner) (body : Task → BodyOutcome) (state : Execution) : Execution :=
  state.runFor partitioner body state.threads
    (4 * (partitioner.total + state.queue.size) + state.workers.length + 1)

/-- What the completed tasks amount to. -/
def summary (state : Execution) : ExecutionSummary :=
  { tasks := state.completed.length
    iterations := state.completed.foldr (fun task count => task.size + count) 0 }

/-- The outcome of an execution in which all threads have ended. A crash goes before an error,
and the error of a body before that of the producer. -/
def outcome (state : Execution) : Except Failure Nat :=
  match state.producer with
  | .streaming _ _ => .error (.abort .deadlock)
  | .crashed cause => .error cause
  | .ended produced =>
    if state.workers.contains .crashed then .error (.abort .body)
    else
      match state.firstError with
      | some cause => .error (.error cause)
      | none => orFailure produced

end Execution

/-- A completed local execution: its outcome, the tasks it ran in the order in which they
finished, and its log. -/
structure LocalRun where
  outcome : Except Failure ExecutionSummary
  completed : List Task
  log : Log

/-- Runs a parallel loop in the local process with at least one worker. -/
def executeLocal (partitioner : Partitioner) (workers : Nat) (capacity : Option Nat)
    (body : Task → BodyOutcome) : LocalRun :=
  let workers := max workers 1
  let last := (Execution.start partitioner workers (.new capacity)).run partitioner body
  let summary := last.summary
  let completed := last.completed.reverse
  match if last.finished then last.outcome else .error (.abort .deadlock) with
  | .error cause => { outcome := .error cause, completed, log := last.log }
  | .ok created =>
    { outcome := .ok summary
      completed
      log := last.log ++ [{
        level := .debug
        text := s!"local parfor: {workers} workers executed {summary.tasks}/{created} tasks " ++
          s!"({summary.iterations} iterations)" }] }

/-- Tasks that went through a queue to a consumer. -/
structure StreamRun where
  outcome : Except Failure Nat
  received : List Task
  queue : TaskQueue Task
  log : Log

/-- Streams all tasks through the queue to one consumer, which receives them in order. -/
def streamTasks (partitioner : Partitioner) (queue : TaskQueue Task) : StreamRun :=
  let last := (Execution.start partitioner 1 queue).run partitioner fun _ => .success
  { outcome := if last.finished then last.outcome else .error (.abort .deadlock)
    received := last.completed.reverse
    queue := last.queue
    log := last.log }

end ParallelLoop
