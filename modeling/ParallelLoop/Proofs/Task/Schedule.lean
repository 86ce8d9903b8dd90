/-
# Schedules of a local execution

The threads of a local execution interleave in any way. `Execution.Step` says once what a
thread does when it steps, and `Execution.Runs` chains steps of any threads; its trace keeps
the states in which threads stepped, so that what happened can be read off it.

Every step uses up work: a task is streamed, taken, looked at and run, and every thread ends.
The work that is left bounds every schedule, and one that has come to its end leaves a state in
which no thread can step. `Execution.run` follows such a schedule.
-/

import Mathlib.Data.List.Perm.Basic
import Mathlib.Data.List.TakeWhile
import ParallelLoop.Proofs.Task.Creation
import ParallelLoop.Task.Execution

namespace ParallelLoop

/-! ## The queue -/

namespace TaskQueue

variable {α : Type} {queue next : TaskQueue α} {item : α}

theorem items_eq_nil_iff : queue.items = [] ↔ queue.size = 0 := by
  rw [← queue.length_items, List.length_eq_zero_iff]

/-- A queue that accepts an item is open, and stays so. -/
theorem of_offer_accepted (accepted : queue.offer item = .accepted next) :
    queue.closed = false ∧ next.closed = false ∧ next.capacity = queue.capacity ∧
      next.size = queue.size + 1 := by
  unfold offer at accepted
  split at accepted
  next => cases accepted
  next isOpen =>
    split at accepted
    next => cases accepted
    next =>
      cases accepted
      simpa using isOpen

theorem of_offer_rejected {back : α} (rejected : queue.offer item = .rejected back) :
    queue.closed = true := by
  unfold offer at rejected
  split at rejected
  next closed => exact closed
  next => split at rejected <;> cases rejected

/-- Only a full open queue makes its producer wait. -/
theorem of_offer_blocked (blocked : queue.offer item = .blocked) :
    queue.closed = false ∧ ∃ capacity, queue.capacity = some capacity ∧ capacity ≤ queue.size := by
  unfold offer at blocked
  split at blocked
  next => cases blocked
  next isOpen =>
    split at blocked
    next full =>
      refine ⟨by simpa using isOpen, ?_⟩
      unfold isFull at full
      cases bound : queue.capacity with
      | none => simp [bound] at full
      | some capacity => exact ⟨capacity, rfl, by simpa [bound] using full⟩
    next => cases blocked

theorem of_take_item (taken : queue.take = .item item next) :
    next.closed = queue.closed ∧ next.capacity = queue.capacity ∧ queue.size = next.size + 1 := by
  have items := congrArg List.length (items_of_take taken)
  rw [length_items, List.length_cons, length_items] at items
  unfold take at taken
  split at taken
  next => cases taken; exact ⟨rfl, rfl, items⟩
  next =>
    split at taken
    next => cases taken; exact ⟨rfl, rfl, items⟩
    next => split at taken <;> cases taken

/-- What a queue without items answers. -/
theorem take_of_empty (empty : queue.items = []) :
    queue.take = if queue.closed then .ended else .blocked := by
  obtain ⟨front, back⟩ := List.append_eq_nil_iff.mp empty
  unfold take
  split
  next h => simp [front] at h
  next =>
    split
    next h => simp [back] at h
    next => rfl

/-- A queue with items gives the first of them. -/
theorem exists_take (some : queue.items ≠ []) : ∃ item next, queue.take = .item item next := by
  unfold take
  split
  next => exact ⟨_, _, rfl⟩
  next front =>
    split
    next => exact ⟨_, _, rfl⟩
    next back => exact absurd (by rw [items, front, back]; rfl) some

theorem items_of_take_ended (ended : queue.take = .ended) :
    queue.items = [] ∧ queue.closed = true := by
  by_cases empty : queue.items = []
  · rw [take_of_empty empty] at ended
    refine ⟨empty, ?_⟩
    split at ended
    next closed => exact closed
    next => cases ended
  · obtain ⟨_, _, taken⟩ := exists_take empty
    rw [taken] at ended
    cases ended

end TaskQueue

/-! ## Threads -/

/-- One element of a list is replaced, and the others stay. -/
theorem exists_perm_set {α : Type} {list : List α} {index : Nat} {old : α}
    (here : list[index]? = some old) :
    ∃ rest, list.Perm (old :: rest) ∧ ∀ new, (list.set index new).Perm (new :: rest) := by
  obtain ⟨inside, rfl⟩ := List.getElem?_eq_some_iff.mp here
  exact ⟨list.eraseIdx index, (List.getElem_cons_eraseIdx_perm inside).symm,
    List.set_perm_cons_eraseIdx inside⟩

/-- The steps that are left for a producer: four for every iteration, and the last one. -/
def ProducerState.work (total : Nat) : ProducerState → Nat
  | .streaming cursor _ => 4 * (total - cursor.handedOut) + 1
  | .ended _ | .crashed _ => 0

/-- The steps that are left for a worker when nothing is in the queue. -/
def WorkerState.work : WorkerState → Nat
  | .idle => 1
  | .holding _ => 3
  | .running _ => 2
  | .ended | .crashed => 0

namespace Execution

variable {partitioner : Partitioner} {body : Task → BodyOutcome} {state next start : Execution}
  {thread : ExecutionThread}

/-! ## Steps -/

/-- What a thread does when it steps. -/
inductive Step (partitioner : Partitioner) (body : Task → BodyOutcome) (state : Execution) :
    ExecutionThread → Execution → Prop
  /-- The producer cannot create the next task. -/
  | stop {cursor : TaskCursor} {created : Nat} {cause : Failure}
      (streaming : state.producer = .streaming cursor created)
      (stopped : partitioner.nextTask cursor = .error cause) :
      Step partitioner body state .producer { state with producer := .crashed cause }
  /-- The producer closes the queue after the last task. -/
  | finish {cursor : TaskCursor} {created : Nat}
      (streaming : state.producer = .streaming cursor created)
      (last : partitioner.nextTask cursor = .ok none) :
      Step partitioner body state .producer { state with
        producer := .ended (.ok created)
        queue := state.queue.close
        log := state.log ++ [streamedLine partitioner created] }
  | enqueue {cursor rest : TaskCursor} {created : Nat} {task : Task} {queue : TaskQueue Task}
      (streaming : state.producer = .streaming cursor created)
      (more : partitioner.nextTask cursor = .ok (some (task, rest)))
      (accepted : state.queue.offer task = .accepted queue) :
      Step partitioner body state .producer
        { state with producer := .streaming rest (created + 1), queue }
  /-- The producer finds the queue closed. -/
  | giveUp {cursor rest : TaskCursor} {created : Nat} {task back : Task}
      (streaming : state.producer = .streaming cursor created)
      (more : partitioner.nextTask cursor = .ok (some (task, rest)))
      (rejected : state.queue.offer task = .rejected back) :
      Step partitioner body state .producer { state with
        producer := .ended (.error (.queueClosed created partitioner.kind))
        queue := state.queue.close }
  /-- A worker finds that there are no more tasks. -/
  | leave {index : Nat} (here : state.workers[index]? = some .idle)
      (none : state.queue.take = .ended) :
      Step partitioner body state (.worker index)
        { state with workers := state.workers.set index .ended }
  | dequeue {index : Nat} {task : Task} {queue : TaskQueue Task}
      (here : state.workers[index]? = some .idle) (taken : state.queue.take = .item task queue) :
      Step partitioner body state (.worker index)
        { state with workers := state.workers.set index (.holding task), queue }
  /-- A worker drops its task because a body has failed. -/
  | skip {index : Nat} {task : Task} (here : state.workers[index]? = some (.holding task))
      (failed : state.failed = true) :
      Step partitioner body state (.worker index)
        { state with workers := state.workers.set index .idle }
  | begin {index : Nat} {task : Task} (here : state.workers[index]? = some (.holding task))
      (sane : state.failed = false) :
      Step partitioner body state (.worker index)
        { state with workers := state.workers.set index (.running task) }
  | succeed {index : Nat} {task : Task} (here : state.workers[index]? = some (.running task))
      (outcome : body task = .success) :
      Step partitioner body state (.worker index) { state with
        workers := state.workers.set index .idle
        completed := task :: state.completed }
  | fail {index : Nat} {task : Task} {cause : Error}
      (here : state.workers[index]? = some (.running task))
      (outcome : body task = .failure cause) :
      Step partitioner body state (.worker index) { state with
        workers := state.workers.set index .idle
        failed := true
        firstError := state.firstError.or (some cause) }
  | crash {index : Nat} {task : Task} (here : state.workers[index]? = some (.running task))
      (outcome : body task = .crash) :
      Step partitioner body state (.worker index) { state with
        workers := state.workers.set index .crashed
        queue := state.queue.close
        log := if state.queue.closed then state.log else state.log ++ [crashLine] }

theorem step_of_produce (done : state.produce? partitioner = some next) :
    Step partitioner body state .producer next := by
  unfold produce? at done
  split at done
  next => cases done
  next => cases done
  next streaming =>
    split at done
    next stopped => cases done; exact .stop streaming stopped
    next last => cases done; exact .finish streaming last
    next more =>
      split at done
      next => cases done
      next accepted => cases done; exact .enqueue streaming more accepted
      next rejected => cases done; exact .giveUp streaming more rejected

theorem step_of_work {index : Nat} (done : state.work? body index = some next) :
    Step partitioner body state (.worker index) next := by
  unfold work? at done
  split at done
  next => cases done
  next => cases done
  next => cases done
  next idle =>
    split at done
    next => cases done
    next none => cases done; exact .leave idle none
    next taken => cases done; exact .dequeue idle taken
  next holding =>
    dsimp only at done
    split at done
    next failed => cases done; exact .skip holding failed
    next sane => cases done; exact .begin holding (Bool.not_eq_true _ ▸ sane)
  next running =>
    split at done
    next outcome => cases done; exact .succeed running outcome
    next outcome => cases done; exact .fail running outcome
    next outcome => cases done; exact .crash running outcome

theorem step_of_step? (done : state.step? partitioner body thread = some next) :
    Step partitioner body state thread next := by
  cases thread with
  | producer => exact step_of_produce done
  | worker index => exact step_of_work done

/-- A thread that has ended does not step. -/
theorem step?_of_ended (ended : state.hasEnded thread = true) :
    state.step? partitioner body thread = none := by
  cases thread with
  | producer =>
    cases here : state.producer with
    | streaming cursor created => simp [hasEnded, producerEnded, here] at ended
    | ended outcome => simp [step?, produce?, here]
    | crashed cause => simp [step?, produce?, here]
  | worker index =>
    cases here : state.workers[index]? with
    | none => simp [step?, work?, here]
    | some worker => cases worker <;> simp_all [hasEnded, workerEnded, step?, work?]

/-- What has ended stays so. -/
theorem Step.hasEnded {other : ExecutionThread} (step : Step partitioner body state thread next)
    (ended : state.hasEnded other = true) : next.hasEnded other = true := by
  -- A thread that steps has not ended, and it is the only one that changes.
  have workers {index : Nat} {old new : WorkerState} (here : state.workers[index]? = some old)
      (live : workerEnded old = false) (position : Nat)
      (ended : state.workers[position]?.all workerEnded = true) :
      (state.workers.set index new)[position]?.all workerEnded = true := by
    by_cases same : index = position
    · rw [← same, here] at ended
      simp [live] at ended
    · rwa [List.getElem?_set_ne same]
  cases other with
  | producer =>
    change state.producerEnded = true at ended
    cases step with
    | stop streaming _ | finish streaming _ | enqueue streaming _ _ | giveUp streaming _ _ =>
      simp [producerEnded, streaming] at ended
    | leave | dequeue | skip | begin | succeed | fail | crash => exact ended
  | worker position =>
    change state.workers[position]?.all workerEnded = true at ended
    cases step with
    | stop | finish | enqueue | giveUp => exact ended
    | leave here _ | dequeue here _ | skip here _ | begin here _ | succeed here _ | fail here _
      | crash here _ => exact workers here rfl position ended

/-! ## Work -/

/-- The steps that are left, or more. A task in the queue is still to be taken, looked at and run. -/
def work (partitioner : Partitioner) (state : Execution) : Nat :=
  state.producer.work partitioner.total + 3 * state.queue.size +
    (state.workers.map WorkerState.work).sum

theorem sum_work_set {workers : List WorkerState} {index : Nat} {old : WorkerState}
    (here : workers[index]? = some old) (new : WorkerState) :
    ((workers.set index new).map WorkerState.work).sum + old.work =
      (workers.map WorkerState.work).sum + new.work := by
  obtain ⟨rest, before, after⟩ := exists_perm_set here
  rw [(before.map _).sum_eq, ((after new).map _).sum_eq]
  simp only [List.map_cons, List.sum_cons]
  omega

/-- Every step uses up work. -/
theorem Step.work_lt (step : Step partitioner body state thread next) :
    next.work partitioner < state.work partitioner := by
  have closed (queue : TaskQueue Task) : queue.close.size = queue.size := rfl
  unfold work
  cases step with
  | stop streaming _ => simp only [streaming, ProducerState.work]; omega
  | finish streaming _ => simp only [streaming, ProducerState.work, closed]; omega
  | giveUp streaming _ _ => simp only [streaming, ProducerState.work, closed]; omega
  | enqueue streaming more accepted =>
    -- The task has at least one iteration, which makes up for its place in the queue.
    have advance := Partitioner.lt_of_nextTask more
    have added := (TaskQueue.of_offer_accepted accepted).2.2.2
    simp only [streaming, ProducerState.work, added]
    omega
  | @dequeue _ task _ here taken =>
    have size := (TaskQueue.of_take_item taken).2.2
    have sum := sum_work_set here (.holding task)
    simp only [WorkerState.work] at sum
    simp only [size]
    omega
  | leave here _ =>
    have sum := sum_work_set here .ended
    simp only [WorkerState.work] at sum
    dsimp only
    omega
  | skip here _ | succeed here _ | fail here _ =>
    have sum := sum_work_set here .idle
    simp only [WorkerState.work] at sum
    dsimp only
    omega
  | @begin _ task here _ =>
    have sum := sum_work_set here (.running task)
    simp only [WorkerState.work] at sum
    dsimp only
    omega
  | crash here _ =>
    have sum := sum_work_set here .crashed
    simp only [WorkerState.work] at sum
    simp only [closed]
    omega

/-! ## Schedules -/

/-- The steps of a schedule: the thread that stepped and the state that it stepped in, the last
step first. -/
abbrev Trace := List (Execution × ExecutionThread)

/-- Threads step one after the other, and leave this trace. -/
inductive Runs (partitioner : Partitioner) (body : Task → BodyOutcome) (start : Execution) :
    Trace → Execution → Prop
  | refl : Runs partitioner body start [] start
  | step {trace : Trace} {state next : Execution}
      (runs : Runs partitioner body start trace state) (thread : ExecutionThread)
      (done : state.step? partitioner body thread = some next) :
      Runs partitioner body start ((state, thread) :: trace) next

namespace Runs

variable {trace others : Trace}

theorem trans (first : Runs partitioner body start trace state)
    (second : Runs partitioner body state others next) :
    Runs partitioner body start (others ++ trace) next := by
  induction second with
  | refl => exact first
  | step _ thread done ih => exact ih.step thread done

/-- What the steps preserve holds as long as threads step. -/
theorem preserves (invariant : Execution → Prop) (runs : Runs partitioner body start trace state)
    (initially : invariant start)
    (preserved : ∀ {thread state next}, Step partitioner body state thread next →
      invariant state → invariant next) : invariant state := by
  induction runs with
  | refl => exact initially
  | step _ _ done ih => exact preserved (step_of_step? done) ih

/-- No schedule has more steps than there is work. -/
theorem length_add_work_le (runs : Runs partitioner body start trace state) :
    trace.length + state.work partitioner ≤ start.work partitioner := by
  induction runs with
  | refl => simp
  | step _ _ done ih =>
    have less := (step_of_step? done).work_lt
    rw [List.length_cons]
    omega

end Runs

/-! ## What happened -/

/-- The task that a step of this thread takes out of the queue. -/
def dequeued? (state : Execution) : ExecutionThread → Option Task
  | .producer => none
  | .worker index =>
    match state.workers[index]?, state.queue.take with
    | some .idle, .item task _ => some task
    | _, _ => none

/-- The task on which a step of this thread begins to run the body. -/
def begun? (state : Execution) : ExecutionThread → Option Task
  | .producer => none
  | .worker index =>
    match state.workers[index]? with
    | some (.holding task) => if state.failed then none else some task
    | _ => none

/-- The tasks that workers took, the last one first. -/
def taken (trace : Trace) : List Task := trace.filterMap fun entry => entry.1.dequeued? entry.2

/-- The tasks that were run, each time that a body was begun on them, the last one first. -/
def ran (trace : Trace) : List Task := trace.filterMap fun entry => entry.1.begun? entry.2

/-- The tasks that workers took when a body had failed. -/
def takenLate (trace : Trace) : List Task :=
  taken (trace.filter fun entry => entry.1.failed)

/-- No thread can step. -/
def IsStuck (partitioner : Partitioner) (body : Task → BodyOutcome) (state : Execution) : Prop :=
  ∀ thread, state.step? partitioner body thread = none

/-- Letting the first thread step that can is a schedule. -/
theorem exists_runs_runFor (partitioner : Partitioner) (body : Task → BodyOutcome)
    (threads : List ExecutionThread) (steps : Nat) (state : Execution) :
    ∃ trace, Runs partitioner body state trace
      (state.runFor partitioner body threads steps) := by
  induction steps generalizing threads state with
  | zero => exact ⟨[], .refl⟩
  | succ steps ih =>
    rw [runFor]
    cases found : threads.findSome? (state.step? partitioner body) with
    | none => exact ⟨[], .refl⟩
    | some next =>
      obtain ⟨thread, -, done⟩ := List.exists_of_findSome?_eq_some found
      obtain ⟨trace, runs⟩ := ih (threads.dropWhile next.hasEnded) next
      exact ⟨_, (Runs.refl.step thread done).trans runs⟩

/-- It goes on until no thread can step, given enough steps and all threads that have not ended. -/
theorem isStuck_runFor {threads : List ExecutionThread} {steps : Nat}
    (all : ∀ thread ∉ threads, state.hasEnded thread = true)
    (enough : state.work partitioner ≤ steps) :
    IsStuck partitioner body (state.runFor partitioner body threads steps) := by
  -- With no work left, no thread can step, since a step would use up some.
  have waits {state : Execution} (nothing : state.work partitioner = 0) :
      IsStuck partitioner body state := by
    intro thread
    cases done : state.step? partitioner body thread with
    | none => rfl
    | some next =>
      have less := (step_of_step? done).work_lt
      omega
  induction steps generalizing threads state with
  | zero => exact waits (Nat.le_zero.mp enough)
  | succ steps ih =>
    rw [runFor]
    cases found : threads.findSome? (state.step? partitioner body) with
    | none =>
      intro thread
      by_cases listed : thread ∈ threads
      · exact List.findSome?_eq_none_iff.mp found thread listed
      · exact step?_of_ended (all thread listed)
    | some next =>
      obtain ⟨mover, -, done⟩ := List.exists_of_findSome?_eq_some found
      have step := step_of_step? done
      refine ih (fun thread dropped => ?_) (by have := step.work_lt; omega)
      -- A thread is dropped only when it has ended.
      by_cases listed : thread ∈ threads
      · rw [← List.takeWhile_append_dropWhile (p := next.hasEnded) (l := threads),
          List.mem_append] at listed
        exact List.mem_takeWhile_imp (listed.resolve_right dropped)
      · exact step.hasEnded (all thread listed)

theorem work_start (partitioner : Partitioner) (workers : Nat) (queue : TaskQueue Task) :
    (Execution.start partitioner workers queue).work partitioner =
      4 * partitioner.total + 1 + 3 * queue.size + workers := by
  simp [work, Execution.start, ProducerState.work, Partitioner.start, WorkerState.work]

/-- Running a local execution follows a schedule to its end. -/
theorem exists_runs_run (partitioner : Partitioner) (body : Task → BodyOutcome) (workers : Nat)
    (queue : TaskQueue Task) :
    ∃ trace, Runs partitioner body (.start partitioner workers queue) trace
        ((Execution.start partitioner workers queue).run partitioner body) ∧
      IsStuck partitioner body
        ((Execution.start partitioner workers queue).run partitioner body) := by
  obtain ⟨trace, runs⟩ := exists_runs_runFor partitioner body _ _ _
  refine ⟨trace, runs, isStuck_runFor (fun thread absent => ?_) ?_⟩
  · cases thread with
    | producer => simp [threads] at absent
    | worker index =>
      have outside : (Execution.start partitioner workers queue).workers[index]? = none := by
        simpa [threads] using absent
      rw [hasEnded, outside]
      rfl
  · rw [work_start]
    simp only [Execution.start, List.length_replicate]
    omega

end Execution

end ParallelLoop
