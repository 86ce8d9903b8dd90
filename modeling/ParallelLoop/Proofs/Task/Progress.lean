/-
# Progress of a local execution

Threads wait at the queue only: the producer while it is full, a worker while it is empty, and
neither once it is closed. `Execution.IsSound` says when it is closed, which is when the producer
has ended in order or a body has crashed. So a schedule comes to its end only in a state in which
all threads have ended, or in which a worker starves: the producer has crashed, and the queue is
empty and open.

`Execution.Produced` follows the producer on its way through the tasks of its partitioner. It
crashes when a task cannot be created, and only then.
-/

import ParallelLoop.Proofs.Task.Schedule

namespace ParallelLoop

namespace Execution

variable {partitioner : Partitioner} {body : Task → BodyOutcome} {state next : Execution}
  {thread : ExecutionThread} {trace : Trace} {workers : Nat} {capacity : Option Nat}

/-! ## Closing the queue -/

/-- What holds of the queue and the threads in all schedules. -/
structure IsSound (state : Execution) : Prop where
  closed_iff : state.queue.closed = true ↔
    (∃ outcome, state.producer = .ended outcome) ∨ .crashed ∈ state.workers
  /-- Workers leave an empty closed queue, and it stays one. -/
  drained : .ended ∈ state.workers → state.queue.closed = true ∧ state.queue.items = []
  room : ∀ most, state.queue.capacity = some most → 1 ≤ most

theorem isSound_start (partitioner : Partitioner) (workers : Nat) (capacity : Option Nat) :
    (Execution.start partitioner workers (.new capacity)).IsSound where
  closed_iff := by simp [Execution.start, TaskQueue.new, List.mem_replicate]
  drained := by simp [Execution.start, List.mem_replicate]
  room most bound := by
    obtain ⟨own, -, rfl⟩ := Option.map_eq_some_iff.mp bound
    exact Nat.le_max_left 1 own

/-- What the other workers do is not changed. -/
theorem mem_set_iff {workers : List WorkerState} {index : Nat} {old new other : WorkerState}
    (here : workers[index]? = some old) (differs : other ≠ old) :
    other ∈ workers.set index new ↔ other = new ∨ other ∈ workers := by
  obtain ⟨rest, before, after⟩ := exists_perm_set here
  rw [(after new).mem_iff, before.mem_iff, List.mem_cons, List.mem_cons]
  simp only [differs, false_or]

theorem Step.isSound (step : Step partitioner body state thread next) (sound : state.IsSound) :
    next.IsSound := by
  obtain ⟨closed_iff, drained, room⟩ := sound
  cases step with
  | stop streaming _ =>
    refine ⟨?_, drained, room⟩
    simpa [streaming] using closed_iff
  | finish _ _ | giveUp _ _ _ =>
    exact ⟨by simp [TaskQueue.close], fun left => ⟨rfl, (drained left).2⟩, room⟩
  | enqueue streaming _ accepted =>
    obtain ⟨isOpen, stays, same, -⟩ := TaskQueue.of_offer_accepted accepted
    refine ⟨?_, fun left => ?_, same ▸ room⟩
    · simpa [streaming, isOpen, stays] using closed_iff
    · exact absurd (drained left).1 (by simp [isOpen])
  | leave here none =>
    -- A worker leaves only what is closed and empty.
    obtain ⟨empty, closed⟩ := TaskQueue.items_of_take_ended none
    refine ⟨?_, fun _ => ⟨closed, empty⟩, room⟩
    simpa [mem_set_iff here] using closed_iff
  | dequeue here taken =>
    obtain ⟨closed, same, -⟩ := TaskQueue.of_take_item taken
    refine ⟨?_, fun left => ?_, same ▸ room⟩
    · simpa [mem_set_iff here, closed] using closed_iff
    · -- Nobody has left a queue with items.
      have empty := (drained (by simpa [mem_set_iff here] using left)).2
      simp [TaskQueue.items_of_take taken] at empty
  | skip here _ | begin here _ | succeed here _ | fail here _ =>
    refine ⟨?_, fun left => drained ?_, room⟩
    · simpa [mem_set_iff here] using closed_iff
    · simpa [mem_set_iff here] using left
  | crash here _ =>
    refine ⟨by simp [TaskQueue.close, mem_set_iff here], fun left => ⟨rfl, ?_⟩, room⟩
    exact (drained (by simpa [mem_set_iff here] using left)).2

theorem Runs.isSound
    (runs : Runs partitioner body (.start partitioner workers (.new capacity)) trace state) :
    state.IsSound :=
  runs.preserves IsSound (isSound_start partitioner workers capacity) Step.isSound

/-- Workers are neither added nor removed. -/
theorem Step.length_workers (step : Step partitioner body state thread next) :
    next.workers.length = state.workers.length := by
  cases step <;> simp

theorem Runs.length_workers
    (runs : Runs partitioner body (.start partitioner workers (.new capacity)) trace state) :
    state.workers.length = workers :=
  runs.preserves (·.workers.length = workers) (by simp [Execution.start])
    fun step same => step.length_workers.trans same

theorem Runs.workers_ne_nil (some : 1 ≤ workers)
    (runs : Runs partitioner body (.start partitioner workers (.new capacity)) trace state) :
    state.workers ≠ [] := by
  intro none
  have same := runs.length_workers
  simp only [none, List.length_nil] at same
  omega

/-- Without crashing bodies no worker crashes. -/
theorem Runs.sane (sane : ∀ task, body task ≠ .crash)
    (runs : Runs partitioner body (.start partitioner workers (.new capacity)) trace state) :
    .crashed ∉ state.workers := by
  refine runs.preserves (.crashed ∉ ·.workers)
    (by simp [Execution.start, List.mem_replicate]) fun step before => ?_
  cases step with
  | stop | finish | enqueue | giveUp => exact before
  | leave here _ | dequeue here _ | skip here _ | begin here _ | succeed here _ | fail here _ =>
    simpa [mem_set_iff here] using before
  | @crash _ task _ outcome => exact absurd outcome (sane task)

/-! ## Waiting -/

/-- A producer waits at a full open queue. -/
theorem of_produce?_none (waits : state.produce? partitioner = none)
    (live : state.producerEnded = false) :
    state.queue.closed = false ∧
      ∃ most, state.queue.capacity = some most ∧ most ≤ state.queue.size := by
  unfold produce? at waits
  split at waits
  next ended => simp [producerEnded, ended] at live
  next crashed => simp [producerEnded, crashed] at live
  next =>
    split at waits
    next => cases waits
    next => cases waits
    next =>
      split at waits
      next blocked => exact TaskQueue.of_offer_blocked blocked
      next => cases waits
      next => cases waits

/-- A worker waits at an empty open queue. -/
theorem of_work?_none {index : Nat} {worker : WorkerState}
    (here : state.workers[index]? = some worker) (waits : state.work? body index = none)
    (live : workerEnded worker = false) :
    worker = .idle ∧ state.queue.items = [] ∧ state.queue.closed = false := by
  unfold work? at waits
  rw [here] at waits
  -- Of the workers that are alive only one without a task can be waiting.
  cases worker with
  | ended | crashed => cases live
  | holding task => cases waits
  | running task => cases outcome : body task <;> simp [outcome] at waits
  | idle =>
    refine ⟨rfl, ?_⟩
    by_cases empty : state.queue.items = []
    · cases closed : state.queue.closed with
      | true => simp [TaskQueue.take_of_empty empty, closed] at waits
      | false => exact ⟨empty, rfl⟩
    · obtain ⟨item, rest, taken⟩ := TaskQueue.exists_take empty
      simp [taken] at waits

/-- The producer has ended, and a worker waits for it at an empty open queue. -/
structure Starves (state : Execution) : Prop where
  ended : state.producerEnded = true
  isOpen : state.queue.closed = false
  empty : state.queue.items = []
  waits : .idle ∈ state.workers

/-- The worker waits for a producer that has crashed. -/
theorem Starves.crashed (starves : state.Starves) (sound : state.IsSound) :
    ∃ cause, state.producer = .crashed cause := by
  have live := starves.ended
  unfold producerEnded at live
  split at live
  next => cases live
  next outcome ended =>
    have closed := sound.closed_iff.mpr (.inl ⟨outcome, ended⟩)
    rw [starves.isOpen] at closed
    cases closed
  next cause crashed => exact ⟨cause, crashed⟩

/-- When no thread can step, the threads have ended and left a closed queue, or a worker starves. -/
theorem of_isStuck (sound : state.IsSound) (some : state.workers ≠ [])
    (stuck : IsStuck partitioner body state) :
    (state.finished = true ∧ state.queue.closed = true) ∨ state.Starves := by
  by_cases ended : state.workers.all workerEnded = true
  · -- Whoever ended did so at a closed queue, or closed it.
    have closed : state.queue.closed = true := by
      obtain ⟨worker, member⟩ := List.exists_mem_of_ne_nil _ some
      cases worker with
      | ended => exact (sound.drained member).1
      | crashed => exact sound.closed_iff.mpr (.inr member)
      | idle | holding _ | running _ => cases List.all_eq_true.mp ended _ member
    cases live : state.producerEnded with
    | true => exact .inl ⟨by simp [finished, live, ended], closed⟩
    | false =>
      have waits := of_produce?_none (stuck .producer) live
      simp [closed] at waits
  · obtain ⟨worker, member, live⟩ : ∃ worker ∈ state.workers, workerEnded worker = false := by
      simpa using ended
    obtain ⟨index, here⟩ := List.mem_iff_getElem?.mp member
    obtain ⟨rfl, empty, isOpen⟩ := of_work?_none here (stuck (.worker index)) live
    refine .inr ⟨?_, isOpen, empty, member⟩
    -- An empty queue is not full, so the producer does not wait at it.
    cases ended : state.producerEnded with
    | true => rfl
    | false =>
      obtain ⟨-, most, bound, full⟩ := of_produce?_none (stuck .producer) ended
      rw [TaskQueue.items_eq_nil_iff.mp empty] at full
      have := sound.room most bound
      omega

/-! ## The producer -/

/-- The tasks that were streamed into the queue: those taken and those waiting. -/
def streamed (trace : Trace) (state : Execution) : List Task :=
  (taken trace).reverse ++ state.queue.items

/-- How far the producer has come with these tasks streamed. -/
structure Produced (partitioner : Partitioner) (streamed : List Task) (state : Execution) :
    Prop where
  streaming : ∀ {cursor created}, state.producer = .streaming cursor created →
    streamed.length = created ∧
      partitioner.createTasks partitioner.total = (streamed ++ ·) <$> partitioner.createRest cursor
  ended : ∀ {created}, state.producer = .ended (.ok created) →
    streamed.length = created ∧ partitioner.createTasks partitioner.total = .ok streamed
  gaveUp : ∀ {cause}, state.producer = .ended (.error cause) → .crashed ∈ state.workers
  crashed : ∀ {cause}, state.producer = .crashed cause →
    partitioner.createTasks partitioner.total = .error cause

/-- Workers do not change what was streamed. -/
theorem Step.streamed_eq {index : Nat}
    (step : Step partitioner body state (.worker index) next) :
    streamed ((state, .worker index) :: trace) next = streamed trace state := by
  cases step with
  | leave here none => simp [streamed, taken, dequeued?, here, none]
  | dequeue here item =>
    simp [streamed, taken, dequeued?, here, item, TaskQueue.items_of_take item]
  | skip here _ | begin here _ | succeed here _ | fail here _ | crash here _ =>
    simp [streamed, taken, dequeued?, here]

theorem Step.produced_of_worker {index : Nat} {streamed : List Task}
    (step : Step partitioner body state (.worker index) next)
    (produced : Produced partitioner streamed state) : Produced partitioner streamed next := by
  have same : next.producer = state.producer := by cases step <;> rfl
  have stays (crashed : .crashed ∈ state.workers) : .crashed ∈ next.workers := by
    cases step with
    | leave here _ | dequeue here _ | skip here _ | begin here _ | succeed here _ | fail here _
      | crash here _ => exact (mem_set_iff here (by simp)).mpr (.inr crashed)
  exact ⟨(produced.streaming <| same ▸ ·), (produced.ended <| same ▸ ·),
    (stays <| produced.gaveUp <| same ▸ ·), (produced.crashed <| same ▸ ·)⟩

/-- The producer keeps count of the tasks of its partitioner. -/
theorem Runs.produced
    (runs : Runs partitioner body (.start partitioner workers (.new capacity)) trace state) :
    Produced partitioner (streamed trace state) state := by
  induction runs with
  | refl =>
    refine ⟨fun streaming => ?_, nofun, nofun, nofun⟩
    cases streaming
    refine ⟨rfl, ?_⟩
    rw [Partitioner.createTasks_eq]
    cases partitioner.createRest partitioner.start <;> rfl
  | @step trace state next runs thread done produced =>
    have step := step_of_step? done
    cases thread with
    | worker index =>
      rw [step.streamed_eq]
      exact step.produced_of_worker produced
    | producer =>
      cases step with
      | stop streaming stopped =>
        have tasks := (produced.streaming streaming).2
        rw [Partitioner.createRest_of_error stopped] at tasks
        refine ⟨nofun, nofun, nofun, fun crashed => ?_⟩
        cases crashed
        exact tasks
      | finish streaming last =>
        obtain ⟨count, tasks⟩ := produced.streaming streaming
        rw [Partitioner.createRest_of_none last, Outcome.map_ok, List.append_nil] at tasks
        refine ⟨nofun, fun ended => ?_, nofun, nofun⟩
        cases ended
        exact ⟨count, tasks⟩
      | @enqueue cursor rest created task queue streaming more accepted =>
        obtain ⟨count, tasks⟩ := produced.streaming streaming
        have longer : streamed ((state, .producer) :: trace)
            { state with producer := .streaming rest (created + 1), queue } =
            streamed trace state ++ [task] := by
          simp [streamed, taken, dequeued?, TaskQueue.items_of_offer accepted]
        rw [longer]
        refine ⟨fun streaming => ?_, nofun, nofun, nofun⟩
        cases streaming
        refine ⟨by simp [count], ?_⟩
        rw [tasks, Partitioner.createRest_of_some more]
        cases partitioner.createRest rest <;> simp
      | giveUp streaming _ rejected =>
        -- The queue was closed, and not by the producer.
        have closed := runs.isSound.closed_iff.mp (TaskQueue.of_offer_rejected rejected)
        exact ⟨nofun, nofun, fun _ => closed.resolve_left (by simp [streaming]), nofun⟩

/-- As long as the tasks can be created, the producer does not crash. -/
theorem Produced.not_crashed {streamed tasks : List Task}
    (produced : Produced partitioner streamed state)
    (created : partitioner.createTasks partitioner.total = .ok tasks) (cause : Failure) :
    state.producer ≠ .crashed cause := by
  intro crashed
  have stopped := produced.crashed crashed
  rw [created] at stopped
  cases stopped

theorem Runs.not_starves {tasks : List Task}
    (created : partitioner.createTasks partitioner.total = .ok tasks)
    (runs : Runs partitioner body (.start partitioner workers (.new capacity)) trace state) :
    ¬ state.Starves := by
  intro starves
  obtain ⟨cause, crashed⟩ := starves.crashed runs.isSound
  exact runs.produced.not_crashed created cause crashed

/-! ## Coming to an end -/

theorem isStuck_of_finished (finished : state.finished = true) : IsStuck partitioner body state := by
  obtain ⟨producer, workers⟩ := (Bool.and_eq_true _ _).mp finished
  intro thread
  apply step?_of_ended
  cases thread with
  | producer => exact producer
  | worker index =>
    cases here : state.workers[index]? with
    | none => simp [hasEnded, here]
    | some worker =>
      simpa [hasEnded, here] using List.all_eq_true.mp workers _ (List.mem_of_getElem? here)

/-- When all tasks can be created, some thread can step until all have ended, whatever the bodies
do, and then the queue is closed. -/
theorem progress {tasks : List Task}
    (created : partitioner.createTasks partitioner.total = .ok tasks) (some : 1 ≤ workers)
    (runs : Runs partitioner body (.start partitioner workers (.new capacity)) trace state) :
    (state.finished = false → ∃ thread, state.hasEnded thread = false ∧
      (state.step? partitioner body thread).isSome = true) ∧
    (state.finished = true → state.queue.closed = true) := by
  have ends (stuck : IsStuck partitioner body state) :
      state.finished = true ∧ state.queue.closed = true :=
    (of_isStuck runs.isSound (runs.workers_ne_nil some) stuck).resolve_right
      (runs.not_starves created)
  refine ⟨fun unfinished => ?_, fun finished => (ends (isStuck_of_finished finished)).2⟩
  by_contra none
  -- Threads that have ended do not step, so no thread does.
  have stuck : IsStuck partitioner body state := by
    intro thread
    cases ended : state.hasEnded thread with
    | true => exact step?_of_ended ended
    | false =>
      by_contra moves
      exact none ⟨thread, ended, Option.isSome_iff_ne_none.mpr moves⟩
  simp [(ends stuck).1] at unfinished

/-- Three tasks of one iteration each. -/
def threeTasks : Partitioner :=
  { space := { var := "i", range := { first := 1, last := 3, step := 1 }, encoding := .disabled }
    strategy := .naive }

/-- The only worker crashes while the producer waits at a full queue. The producer can step then. -/
theorem progress_of_crash :
    ∃ tasks trace state, threeTasks.createTasks threeTasks.total = .ok tasks ∧
      Runs threeTasks (fun _ => .crash) (.start threeTasks 1 (.new (some 1))) trace state ∧
      state.workers = [.crashed] ∧ state.finished = false ∧
      ∃ thread, state.hasEnded thread = false ∧
        (state.step? threeTasks (fun _ => .crash) thread).isSome = true := by
  have runs : Runs threeTasks (fun _ => .crash) (.start threeTasks 1 (.new (some 1))) [] _ := .refl
  have runs := runs.step .producer rfl
  have runs := runs.step (.worker 0) rfl
  have runs := runs.step .producer rfl
  have runs := runs.step (.worker 0) rfl
  have runs := runs.step (.worker 0) rfl
  exact ⟨_, _, _, rfl, runs, rfl, rfl, (progress rfl (Nat.le_refl 1) runs).1 rfl⟩

/-- When a task cannot be created and no body crashes, a schedule comes to its end with the producer
crashed and a worker starving. -/
theorem Runs.starves {cause : Failure}
    (stopped : partitioner.createTasks partitioner.total = .error cause)
    (sane : ∀ task, body task ≠ .crash) (some : 1 ≤ workers)
    (runs : Runs partitioner body (.start partitioner workers (.new capacity)) trace state)
    (stuck : IsStuck partitioner body state) :
    state.producer = .crashed cause ∧ state.Starves := by
  have starves : state.Starves := by
    refine (of_isStuck runs.isSound (runs.workers_ne_nil some) stuck).resolve_left ?_
    rintro ⟨-, closed⟩
    -- Only a producer that has streamed all tasks would have closed the queue.
    obtain ⟨outcome, ended⟩ := (runs.isSound.closed_iff.mp closed).resolve_right (runs.sane sane)
    cases outcome with
    | error cause => exact runs.sane sane (runs.produced.gaveUp ended)
    | ok count =>
      have all := (runs.produced.ended ended).2
      rw [stopped] at all
      cases all
  refine ⟨?_, starves⟩
  -- The cause is the one that creating all tasks reports.
  obtain ⟨own, crashed⟩ := starves.crashed runs.isSound
  obtain rfl := Except.error.inj (stopped.symm.trans (runs.produced.crashed crashed))
  exact crashed

/-- The producer always closes the queue when it ends, and no worker starves, if and only if all
tasks can be created. Otherwise every schedule with bodies that do not crash ends with the
producer crashed and a worker starving. -/
theorem closes_iff_createTasks (partitioner : Partitioner) (workers : Nat) (capacity : Option Nat) :
    ((∀ body trace state,
        Runs partitioner body (.start partitioner (max workers 1) (.new capacity)) trace state →
        (state.producerEnded = true → state.queue.closed = true) ∧ ¬ state.Starves) ↔
      ∃ tasks, partitioner.createTasks partitioner.total = .ok tasks) ∧
    ∀ cause, partitioner.createTasks partitioner.total = .error cause →
      ∀ body : Task → BodyOutcome, (∀ task, body task ≠ .crash) → ∀ trace state,
      Runs partitioner body (.start partitioner (max workers 1) (.new capacity)) trace state →
      IsStuck partitioner body state → state.producer = .crashed cause ∧ state.Starves := by
  have some := Nat.le_max_right workers 1
  refine ⟨⟨fun closes => ?_, ?_⟩, fun cause stopped body sane trace state runs stuck =>
    runs.starves stopped sane some stuck⟩
  · cases created : partitioner.createTasks partitioner.total with
    | ok tasks => exact ⟨tasks, rfl⟩
    | error cause =>
      -- The schedule that the program follows is one that starves, whatever the bodies do.
      obtain ⟨trace, runs, stuck⟩ :=
        exists_runs_run partitioner (fun _ => .success) (max workers 1) (.new capacity)
      exact absurd (runs.starves created (by simp) some stuck).2 (closes _ _ _ runs).2
  · rintro ⟨tasks, created⟩ body trace state runs
    refine ⟨fun ended => ?_, runs.not_starves created⟩
    cases here : state.producer with
    | streaming cursor count => simp [producerEnded, here] at ended
    | ended outcome => exact runs.isSound.closed_iff.mpr (.inl ⟨outcome, here⟩)
    | crashed cause => exact absurd here (runs.produced.not_crashed created cause)

/-- A factoring schedule for so many workers that a batch of it has no size. -/
def hugeFactoring : Partitioner :=
  { space := { var := "i", range := { first := 1, last := 10, step := 1 }
               encoding := { enabled := true, minSize := 3 } }
    strategy := .factoring (2 ^ 63) none }

/-- All of its schedules end with the worker starving. -/
theorem starves_hugeFactoring :
    hugeFactoring.createTasks hugeFactoring.total = .error (.abort .overflow) ∧
    ∀ trace state,
      Runs hugeFactoring (fun _ => .success) (.start hugeFactoring 1 (.new none)) trace state →
      IsStuck hugeFactoring (fun _ => .success) state →
        state.producer = .crashed (.abort .overflow) ∧ state.Starves :=
  ⟨rfl, (closes_iff_createTasks hugeFactoring 1 none).2 _ rfl _ (by simp)⟩

/-- The producer ends at its first step and leaves the queue open and empty. The worker waits
there, and no thread can step. -/
theorem exists_starves_hugeFactoring :
    IterationSpace.ofBounds "i" 1 10 1 { enabled := true, minSize := 3 } = .ok hugeFactoring.space ∧
    Partitioner.build .factoring hugeFactoring.space 0 (2 ^ 63) = .ok hugeFactoring ∧
    ∃ trace state,
      Runs hugeFactoring (fun _ => .success) (.start hugeFactoring 1 (.new none)) trace state ∧
      state.producerEnded = true ∧ state.queue.closed = false ∧ state.Starves ∧
      IsStuck hugeFactoring (fun _ => .success) state := by
  have runs : Runs hugeFactoring (fun _ => .success) (.start hugeFactoring 1 (.new none)) [] _ :=
    .refl
  have runs := runs.step .producer rfl
  refine ⟨rfl, rfl, _, _, runs, rfl, rfl, ⟨rfl, rfl, rfl, by simp [start]⟩, ?_⟩
  intro thread
  cases thread with
  | producer => rfl
  | worker index => cases index <;> rfl

end Execution

end ParallelLoop
