/-
# Delivery of tasks

Workers take tasks, hold them, and run the body on them unless a body has failed by then.
`Execution.Accounts` counts for every task how often each of this has happened, and every step
keeps the counts in step with each other. As no task is streamed twice, none is run twice, and
when no body fails the tasks that were run are all that there are.
-/

import ParallelLoop.Proofs.Task.Progress

namespace ParallelLoop

namespace Execution

variable {partitioner : Partitioner} {body : Task → BodyOutcome} {state next : Execution}
  {thread : ExecutionThread} {trace : Trace} {workers : Nat} {capacity : Option Nat}

/-! ## Counting tasks -/

theorem count_set {workers : List WorkerState} {index : Nat} {old : WorkerState}
    (here : workers[index]? = some old) (new other : WorkerState) :
    (workers.set index new).count other + (if old = other then 1 else 0) =
      workers.count other + if new = other then 1 else 0 := by
  obtain ⟨rest, before, after⟩ := exists_perm_set here
  rw [(after new).count_eq, before.count_eq, List.count_cons, List.count_cons]
  simp only [beq_iff_eq]
  omega

/-- How often each task was taken, held, run and completed. -/
structure Accounts (trace : Trace) (state : Execution) : Prop where
  /-- The body is begun on tasks that were taken, and no more often. -/
  begun : ∀ task, (ran trace).count task + state.workers.count (.holding task) ≤
    (taken trace).count task
  /-- It is not begun on those that were taken after a failure. -/
  late : ∀ task, (ran trace).count task + (takenLate trace).count task ≤ (taken trace).count task
  /-- Before a failure nothing is dropped. -/
  complete : state.failed = false → takenLate trace = [] ∧ ∀ task,
    (taken trace).count task = (ran trace).count task + state.workers.count (.holding task) ∧
    (ran trace).count task = state.completed.count task + state.workers.count (.running task)

theorem accounts_start (partitioner : Partitioner) (workers : Nat) (capacity : Option Nat) :
    Accounts [] (.start partitioner workers (.new capacity)) := by
  constructor <;> simp [Execution.start, ran, taken, takenLate, List.count_replicate]

/-- A step that neither takes a task nor begins to run one, and that drops none before a failure. -/
theorem Accounts.of_quiet (accounts : Accounts trace state)
    (untaken : state.dequeued? thread = none) (unbegun : state.begun? thread = none)
    (held : ∀ task, next.workers.count (.holding task) ≤ state.workers.count (.holding task))
    (kept : next.failed = false → state.failed = false ∧ ∀ task,
      next.workers.count (.holding task) = state.workers.count (.holding task) ∧
      next.completed.count task + next.workers.count (.running task) =
        state.completed.count task + state.workers.count (.running task)) :
    Accounts ((state, thread) :: trace) next := by
  -- The step counts for nothing in the trace.
  have taken_eq : taken ((state, thread) :: trace) = taken trace := by simp [taken, untaken]
  have ran_eq : ran ((state, thread) :: trace) = ran trace := by simp [ran, unbegun]
  have late_eq : takenLate ((state, thread) :: trace) = takenLate trace := by
    cases failed : state.failed <;> simp [takenLate, taken, failed, untaken]
  refine ⟨fun task => ?_, ?_, fun unfailed => ?_⟩
  · have before := accounts.begun task
    have less := held task
    rw [taken_eq, ran_eq]
    omega
  · simpa only [taken_eq, ran_eq, late_eq] using accounts.late
  · obtain ⟨sane, same⟩ := kept unfailed
    obtain ⟨none, counts⟩ := accounts.complete sane
    rw [taken_eq, ran_eq, late_eq]
    refine ⟨none, fun task => ?_⟩
    have before := counts task
    have after := same task
    omega

theorem Accounts.of_dequeue {index : Nat} {task : Task} {queue : TaskQueue Task}
    (accounts : Accounts trace state) (here : state.workers[index]? = some .idle)
    (item : state.queue.take = .item task queue) :
    Accounts ((state, .worker index) :: trace)
      { state with workers := state.workers.set index (.holding task), queue } := by
  have taken_eq : taken ((state, .worker index) :: trace) = task :: taken trace := by
    simp [taken, dequeued?, here, item]
  have ran_eq : ran ((state, .worker index) :: trace) = ran trace := by simp [ran, begun?, here]
  -- The task counts as late if a body has failed before it was taken.
  have late_eq : takenLate ((state, .worker index) :: trace) =
      if state.failed then task :: takenLate trace else takenLate trace := by
    cases failed : state.failed <;> simp [takenLate, taken, dequeued?, here, item, failed]
  have holding other := count_set here (.holding task) (.holding other)
  have running other := count_set here (.holding task) (.running other)
  simp only [reduceCtorEq, if_false, Nat.add_zero, WorkerState.holding.injEq] at holding running
  refine ⟨fun other => ?_, fun other => ?_, fun sane => ?_⟩
  · have before := accounts.begun other
    rw [taken_eq, ran_eq, List.count_cons]
    simp only [beq_iff_eq, holding]
    omega
  · have before := accounts.late other
    rw [taken_eq, ran_eq, late_eq, List.count_cons]
    split
    · rw [List.count_cons]
      omega
    · omega
  · have sane : state.failed = false := sane
    obtain ⟨none, counts⟩ := accounts.complete sane
    rw [taken_eq, ran_eq, late_eq, sane]
    refine ⟨none, fun other => ?_⟩
    have before := counts other
    rw [List.count_cons]
    simp only [beq_iff_eq, holding, running]
    omega

theorem Accounts.of_begin {index : Nat} {task : Task} (accounts : Accounts trace state)
    (here : state.workers[index]? = some (.holding task)) (sane : state.failed = false) :
    Accounts ((state, .worker index) :: trace)
      { state with workers := state.workers.set index (.running task) } := by
  have taken_eq : taken ((state, .worker index) :: trace) = taken trace := by
    simp [taken, dequeued?, here]
  have ran_eq : ran ((state, .worker index) :: trace) = task :: ran trace := by
    simp [ran, begun?, here, sane]
  have late_eq : takenLate ((state, .worker index) :: trace) = takenLate trace := by
    simp [takenLate, taken, dequeued?, sane]
  have holding other := count_set here (.running task) (.holding other)
  have running other := count_set here (.running task) (.running other)
  simp only [reduceCtorEq, if_false, Nat.add_zero, WorkerState.holding.injEq,
    WorkerState.running.injEq] at holding running
  obtain ⟨none, counts⟩ := accounts.complete sane
  -- The task was held, and now it is run.
  refine ⟨fun other => ?_, fun other => ?_, fun _ => ⟨late_eq ▸ none, fun other => ?_⟩⟩ <;>
    have before := counts other <;> have held := holding other <;>
    simp only [taken_eq, ran_eq, late_eq, none, running, List.count_cons, List.count_nil,
      beq_iff_eq] <;> omega

/-- Bodies that do not crash give every task back. -/
theorem Accounts.of_step (sane : ∀ task, body task ≠ .crash) (accounts : Accounts trace state)
    (step : Step partitioner body state thread next) : Accounts ((state, thread) :: trace) next := by
  cases step with
  | stop | finish | enqueue | giveUp =>
    exact accounts.of_quiet rfl rfl (fun _ => Nat.le_refl _) fun unfailed => ⟨unfailed, by simp⟩
  | leave here none =>
    refine accounts.of_quiet (by simp [dequeued?, here, none]) (by simp [begun?, here])
      (fun task => ?_) fun unfailed => ⟨unfailed, fun task => ?_⟩
    all_goals
      have holding := count_set here .ended (.holding task)
      have running := count_set here .ended (.running task)
      simp only [reduceCtorEq, if_false] at holding running
      dsimp only
      omega
  | dequeue here item => exact accounts.of_dequeue here item
  | skip here failed =>
    -- The task is dropped, but only because a body has failed.
    refine accounts.of_quiet (by simp [dequeued?, here]) (by simp [begun?, here, failed])
      (fun task => ?_) fun unfailed => absurd failed (by simpa using unfailed)
    have holding := count_set here .idle (.holding task)
    simp only [reduceCtorEq, if_false] at holding
    dsimp only
    omega
  | begin here unfailed => exact accounts.of_begin here unfailed
  | succeed here _ =>
    refine accounts.of_quiet (by simp [dequeued?, here]) (by simp [begun?, here])
      (fun task => ?_) fun unfailed => ⟨unfailed, fun task => ?_⟩
    all_goals
      have holding := count_set here .idle (.holding task)
      have running := count_set here .idle (.running task)
      simp only [reduceCtorEq, if_false, WorkerState.running.injEq] at holding running
      simp only [List.count_cons, beq_iff_eq]
      omega
  | fail here _ =>
    -- With the failure it no longer matters what was completed.
    refine accounts.of_quiet (by simp [dequeued?, here]) (by simp [begun?, here])
      (fun task => ?_) (by simp)
    have holding := count_set here .idle (.holding task)
    simp only [reduceCtorEq, if_false] at holding
    dsimp only
    omega
  | @crash _ task _ outcome => exact absurd outcome (sane task)

theorem Runs.accounts (sane : ∀ task, body task ≠ .crash)
    (runs : Runs partitioner body (.start partitioner workers (.new capacity)) trace state) :
    Accounts trace state := by
  induction runs with
  | refl => exact accounts_start partitioner workers capacity
  | step _ _ done ih => exact ih.of_step sane (step_of_step? done)

/-! ## Failures -/

/-- What came of the bodies that were run. -/
structure Reports (body : Task → BodyOutcome) (trace : Trace) (state : Execution) : Prop where
  succeeded : ∀ task ∈ state.completed, body task = .success
  unfailed : state.failed = false → state.firstError = none
  /-- The error that is kept is that of a body that was run. -/
  failure : state.failed = true → ∃ cause, state.firstError = some cause ∧
    ∃ task ∈ ran trace, body task = .failure cause

theorem reports_start (partitioner : Partitioner) (body : Task → BodyOutcome) (workers : Nat)
    (capacity : Option Nat) : Reports body [] (.start partitioner workers (.new capacity)) := by
  constructor <;> simp [Execution.start]

theorem Reports.of_step (accounts : Accounts trace state) (reports : Reports body trace state)
    (step : Step partitioner body state thread next) :
    Reports body ((state, thread) :: trace) next := by
  obtain ⟨succeeded, unfailed, failure⟩ := reports
  have grown : ran trace ⊆ ran ((state, thread) :: trace) :=
    ((List.sublist_cons_self _ _).filterMap _).subset
  have failure (failed : state.failed = true) : ∃ cause, state.firstError = some cause ∧
      ∃ task ∈ ran ((state, thread) :: trace), body task = .failure cause := by
    obtain ⟨cause, kept, task, member, outcome⟩ := failure failed
    exact ⟨cause, kept, task, grown member, outcome⟩
  cases step with
  | stop | finish | enqueue | giveUp | leave | dequeue | skip | begin | crash =>
    exact ⟨succeeded, unfailed, failure⟩
  | succeed _ outcome =>
    exact ⟨List.forall_mem_cons.mpr ⟨outcome, succeeded⟩, unfailed, failure⟩
  | @fail _ task cause here outcome =>
    refine ⟨succeeded, nofun, fun _ => ?_⟩
    cases failed : state.failed with
    | true =>
      -- An earlier error is kept.
      obtain ⟨first, kept, culprit⟩ := failure failed
      exact ⟨first, by simp [kept], culprit⟩
    | false =>
      have counts := ((accounts.complete failed).2 task).2
      have running := List.count_pos_iff.mpr (List.mem_of_getElem? here)
      have member : task ∈ ran trace := List.count_pos_iff.mp (by omega)
      exact ⟨cause, by simp [unfailed failed], task, grown member, outcome⟩

theorem Runs.reports (sane : ∀ task, body task ≠ .crash)
    (runs : Runs partitioner body (.start partitioner workers (.new capacity)) trace state) :
    Reports body trace state := by
  induction runs with
  | refl => exact reports_start partitioner body workers capacity
  | step runs _ done ih => exact ih.of_step (runs.accounts sane) (step_of_step? done)

/-! ## The end of a schedule -/

section End

variable {tasks : List Task}

/-- The tasks that were streamed are the first ones. -/
theorem Runs.exists_append (created : partitioner.createTasks partitioner.total = .ok tasks)
    (sane : ∀ task, body task ≠ .crash)
    (runs : Runs partitioner body (.start partitioner workers (.new capacity)) trace state) :
    ∃ rest, tasks = streamed trace state ++ rest ∧
      ((∃ cursor count, state.producer = .streaming cursor count) ∨
        rest = [] ∧ state.producer = .ended (.ok tasks.length)) := by
  have produced := runs.produced
  -- With all tasks created, and no crash, the producer goes on or has ended well.
  cases here : state.producer with
  | streaming cursor count =>
    have all := (produced.streaming here).2
    rw [created] at all
    obtain ⟨rest, -, same⟩ := Outcome.of_map all.symm
    exact ⟨rest, same.symm, .inl ⟨cursor, count, rfl⟩⟩
  | crashed cause => exact absurd here (produced.not_crashed created cause)
  | ended outcome =>
    cases outcome with
    | error cause => exact absurd (produced.gaveUp here) (runs.sane sane)
    | ok count =>
      obtain ⟨length, all⟩ := produced.ended here
      obtain rfl := Except.ok.inj (created.symm.trans all)
      exact ⟨[], (List.append_nil _).symm, .inr ⟨rfl, by rw [length]⟩⟩

/-- What a local execution returns when all threads have ended. -/
def result (state : Execution) : Except Failure ExecutionSummary :=
  state.outcome.map fun _ => state.summary

theorem outcome_executeLocal (partitioner : Partitioner) (workers : Nat) (capacity : Option Nat)
    (body : Task → BodyOutcome) :
    (executeLocal partitioner workers capacity body).outcome =
      let last := (Execution.start partitioner (max workers 1) (.new capacity)).run partitioner body
      if last.finished then last.result else .error (.abort .deadlock) := by
  unfold executeLocal
  dsimp only
  generalize (Execution.start partitioner (max workers 1) (.new capacity)).run partitioner body =
    last
  cases last.finished with
  | false => rfl
  | true => cases outcome : last.outcome <;> simp [result, outcome, Except.map]

/-- The threads have ended, all tasks were taken, and those that no failure stopped were run. -/
theorem Runs.of_isStuck (created : partitioner.createTasks partitioner.total = .ok tasks)
    (sane : ∀ task, body task ≠ .crash) (some : 1 ≤ workers)
    (runs : Runs partitioner body (.start partitioner workers (.new capacity)) trace state)
    (stuck : IsStuck partitioner body state) :
    state.finished = true ∧ state.producer = .ended (.ok tasks.length) ∧
      (state.failed = false → (ran trace).Perm tasks ∧ (state.completed).Perm tasks) := by
  have finished : state.finished = true :=
    ((Execution.of_isStuck runs.isSound (runs.workers_ne_nil some) stuck).resolve_right
      (runs.not_starves created)).1
  obtain ⟨producer, workers⟩ := (Bool.and_eq_true _ _).mp finished
  -- No worker crashed, so all of them left the queue, and it was empty then.
  have left (worker : WorkerState) (member : worker ∈ state.workers) : worker = .ended := by
    have ended := List.all_eq_true.mp workers worker member
    cases worker with
    | ended => rfl
    | crashed => exact absurd member (runs.sane sane)
    | idle | holding _ | running _ => cases ended
  have empty : state.queue.items = [] := by
    obtain ⟨worker, member⟩ := List.exists_mem_of_ne_nil _ (runs.workers_ne_nil some)
    exact (runs.isSound.drained (left worker member ▸ member)).2
  obtain ⟨rest, tasks_eq, ⟨cursor, count, streaming⟩ | ⟨rfl, ended⟩⟩ :=
    runs.exists_append created sane
  · simp [producerEnded, streaming] at producer
  refine ⟨finished, ended, fun unfailed => ?_⟩
  have counts := ((runs.accounts sane).complete unfailed).2
  -- Nobody holds or runs a task any more, so the counts of taken and completed tasks are the same.
  have nobody (worker : WorkerState) (other : worker ≠ .ended) : state.workers.count worker = 0 :=
    List.count_eq_zero.mpr fun member => other (left worker member)
  have all (task : Task) : (taken trace).count task = tasks.count task := by
    rw [tasks_eq, streamed, empty, List.append_nil, List.append_nil, List.count_reverse]
  constructor <;> refine List.perm_iff_count.mpr fun task => ?_ <;>
    have own := counts task <;>
    rw [nobody _ (by simp), nobody _ (by simp), all task] at own <;> omega

/-- What becomes of these tasks on a schedule. -/
structure Delivers (partitioner : Partitioner) (body : Task → BodyOutcome) (tasks : List Task)
    (trace : Trace) (state : Execution) : Prop where
  once : (ran trace).Nodup ∧ ran trace ⊆ tasks
  /-- A task that was taken after a failure is not run. -/
  late : ∀ task ∈ takenLate trace, task ∉ ran trace
  /-- The producer does not find the queue closed. -/
  streamed : ∀ cause, state.producer ≠ .ended (.error cause)
  success : IsStuck partitioner body state → (∀ task ∈ ran trace, body task = .success) →
    state.finished = true ∧
    state.result = .ok { tasks := tasks.length, iterations := partitioner.total } ∧
    (ran trace).Perm tasks ∧
    ∃ values, (ran trace).mapM Task.values = .ok values ∧
      values.flatten.Perm (loopValues partitioner.space.range.first partitioner.space.range.last
        partitioner.space.range.step)
  failure : IsStuck partitioner body state → (∃ task ∈ ran trace, body task ≠ .success) →
    state.finished = true ∧
    ∃ task ∈ ran trace, ∃ cause, body task = .failure cause ∧ state.result = .error (.error cause)

/-- Without an error of a body, the result is what the completed tasks amount to. -/
theorem result_of_ended {count : Nat} (ended : state.producer = .ended (.ok count))
    (sane : .crashed ∉ state.workers) :
    state.result =
      match state.firstError with
      | some cause => .error (.error cause)
      | none => .ok state.summary := by
  rw [result, outcome, ended]
  dsimp only
  rw [if_neg (by simpa using sane)]
  cases state.firstError <;> rfl

theorem values_of_perm {run : List Task} (proper : partitioner.IsProper)
    (stream : partitioner.Streams partitioner.start tasks) (all : run.Perm tasks) :
    ∃ values, run.mapM Task.values = .ok values ∧
      values.flatten.Perm (loopValues partitioner.space.range.first partitioner.space.range.last
        partitioner.space.range.step) := by
  obtain ⟨lists, collected, flat⟩ := Outcome.of_map stream.values_eq
  obtain ⟨values, computed, same⟩ := Outcome.exists_mapM_of_perm all.symm collected
  refine ⟨values, computed, same.flatten.trans ?_⟩
  rw [flat, loopValues_eq_map proper.counted, List.range_eq_range']
  exact .refl _

/-- When all tasks were completed, the summary counts all iterations. -/
theorem summary_of_perm (stream : partitioner.Streams partitioner.start tasks)
    (completed : state.completed.Perm tasks) :
    state.summary = { tasks := tasks.length, iterations := partitioner.total } := by
  have iterations : state.summary.iterations = partitioner.total := by
    rw [summary, ← List.foldr_map (f := Task.size) (g := (· + ·)), ← List.sum_eq_foldr,
      (completed.map Task.size).sum_eq, stream.sum_sizes]
    rfl
  simp [← iterations, summary, completed.length_eq]

/-- No task is taken twice, as none is streamed twice. -/
theorem Runs.count_taken_le_one (proper : partitioner.IsProper)
    (created : partitioner.createTasks partitioner.total = .ok tasks)
    (sane : ∀ task, body task ≠ .crash)
    (runs : Runs partitioner body (.start partitioner workers (.new capacity)) trace state)
    (task : Task) : (taken trace).count task ≤ 1 := by
  obtain ⟨rest, tasks_eq, -⟩ := runs.exists_append created sane
  have distinct := (proper.streams created).nodup proper.counted.step_pos
  have most := List.nodup_iff_count_le_one.mp distinct task
  simp only [tasks_eq, Execution.streamed, List.count_append, List.count_reverse] at most
  omega

theorem Runs.delivers (proper : partitioner.IsProper)
    (created : partitioner.createTasks partitioner.total = .ok tasks)
    (sane : ∀ task, body task ≠ .crash) (some : 1 ≤ workers)
    (runs : Runs partitioner body (.start partitioner workers (.new capacity)) trace state) :
    Delivers partitioner body tasks trace state := by
  have stream := proper.streams created
  have accounts := runs.accounts sane
  have reports := runs.reports sane
  have single := runs.count_taken_le_one proper created sane
  obtain ⟨rest, tasks_eq, produced⟩ := runs.exists_append created sane
  constructor
  case once =>
    refine ⟨List.nodup_iff_count_le_one.mpr fun task => ?_, fun task member => ?_⟩
    · have := accounts.begun task
      have := single task
      omega
    · have := accounts.begun task
      have := List.count_pos_iff.mpr member
      have taken : task ∈ taken trace := List.count_pos_iff.mp (by omega)
      simp [tasks_eq, Execution.streamed, taken]
  case late =>
    intro task late member
    have := accounts.late task
    have := single task
    have := List.count_pos_iff.mpr late
    have := List.count_pos_iff.mpr member
    omega
  case streamed =>
    intro cause ended
    rcases produced with ⟨cursor, count, streaming⟩ | ⟨-, ended'⟩
    · simp [streaming] at ended
    · simp [ended'] at ended
  case success =>
    intro stuck succeeded
    obtain ⟨finished, ended, all⟩ := runs.of_isStuck created sane some stuck
    -- Had a body failed, it would be that of a task that was run.
    have unfailed : state.failed = false := by
      by_contra failed
      obtain ⟨cause, -, task, member, outcome⟩ := reports.failure (by simpa using failed)
      simp [succeeded task member] at outcome
    obtain ⟨ran, completed⟩ := all unfailed
    refine ⟨finished, ?_, ran, values_of_perm proper stream ran⟩
    rw [result_of_ended ended (runs.sane sane), reports.unfailed unfailed,
      summary_of_perm stream completed]
  case failure =>
    rintro stuck ⟨task, member, outcome⟩
    obtain ⟨finished, ended, all⟩ := runs.of_isStuck created sane some stuck
    -- Without a failure all tasks were completed, which the body on this one was not.
    have failed : state.failed = true := by
      by_contra unfailed
      obtain ⟨ran, completed⟩ := all (by simpa using unfailed)
      exact outcome (reports.succeeded task (completed.mem_iff.mpr (ran.mem_iff.mp member)))
    obtain ⟨cause, kept, culprit, run, failure⟩ := reports.failure failed
    refine ⟨finished, culprit, run, cause, failure, ?_⟩
    rw [result_of_ended ended (runs.sane sane), kept]

end End

/-- Every schedule of a loop whose tasks can be created runs no task twice. No schedule goes on for
ever, and one that has come to its end has run all tasks, or returns the error of a body that was
run. Running the loop follows such a schedule. -/
theorem delivers_createTasks {tasks : List Task} (proper : partitioner.IsProper)
    (created : partitioner.createTasks partitioner.total = .ok tasks)
    (sane : ∀ task, body task ≠ .crash) (workers : Nat) (capacity : Option Nat) :
    (∀ trace state,
      Runs partitioner body (.start partitioner (max workers 1) (.new capacity)) trace state →
      Delivers partitioner body tasks trace state ∧
      trace.length ≤ 4 * partitioner.total + 1 + max workers 1) ∧
    ∃ trace state,
      Runs partitioner body (.start partitioner (max workers 1) (.new capacity)) trace state ∧
      IsStuck partitioner body state ∧
      (executeLocal partitioner workers capacity body).outcome = state.result := by
  have some := Nat.le_max_right workers 1
  refine ⟨fun trace state runs => ⟨runs.delivers proper created sane some, ?_⟩, ?_⟩
  · have bound := runs.length_add_work_le
    rw [work_start] at bound
    have empty : (TaskQueue.new capacity : TaskQueue Task).size = 0 := rfl
    omega
  · obtain ⟨trace, runs, stuck⟩ := exists_runs_run partitioner body (max workers 1) (.new capacity)
    refine ⟨trace, _, runs, stuck, ?_⟩
    rw [outcome_executeLocal]
    exact if_pos (runs.of_isStuck created sane some stuck).1

/-- A body that fails on the value 2. -/
def failsOnTwo (task : Task) : BodyOutcome :=
  if task.contains 2 then .failure (.estimation "value 2") else .success

/-- Two workers share three tasks, one of which fails. -/
theorem delivers_threeTasks :
    ∃ tasks, threeTasks.IsProper ∧ threeTasks.createTasks threeTasks.total = .ok tasks ∧
      (∀ task, failsOnTwo task ≠ .crash) ∧
      (∀ trace state, Runs threeTasks failsOnTwo (.start threeTasks 2 (.new (some 1))) trace state →
        Delivers threeTasks failsOnTwo tasks trace state ∧ trace.length ≤ 15) ∧
      (executeLocal threeTasks 2 (some 1) failsOnTwo).outcome =
        .error (.error (.estimation "value 2")) := by
  have accepted : IterationSpace.ofBounds "i" 1 3 1 .disabled = .ok threeTasks.space := rfl
  have built : Partitioner.build .naive threeTasks.space 0 0 = .ok threeTasks := rfl
  have proper : threeTasks.IsProper :=
    Partitioner.isProper_of_build (by decide) (by decide) accepted built
  have sane (task : Task) : failsOnTwo task ≠ .crash := by
    unfold failsOnTwo
    split <;> simp
  exact ⟨_, proper, rfl, sane, (delivers_createTasks proper rfl sane 2 (some 1)).1, rfl⟩

end Execution

end ParallelLoop
